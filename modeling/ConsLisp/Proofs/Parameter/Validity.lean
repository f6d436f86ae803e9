import Mathlib.Data.List.Nodup
import ConsLisp.Parameter.Validity

/-!
# Valid parameter lists

A parameter list is valid exactly if its names are distinct and its parameters are in order: those
that are required, then those that are optional, then at most one that takes the rest.
-/

namespace ConsLisp.Parameter

/-! ## Order -/

/-- Parameters in order.  Once an optional one has been met, none is required. -/
inductive InOrder : Bool → List Parameter → Prop where
  | nil {metOptional : Bool} : InOrder metOptional []
  | required {parameter : Parameter} {parameters : List Parameter}
      (own : parameter.isRequired = true) (others : InOrder false parameters) :
      InOrder false (parameter :: parameters)
  | optional {metOptional : Bool} {parameter : Parameter} {parameters : List Parameter}
      (own : parameter.mode = .optional) (others : InOrder true parameters) :
      InOrder metOptional (parameter :: parameters)
  | rest {metOptional : Bool} {parameter : Parameter} (own : parameter.mode = .rest) :
      InOrder metOptional [parameter]

section

variable {metOptional : Bool} {parameter : Parameter} {parameters : List Parameter}

theorem isRequired_iff :
    parameter.isRequired = true ↔ parameter.mode = .normal ∨ parameter.mode = .plain := by
  simp [isRequired]

theorem inOrder_cons_of_required (own : parameter.isRequired = true) :
    InOrder metOptional (parameter :: parameters) ↔
      metOptional = false ∧ InOrder false parameters := by
  constructor
  · intro ordered
    cases ordered with
    | required _ others => exact ⟨rfl, others⟩
    | optional other => simp [isRequired, other] at own
    | rest other => simp [isRequired, other] at own
  · rintro ⟨rfl, others⟩
    exact .required own others

theorem inOrder_cons_of_optional (own : parameter.mode = .optional) :
    InOrder metOptional (parameter :: parameters) ↔ InOrder true parameters := by
  constructor
  · intro ordered
    cases ordered with
    | required other => simp [isRequired, own] at other
    | optional _ others => exact others
    | rest => exact .nil
  · exact .optional own

theorem inOrder_cons_of_rest (own : parameter.mode = .rest) :
    InOrder metOptional (parameter :: parameters) ↔ parameters = [] := by
  constructor
  · intro ordered
    cases ordered with
    | required other => simp [isRequired, own] at other
    | optional other => cases own.symm.trans other
    | rest => rfl
  · rintro rfl
    exact .rest own

end

theorem InOrder.tail {metOptional : Bool} {parameter : Parameter} {parameters : List Parameter}
    (ordered : InOrder metOptional (parameter :: parameters)) :
    ∃ later, InOrder later parameters := by
  cases ordered with
  | required _ others => exact ⟨false, others⟩
  | optional _ others => exact ⟨true, others⟩
  | rest => exact ⟨false, .nil⟩

theorem InOrder.append_required {required parameters : List Parameter}
    (each : ∀ parameter ∈ required, parameter.isRequired = true)
    (others : InOrder false parameters) : InOrder false (required ++ parameters) := by
  induction required with
  | nil => exact others
  | cons parameter required ih =>
      obtain ⟨own, later⟩ := List.forall_mem_cons.mp each
      exact .required own (ih later)

theorem InOrder.append_optional {metOptional : Bool} {optional parameters : List Parameter}
    (each : ∀ parameter ∈ optional, parameter.mode = .optional)
    (others : ∀ {metOptional}, InOrder metOptional parameters) :
    InOrder metOptional (optional ++ parameters) := by
  induction optional generalizing metOptional with
  | nil => exact others
  | cons parameter optional ih =>
      obtain ⟨own, later⟩ := List.forall_mem_cons.mp each
      exact .optional own (ih later)

/-! ## Names -/

/-- Distinct names, none of which has been seen. -/
def Fresh (seen : List String) (parameters : List Parameter) : Prop :=
  (parameters.map (·.name)).Nodup ∧ ∀ parameter ∈ parameters, parameter.name ∉ seen

theorem fresh_cons_iff {seen : List String} {parameter : Parameter} {parameters : List Parameter} :
    Fresh seen (parameter :: parameters) ↔
      parameter.name ∉ seen ∧ Fresh (parameter.name :: seen) parameters := by
  rw [Fresh, Fresh, List.forall_mem_cons, List.map_cons, List.nodup_cons]
  simp only [List.mem_map, List.mem_cons, not_or, not_exists, not_and]
  constructor
  · rintro ⟨⟨apart, distinct⟩, own, others⟩
    exact ⟨own, distinct, fun other member => ⟨apart other member, others other member⟩⟩
  · rintro ⟨own, distinct, others⟩
    exact ⟨⟨fun other member => (others other member).1, distinct⟩, own,
      fun other member => (others other member).2⟩

/-! ## Validity -/

theorem validAfter_iff {seen : List String} {metOptional : Bool} {parameters : List Parameter} :
    validAfter seen metOptional parameters = true ↔
      Fresh seen parameters ∧ InOrder metOptional parameters := by
  induction parameters generalizing seen metOptional with
  | nil => simp [validAfter, Fresh, InOrder.nil]
  | cons parameter parameters ih =>
      have unseen : (!seen.contains parameter.name) = true ↔ parameter.name ∉ seen := by simp
      rw [validAfter, Bool.and_eq_true, unseen, fresh_cons_iff, and_assoc]
      refine and_congr_right fun _ => ?_
      cases mode : parameter.mode with
      | normal =>
          rw [inOrder_cons_of_required (isRequired_iff.mpr (.inl mode)), Bool.and_eq_true, ih]
          cases metOptional <;> simp
      | plain =>
          rw [inOrder_cons_of_required (isRequired_iff.mpr (.inr mode)), Bool.and_eq_true, ih]
          cases metOptional <;> simp
      | optional => rw [inOrder_cons_of_optional mode, ih]
      | rest =>
          rw [inOrder_cons_of_rest mode, List.isEmpty_iff]
          constructor
          · rintro rfl
            simp [Fresh]
          · exact And.right

theorem isValid_eq_true_iff {parameters : List Parameter} :
    isValid parameters = true ↔ (parameters.map (·.name)).Nodup ∧ InOrder false parameters := by
  rw [isValid, validAfter_iff, Fresh]
  simp

end ConsLisp.Parameter
