import Mathlib.Data.List.TakeWhile
import ConsLisp.Proofs.Parameter

/-!
# The order of parameters

Validity is checked in one pass, with the names seen so far and a note whether an optional parameter
has been met.  It comes to a rule about the list as a whole: distinct names, and modes that fall
into a required part, an optional part and at most one parameter for the rest.  The required part is
what a call must supply forms for.
-/

namespace ConsLisp

/-- Modes in order: those of required parameters, then optional ones, then at most one for the
rest. -/
structure Mode.Ordered (modes required optional rest : List Mode) : Prop where
  all : modes = required ++ optional ++ rest
  required : ∀ mode ∈ required, mode = .normal ∨ mode = .plain
  optional : ∀ mode ∈ optional, mode = .optional
  rest : rest = [] ∨ rest = [.rest]

namespace Parameter

variable {parameters : List Parameter}

/-- Parameters in order fall into three parts, the first of which is empty once an optional one has
been met. -/
theorem InOrder.exists_ordered {metOptional : Bool} (ordered : InOrder metOptional parameters) :
    ∃ required optional rest,
      Mode.Ordered (parameters.map (·.mode)) required optional rest ∧
        (metOptional = true → required = []) := by
  induction ordered with
  | nil =>
      exact ⟨[], [], [], ⟨rfl, by simp, by simp, .inl rfl⟩, fun _ => rfl⟩
  | @required parameter parameters own others ih =>
      obtain ⟨required, optional, rest, ⟨all, each, eachOptional, last⟩, -⟩ := ih
      refine ⟨parameter.mode :: required, optional, rest, ⟨?_, ?_, eachOptional, last⟩, nofun⟩
      · rw [List.map_cons, all]
        rfl
      · exact List.forall_mem_cons.mpr ⟨isRequired_iff.mp own, each⟩
  | @optional metOptional parameter parameters own others ih =>
      obtain ⟨required, optional, rest, ⟨all, -, each, last⟩, none⟩ := ih
      obtain rfl := none rfl
      refine ⟨[], .optional :: optional, rest, ⟨?_, by simp, ?_, last⟩, fun _ => rfl⟩
      · rw [List.map_cons, all, own]
        rfl
      · exact List.forall_mem_cons.mpr ⟨rfl, each⟩
  | @rest metOptional parameter own =>
      refine ⟨[], [], [.rest], ⟨?_, by simp, by simp, .inr rfl⟩, fun _ => rfl⟩
      rw [List.map_cons, own]
      rfl

theorem inOrder_of_ordered {required optional rest : List Mode}
    (ordered : Mode.Ordered (parameters.map (·.mode)) required optional rest) :
    InOrder false parameters := by
  obtain ⟨all, eachRequired, eachOptional, last⟩ := ordered
  obtain ⟨front, behind, rfl, frontModes, rfl⟩ := List.map_eq_append_iff.mp all
  obtain ⟨first, second, rfl, rfl, rfl⟩ := List.map_eq_append_iff.mp frontModes
  have ended : ∀ {metOptional}, InOrder metOptional behind := by
    intro metOptional
    rcases last with none | one
    · rw [List.map_eq_nil_iff.mp none]
      exact .nil
    · obtain ⟨parameter, rfl, own⟩ := List.map_eq_singleton_iff.mp one
      exact .rest own
  rw [List.append_assoc]
  apply InOrder.append_required
  · intro parameter member
    exact isRequired_iff.mpr (eachRequired _ (List.mem_map_of_mem member))
  · apply InOrder.append_optional
    · intro parameter member
      exact eachOptional _ (List.mem_map_of_mem member)
    · exact ended

/-- The required parameters are those before the first one that is not required. -/
theorem InOrder.requiredCount_eq {metOptional : Bool} (ordered : InOrder metOptional parameters) :
    requiredCount parameters = (parameters.takeWhile isRequired).length := by
  induction ordered with
  | nil => rfl
  | required own others ih =>
      rw [requiredCount, List.countP_cons_of_pos own, List.takeWhile_cons_of_pos own,
        List.length_cons]
      exact congrArg (· + 1) ih
  | @optional _ parameter _ own others =>
      have notOwn : ¬ parameter.isRequired = true := by simp [isRequired, own]
      rw [requiredCount, List.countP_cons_of_neg notOwn, List.takeWhile_cons_of_neg notOwn]
      exact requiredCount_of_optional others
  | @rest _ parameter own =>
      have notOwn : ¬ parameter.isRequired = true := by simp [isRequired, own]
      rw [requiredCount, List.countP_cons_of_neg notOwn, List.takeWhile_cons_of_neg notOwn]
      rfl

theorem exists_getElem?_of_lt_takeWhile {index : Nat}
    (inside : index < (parameters.takeWhile isRequired).length) :
    ∃ parameter, parameters[index]? = some parameter ∧ parameter.isRequired = true := by
  obtain ⟨behind, whole⟩ := List.takeWhile_prefix isRequired (l := parameters)
  refine ⟨(parameters.takeWhile isRequired)[index], ?_, ?_⟩
  · calc
      parameters[index]? = (parameters.takeWhile isRequired ++ behind)[index]? := by rw [whole]
      _ = (parameters.takeWhile isRequired)[index]? := List.getElem?_append_left inside
      _ = some (parameters.takeWhile isRequired)[index] := List.getElem?_eq_getElem inside
  · exact List.mem_takeWhile_imp (List.getElem_mem inside)

/-- A parameter list is valid exactly if its names are distinct and its modes are in order: normal
and plain ones, then optional ones, then at most one for the rest.  In a valid list the parameters
that a call must supply forms for are the normal and plain ones in front, and there is one of these
at each index below their number. -/
theorem isValid_decides_order (parameters : List Parameter) :
    (isValid parameters = true ↔
      (parameters.map (·.name)).Nodup ∧
        ∃ required optional rest,
          Mode.Ordered (parameters.map (·.mode)) required optional rest) ∧
    (isValid parameters = true →
      requiredCount parameters = ((parameters.map (·.mode)).takeWhile
        fun mode => mode = .normal ∨ mode = .plain).length ∧
      ∀ index < requiredCount parameters, ∃ parameter,
        parameters[index]? = some parameter ∧
          (parameter.mode = .normal ∨ parameter.mode = .plain)) := by
  constructor
  · rw [isValid_eq_true_iff]
    refine and_congr_right fun _ => ⟨fun ordered => ?_, ?_⟩
    · obtain ⟨required, optional, rest, parts, -⟩ := ordered.exists_ordered
      exact ⟨required, optional, rest, parts⟩
    · rintro ⟨required, optional, rest, parts⟩
      exact inOrder_of_ordered parts
  · intro valid
    have count := (isValid_eq_true_iff.mp valid).2.requiredCount_eq
    constructor
    · have same : (fun mode : Mode => decide (mode = .normal ∨ mode = .plain)) ∘
          (·.mode) = isRequired := by
        funext parameter
        exact Bool.decide_or _ _
      rw [count, List.takeWhile_map, List.length_map, same]
    · intro index below
      rw [count] at below
      obtain ⟨parameter, found, own⟩ := exists_getElem?_of_lt_takeWhile below
      exact ⟨parameter, found, isRequired_iff.mp own⟩

/-- A list with parameters of all four modes. -/
theorem isValid_decides_order_all_modes :
    let parameters : List Parameter := [⟨.plain, "A", .nil⟩, ⟨.normal, "B", .nil⟩,
      ⟨.optional, "C", .integer 1⟩, ⟨.rest, "D", .nil⟩]
    isValid parameters = true ∧
      (∃ required optional rest,
        Mode.Ordered (parameters.map (·.mode)) required optional rest) ∧
      requiredCount parameters = 2 ∧
      ∃ parameter, parameters[1]? = some parameter ∧
        (parameter.mode = .normal ∨ parameter.mode = .plain) := by
  intro parameters
  have valid : isValid parameters = true := rfl
  obtain ⟨decides, inside⟩ := isValid_decides_order parameters
  obtain ⟨count, each⟩ := inside valid
  exact ⟨valid, (decides.mp valid).2, count, each 1 (by rw [count]; decide)⟩

end Parameter

end ConsLisp
