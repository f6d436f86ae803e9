import ConsLisp.Proofs.Evaluation.Runtime
import ConsLisp.Proofs.Parameter.Validity

/-!
# Parameter lists

What an accepted parameter list holds, and how validity bounds the forms a call must supply: no
parameter is required after an optional one, and only the last one takes the rest.
-/

namespace ConsLisp

namespace Parameter

/-- Parameters that may follow others in a valid list. -/
def IsTail (parameters : List Parameter) : Prop :=
  ∃ seen metOptional, validAfter seen metOptional parameters = true

theorem isTail_of_isValid {parameters : List Parameter} (sound : isValid parameters = true) :
    IsTail parameters :=
  ⟨[], false, sound⟩

theorem requiredCount_of_optional {parameters : List Parameter} (ordered : InOrder true parameters) :
    requiredCount parameters = 0 := by
  induction parameters with
  | nil => rfl
  | cons parameter parameters ih =>
      cases ordered with
      | optional own others =>
          simpa [requiredCount, isRequired, own] using ih others
      | rest own => simp [requiredCount, isRequired, own]

theorem IsTail.of_rest {parameter : Parameter} {parameters : List Parameter}
    (sound : IsTail (parameter :: parameters)) (rest : parameter.mode = .rest) :
    parameters = [] := by
  obtain ⟨seen, metOptional, valid⟩ := sound
  exact (inOrder_cons_of_rest rest).mp (validAfter_iff.mp valid).2

theorem IsTail.tail {parameter : Parameter} {parameters : List Parameter}
    (sound : IsTail (parameter :: parameters)) : IsTail parameters := by
  obtain ⟨seen, metOptional, valid⟩ := sound
  obtain ⟨fresh, ordered⟩ := validAfter_iff.mp valid
  obtain ⟨later, others⟩ := ordered.tail
  exact ⟨_, later, validAfter_iff.mpr ⟨(fresh_cons_iff.mp fresh).2, others⟩⟩

/-- After an optional parameter none is required. -/
theorem IsTail.requiredCount_le {parameter : Parameter} {parameters : List Parameter}
    (sound : IsTail (parameter :: parameters)) {supplied : Nat}
    (enough : requiredCount (parameter :: parameters) ≤ supplied) :
    requiredCount parameters ≤ supplied - 1 := by
  obtain ⟨seen, metOptional, valid⟩ := sound
  cases (validAfter_iff.mp valid).2 with
  | required own others =>
      rw [requiredCount, List.countP_cons, if_pos own] at enough
      exact Nat.le_sub_of_add_le enough
  | optional own others =>
      rw [requiredCount_of_optional others]
      exact Nat.zero_le _
  | rest own => exact Nat.zero_le _

theorem requiredCount_le_of_checkCount {parameters : List Parameter} {supplied : Nat}
    (checked : checkCount parameters supplied = .ok ()) : requiredCount parameters ≤ supplied := by
  simp only [checkCount] at checked
  split at checked
  · cases checked
  · omega

/-! ## What a parameter list holds -/

/-- A default is a part of an entry of the parameter list, or NIL. -/
def IsDefault (entry : Value) (literal : Value) : Prop :=
  literal = .nil ∨ ∃ items terminator, entry = .list items terminator ∧
    literal ∈ Value.elements items terminator

theorem isDefault_of_optionalOf {limit : Nat} {entry : Value} {parameter : Parameter}
    (found : optionalOf limit entry = .ok parameter) : IsDefault entry parameter.default := by
  unfold optionalOf at found
  split at found
  · cases found
    exact .inl rfl
  next items terminator =>
      split at found
      next name same =>
          obtain ⟨_, _, rest⟩ := Result.bind_eq_ok_iff.mp found
          cases rest
          exact .inl rfl
      next name literal same =>
          obtain ⟨_, _, rest⟩ := Result.bind_eq_ok_iff.mp found
          cases rest
          exact .inr ⟨items, terminator, rfl, same ▸ by simp⟩
      next => exact absurd found (Value.refuse_ne_ok limit _ _ parameter)
  · exact absurd found (Value.refuse_ne_ok limit _ entry parameter)

theorem isDefault_of_ofEntry {limit : Nat} {pending : Option Mode} {amongOptional : Bool}
    {entry : Value} {parameter : Parameter}
    (found : ofEntry limit pending amongOptional entry = .ok parameter) :
    IsDefault entry parameter.default := by
  unfold ofEntry at found
  split at found
  · obtain ⟨_, _, rest⟩ := Result.bind_eq_ok_iff.mp found
    cases rest
    exact .inl rfl
  · split at found
    · exact isDefault_of_optionalOf found
    · obtain ⟨_, _, rest⟩ := Result.bind_eq_ok_iff.mp found
      cases rest
      exact .inl rfl

theorem isDefault_of_ofEntries {limit : Nat} {form : Value} {pending : Option Mode}
    {amongOptional : Bool} {entries : List Value} {parameters : List Parameter}
    (found : ofEntries limit form pending amongOptional entries = .ok parameters) :
    ∀ parameter ∈ parameters, ∃ entry ∈ entries, IsDefault entry parameter.default := by
  fun_induction ofEntries limit form pending amongOptional entries generalizing parameters with
  | case1 =>
      cases found
      exact fun _ member => by cases member
  | case2 => exact absurd found (Value.refuse_ne_ok limit _ form parameters)
  | case3 => exact absurd found (Value.refuse_ne_ok limit _ form parameters)
  | case4 _ entry _ _ ih =>
      intro parameter member
      obtain ⟨inner, later, held⟩ := ih found parameter member
      exact ⟨inner, List.mem_cons_of_mem entry later, held⟩
  | case5 _ entry _ _ _ _ ih =>
      intro parameter member
      obtain ⟨inner, later, held⟩ := ih found parameter member
      exact ⟨inner, List.mem_cons_of_mem entry later, held⟩
  | case6 amongOptional entry entries pending _ ih =>
      obtain ⟨first, own, composed⟩ := Result.bind_eq_ok_iff.mp found
      obtain ⟨others, rest, same⟩ := Result.bind_eq_ok_iff.mp composed
      cases same
      rintro parameter (_ | ⟨_, member⟩)
      · exact ⟨entry, List.mem_cons_self, isDefault_of_ofEntry own⟩
      · obtain ⟨inner, later, held⟩ := ih rest parameter member
        exact ⟨inner, List.mem_cons_of_mem entry later, held⟩

/-- An accepted parameter list is valid, and its defaults are NIL or literals from its entries. -/
theorem ofForm_eq_ok {limit : Nat} {form : Value} {parameters : List Parameter}
    (found : ofForm limit form = .ok parameters) :
    isValid parameters = true ∧
      ∀ parameter ∈ parameters, ∃ items terminator, form = .list items terminator ∧
        ∃ entry ∈ Value.elements items terminator, IsDefault entry parameter.default := by
  unfold ofForm at found
  split at found
  · cases found
    exact ⟨rfl, fun _ member => by cases member⟩
  next items terminator =>
      obtain ⟨read, entries, checked⟩ := Result.bind_eq_ok_iff.mp found
      split at checked
      next valid =>
          cases checked
          exact ⟨valid, fun parameter member =>
            ⟨items, terminator, rfl, isDefault_of_ofEntries entries parameter member⟩⟩
      next => exact absurd checked (Value.refuse_ne_ok limit _ _ parameters)
  · exact absurd found (Value.refuse_ne_ok limit _ form parameters)

end Parameter

theorem Builtin.isValid_parameters (operation : Builtin) :
    Parameter.isValid operation.parameters = true := by
  cases operation <;> rfl

theorem Builtin.eq_terpri (operation : Builtin) (none : operation.parameters.isEmpty = true) :
    operation = .terpri := by
  revert none
  cases operation <;> decide

end ConsLisp
