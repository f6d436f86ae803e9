import ConsLisp.Proofs.Evaluation.Invariant

/-!
# What evaluation leaves of an environment

The globals lose no name, the innermost frame loses only names that are then global, and all other
frames are as they were.  This holds from every environment and whether or not evaluation fails.
-/

namespace ConsLisp

theorem evaluate_evolves (limit : Nat) (form : Value) (machine : Machine) :
    machine.environment.Evolves ((evaluate limit form).run machine).2.environment :=
  ((evaluate_keeps Invariant.trivial limit True.intro).run machine.environment.all_trivial).2.1

/-- Evaluating a form, with or without success, loses no global name, takes from the innermost frame
only names that are then global, and changes no frame in between; so every name that could be
resolved still can be. -/
theorem evaluate_keeps_frames (limit : Nat) (form : Value) (machine : Machine) :
    let before := machine.environment
    let after := ((evaluate limit form).run machine).2.environment
    (∀ name, before.globals.binds name = true → after.globals.binds name = true) ∧
    (before.locals = [] → after.locals = []) ∧
    (∀ inner outer, before.locals = inner :: outer → ∃ left, after.locals = left :: outer ∧
      left.bindings.Sublist inner.bindings ∧
      (∀ name value, left.get? name = some value → inner.get? name = some value) ∧
      ∀ name, inner.binds name = true → left.binds name = false →
        after.globals.binds name = true) ∧
    ∀ name, before.contains name = true → after.contains name = true := by
  intro before after
  have evolves : before.Evolves after := evaluate_evolves limit form machine
  obtain ⟨lost, kept, global⟩ := evolves.locals
  refine ⟨evolves.globals, ?_, ?_, fun name => evolves.contains⟩
  · intro none
    rw [kept, none]
    rfl
  · intro inner outer frames
    refine ⟨inner.without lost, ?_, List.filter_sublist, fun name value => ?_, ?_⟩
    · rw [kept, frames]
      rfl
    · exact Frame.get?_of_get?_without
    · exact fun name bound gone =>
        global name (Frame.mem_of_binds_of_not_binds_without bound gone)

end ConsLisp
