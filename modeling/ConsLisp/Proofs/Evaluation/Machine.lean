import ConsLisp.Evaluation.Machine

/-!
# How computations run

What a computation does to a machine, in terms of what its parts do.
-/

namespace ConsLisp

/-- A machine with more frames inside its environment. -/
def Machine.under (top : List Frame) (machine : Machine) : Machine :=
  { machine with
    environment := ⟨top ++ machine.environment.locals, machine.environment.globals⟩ }

namespace Eval

variable {α β : Type}

theorem bind_run (action : Eval α) (next : α → Eval β) (machine : Machine) :
    (action >>= next) machine =
      match action machine with
      | (.ok value, after) => next value after
      | (.error cause, after) => (.error cause, after) := by
  simp only [bind, ExceptT.bind, ExceptT.mk, StateT.bind, ExceptT.bindCont]
  rcases action machine with ⟨_ | _, after⟩ <;> rfl

theorem ofExcept_bind_run (result : Except Error α) (next : α → Eval β)
    (machine : Machine) :
    (ofExcept result >>= next) machine =
      match result with
      | .ok value => next value machine
      | .error cause => (.error cause, machine) := by
  cases result <;> rfl

theorem mapM_cons_run (action : α → Eval β) (item : α) (items : List α)
    (machine : Machine) :
    (item :: items).mapM action machine =
      match action item machine with
      | (.ok value, after) =>
          match items.mapM action after with
          | (.ok values, final) => (.ok (value :: values), final)
          | (.error cause, final) => (.error cause, final)
      | (.error cause, after) => (.error cause, after) := by
  rw [List.mapM_cons, bind_run]
  rcases action item machine with ⟨_ | value, after⟩
  · rfl
  · simp only [bind_run]
    rcases items.mapM action after with ⟨_ | values, final⟩ <;> rfl

theorem inFrame_run (frame : Frame) (action : Eval α) (machine : Machine) :
    inFrame frame action machine =
      ((action (machine.under [frame])).1,
        { (action (machine.under [frame])).2 with
          environment := (action (machine.under [frame])).2.environment.pop }) := rfl

theorem inCaller_run (frame : Frame) (action : Eval α) (machine : Machine) :
    inCaller action (machine.under [frame]) =
      ((action machine).1, (action machine).2.under [frame]) := rfl

/-- The frame of a call hides everything else of the same name. -/
theorem argument_run {frame : Frame} {name : String} {value : Value}
    (found : frame.get? name = some value) (machine : Machine) :
    argument name (machine.under [frame]) = (.ok value, machine.under [frame]) := by
  have bound : (machine.under [frame]).environment.lookup? name = some value := by
    simp [Machine.under, Environment.lookup?, found]
  rw [argument, bind_run]
  simp only [lookup?, bound]
  rfl

end Eval

end ConsLisp
