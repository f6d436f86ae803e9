import ConsLisp.Evaluation
import ConsLisp.Proofs.Evaluation.Builtins

/-!
# Runs agree on evaluation

A call that passes the check of its argument count has a form for each required parameter, and
binds every parameter of a valid list.  So builtins find their arguments.  If runs agree on engines,
then they agree on the engines that use these a level further down.
-/

namespace ConsLisp

namespace Engine

/-- What binding parameters makes of a frame. -/
structure Bound (valid : Value → Prop) (frame : Frame) (parameters : List Parameter)
    (forms : List Value) (bound : Frame) : Prop where
  all : bound.All valid
  kept : ∀ name, frame.binds name = true → bound.binds name = true
  given : Parameter.IsTail parameters →
    ∀ parameter ∈ parameters, bound.binds parameter.name = true
  listed : Parameter.IsTail parameters → ∀ before {parameter : Parameter},
    parameters = before ++ [parameter] → parameter.mode = .rest →
      bound.get? parameter.name = some (.ofItems (forms.drop before.length) .nil)

theorem Bound.cons {valid : Value → Prop} {frame bound : Frame} {parameter : Parameter}
    {parameters : List Parameter} {forms : List Value} {value : Value}
    (others : Bound valid (frame.insert parameter.name value) parameters (forms.drop 1) bound)
    (notRest : parameter.mode ≠ .rest) :
    Bound valid frame (parameter :: parameters) forms bound := by
  refine ⟨others.all, ?_, ?_, ?_⟩
  · exact fun name own => others.kept name (Frame.binds_insert own _ value)
  · rintro sound other (_ | ⟨_, member⟩)
    · exact others.kept _ (Frame.binds_insert_self frame _ value)
    · exact others.given sound.tail other member
  · rintro sound (_ | ⟨first, before⟩) other split rest
    · cases split
      exact absurd rest notRest
    · injection split with _ later
      rw [others.listed sound.tail before later rest, List.drop_drop, List.length_cons,
        Nat.add_comm]

/-- A parameter for the rest of the forms takes them all. -/
theorem bound_rest {valid : Value → Prop} {frame : Frame} (own : frame.All valid)
    {parameter : Parameter} {parameters : List Parameter} (rest : parameter.mode = .rest)
    {forms : List Value} (holds : valid (.ofItems forms .nil)) :
    Bound valid frame (parameter :: parameters) forms
      (frame.insert parameter.name (.ofItems forms .nil)) := by
  refine ⟨own.insert _ holds, ?_, ?_, ?_⟩
  · exact fun name bound => Frame.binds_insert bound _ _
  · intro sound other member
    rw [sound.of_rest rest, List.mem_singleton] at member
    rw [member]
    exact Frame.binds_insert_self frame _ _
  · rintro sound (_ | ⟨first, before⟩) other split _
    · cases split
      exact Frame.get?_insert_self frame _ _
    · rw [sound.of_rest rest] at split
      simp at split

/-- There is a form for each required parameter, unless running out of them is allowed. -/
def Enough (allowed : Error → Prop) (parameters : List Parameter) (supplied : Nat) : Prop :=
  (Parameter.IsTail parameters ∧ Parameter.requiredCount parameters ≤ supplied) ∨
    allowed (.argument .missingForm)

theorem Enough.tail {allowed : Error → Prop} {parameter : Parameter}
    {parameters : List Parameter} {supplied : Nat}
    (enough : Enough allowed (parameter :: parameters) supplied) :
    Enough allowed parameters (supplied - 1) :=
  enough.imp_left fun ⟨sound, count⟩ => ⟨sound.tail, sound.requiredCount_le count⟩

theorem Enough.missingForm {allowed : Error → Prop} {parameter : Parameter}
    {parameters : List Parameter} (enough : Enough allowed (parameter :: parameters) 0)
    (required : parameter.isRequired = true) : allowed (.argument .missingForm) := by
  rcases enough with ⟨_, count⟩ | allowed
  · simp [Parameter.requiredCount, required] at count
  · exact allowed

variable {ι : Type} {runs : Runs ι} {reach : Reach runs.valid} {level : Nat} {engine : ι → Engine}

theorem bind_agree (agree : Agree runs reach level engine) {frame : Frame}
    {parameters : List Parameter} {forms : List Value} (own : frame.All runs.valid)
    (each : ∀ form ∈ forms, runs.valid form) (within : ∀ form ∈ forms, reach.forms level form)
    (defaults : ∀ parameter ∈ parameters, runs.valid parameter.default)
    (enough : Enough runs.allowed parameters forms.length) :
    runs.Agree [] (fun run => (engine run).bind frame parameters forms)
      (Bound runs.valid frame parameters forms) := by
  -- The frame and the forms left over change with every parameter, so both are general.
  induction parameters generalizing frame forms with
  | nil =>
      refine .pure ⟨own, fun _ bound => bound, ?_, ?_⟩
      · exact fun _ _ member => by cases member
      · exact fun _ before _ split => absurd split.symm (List.append_ne_nil_of_right_ne_nil _ nofun)
  | cons parameter parameters ih =>
      have later : ∀ {value : Value}, runs.valid value → parameter.mode ≠ .rest →
          runs.Agree [] (fun run => (engine run).bind (frame.insert parameter.name value) parameters
            (forms.drop 1)) (Bound runs.valid frame (parameter :: parameters) forms) := by
        intro value holds notRest
        refine (ih (own.insert _ holds) (fun form member => each form (List.mem_of_mem_drop member))
          (fun form member => within form (List.mem_of_mem_drop member)) ?_ ?_).mono
          fun _ bound => bound.cons notRest
        · exact fun other member => defaults other (List.mem_cons_of_mem parameter member)
        · rw [List.length_drop]
          exact enough.tail
      cases mode : parameter.mode with
      | rest =>
          simp only [bind, mode]
          exact .pure (bound_rest own mode (runs.ofItems each runs.nil))
      | normal =>
          cases forms with
          | nil =>
              simp only [bind, mode]
              exact .fail (enough.missingForm (by simp [Parameter.isRequired, mode]))
          | cons form forms =>
              simp only [bind, mode]
              refine (agree.evaluate (each form List.mem_cons_self)
                (within form List.mem_cons_self)).bind fun value holds => ?_
              exact later holds (by simp [mode])
      | plain =>
          cases forms with
          | nil =>
              simp only [bind, mode]
              exact .fail (enough.missingForm (by simp [Parameter.isRequired, mode]))
          | cons form forms =>
              simp only [bind, mode]
              exact later (each form List.mem_cons_self) (by simp [mode])
      | optional =>
          cases forms with
          | nil =>
              simp only [bind, mode]
              exact later (defaults parameter List.mem_cons_self) (by simp [mode])
          | cons form forms =>
              simp only [bind, mode]
              exact later (each form List.mem_cons_self) (by simp [mode])

/-! ## Applying -/

theorem argumentForms_agree {function : Callable} {arguments : Value}
    (callee : runs.valid (.callable function)) (own : runs.valid arguments) :
    runs.Agree [] (fun run => Eval.ofExcept (argumentForms (runs.limit run) function arguments))
      fun forms => forms = arguments.asForms ∧ ∀ form ∈ forms, runs.valid form := by
  have refused : runs.Settles (fun run => do
      let shownFunction ← Value.shown (runs.limit run) (.callable function)
      let shownArguments ← arguments.shown (runs.limit run)
      throw (.evaluation (.illegalCall shownFunction shownArguments))) fun forms =>
        forms = arguments.asForms ∧ ∀ form ∈ forms, runs.valid form :=
    (runs.shown callee).bind fun _ _ => (runs.shown own).bind fun _ _ =>
      .const (runs.runtime rfl nofun)
  cases arguments with
  | nil => exact .ofExcept (.const ⟨rfl, fun _ member => by cases member⟩)
  | list items terminator => exact .ofExcept (.const ⟨rfl, runs.elements own⟩)
  | _ => exact .ofExcept refused

theorem checkCount_agree (parameters : List Parameter) (supplied : Nat) :
    runs.Agree [] (fun _ => Eval.ofExcept (Parameter.checkCount parameters supplied)) fun _ =>
      Parameter.requiredCount parameters ≤ supplied := by
  have refused : ∀ expected, runs.allowed (.evaluation (.argumentCount expected supplied)) :=
    fun _ => runs.runtime rfl (by rintro ⟨_, ⟨⟩⟩)
  refine .ofExcept (.const ?_)
  cases checked : Parameter.checkCount parameters supplied with
  | ok done => exact Parameter.requiredCount_le_of_checkCount checked
  | error cause =>
      simp only [Parameter.checkCount] at checked
      split at checked
      · cases checked
        exact refused _
      · split at checked
        · cases checked
          exact refused _
        · cases checked

/-- The frame that binding makes for a builtin is that of a call. -/
theorem Bound.called {operation : Builtin} {forms : List Value} {bound : Frame}
    (frame : Bound runs.valid .empty operation.parameters forms bound)
    (count : Parameter.requiredCount operation.parameters ≤ forms.length)
    (each : ∀ form ∈ forms, runs.valid form) : Builtin.Called runs operation forms bound := by
  have sound := Parameter.isTail_of_isValid operation.isValid_parameters
  refine ⟨count, each, ?_, ?_⟩
  · intro name member
    obtain ⟨⟨mode, _⟩, inside, rfl⟩ := List.mem_map.mp member
    have named : (⟨mode, _, .nil⟩ : Parameter) ∈ operation.parameters :=
      List.mem_map.mpr ⟨_, inside, rfl⟩
    obtain ⟨value, found⟩ := Option.isSome_iff_exists.mp (frame.given sound _ named)
    exact ⟨value, found, frame.all.get? found⟩
  · intro before name split
    have last := frame.listed sound (before.map fun entry => ⟨entry.1, entry.2, .nil⟩)
      (by rw [Builtin.parameters, split, List.map_append]; rfl) rfl
    rwa [List.length_map] at last

theorem applyCallable_agree (agree : Agree runs reach level engine) {function : Callable}
    {arguments : Value} (callee : runs.valid (.callable function)) (own : runs.valid arguments)
    (within : reach.calls (level + 1) arguments.asForms) :
    runs.Agree [] (fun run => (engine run).applyCallable (runs.limit run) function arguments)
      runs.valid := by
  refine (argumentForms_agree callee own).bind ?_
  rintro _ ⟨rfl, each⟩
  generalize arguments.asForms = forms at within each ⊢
  refine (checkCount_agree function.parameters forms.length).bind fun _ count => ?_
  have near := reach.argument within
  cases function with
  | lambda name parameters body =>
      have inside := agree.evaluate (runs.body callee) (reach.body callee)
      have enough : Enough runs.allowed parameters forms.length :=
        (runs.parameters callee).imp_left fun sound =>
          ⟨Parameter.isTail_of_isValid sound, count⟩
      split
      · exact inside
      · exact (bind_agree agree .empty each near (runs.default callee) enough).bind
          fun _ frame => inside.inOwnFrame frame.all
  | builtin operation =>
      have enough : Enough runs.allowed operation.parameters forms.length :=
        .inl ⟨Parameter.isTail_of_isValid operation.isValid_parameters, count⟩
      have defaults : ∀ parameter ∈ operation.parameters, runs.valid parameter.default := by
        intro parameter member
        obtain ⟨_, _, rfl⟩ := List.mem_map.mp member
        exact runs.nil
      split
      -- Without parameters there is no frame of the call, and the caller's own is on top.
      next none =>
          obtain rfl := operation.eq_terpri none
          exact (Runs.Agree.write "\n").bind fun _ _ => .pure runs.nil
      next =>
          exact (bind_agree agree .empty each near defaults enough).bind fun _ frame =>
            (Builtin.run_agree agree callee (frame.called count each) within).inFrame

/-! ## Evaluating -/

theorem sequence_agree (agree : Agree runs reach level engine) {value : Value}
    {forms : List Value} (own : runs.valid value) (each : ∀ form ∈ forms, runs.valid form)
    (within : ∀ form ∈ forms, reach.forms level form) :
    runs.Agree [] (fun run => (engine run).sequence value forms) runs.valid := by
  induction forms generalizing value with
  | nil => exact .pure own
  | cons form forms ih =>
      obtain ⟨first, others⟩ := List.forall_mem_cons.mp each
      obtain ⟨near, far⟩ := List.forall_mem_cons.mp within
      exact (agree.evaluate first near).bind fun result holds => ih holds others far

theorem evaluateList_agree (agree : Agree runs reach level engine) {items : List Value}
    {terminator : Value} (own : runs.valid (.list items terminator))
    (within : reach.forms (level + 1) (.list items terminator)) :
    runs.Agree [] (fun run => (engine run).evaluateList items terminator) runs.valid := by
  have parts := runs.unpack own
  have head := reach.head within
  have tail := reach.tail within
  have sequence := reach.sequence within
  have call := reach.call within
  unfold evaluateList
  split
  · exact .pure runs.nil
  · generalize Value.unpack items terminator = parted at parts head tail sequence call ⊢
    obtain ⟨first, rest⟩ := parted
    refine (agree.evaluate parts.1 head).bind fun result holds => ?_
    split
    · exact .pure holds
    · split
      · exact agree.apply holds parts.2 call
      · exact sequence_agree agree runs.nil (runs.elements parts.2) sequence
      · exact agree.evaluate parts.2 tail

theorem evaluateForm_agree (agree : Agree runs reach level engine) {form : Value}
    (own : runs.valid form) (within : reach.forms (level + 1) form) :
    runs.Agree [] (fun run => (engine run).evaluateForm form) runs.valid := by
  cases form with
  | symbol name =>
      refine (Runs.Agree.lookup? own).bind fun found holds => ?_
      cases found with
      | none => exact .fail (runs.runtime rfl nofun)
      | some value => exact .pure (holds value rfl)
  | quoted value => exact .pure (runs.quoted own)
  | list items terminator => exact evaluateList_agree agree own within
  | _ => exact .pure own

/-! ## Levels -/

/-- The rules of evaluation on top of each other, the lowest ones on top of an engine. -/
def raised (limit : Nat) (beneath : Engine) : Nat → Engine
  | 0 => beneath
  | levels + 1 =>
      { evaluate := fun form => (raised limit beneath levels).evaluateForm form
        apply := fun function arguments =>
          (raised limit beneath levels).applyCallable limit function arguments }

theorem raised_withBudget (limit budget levels : Nat) :
    raised limit (withBudget limit budget) levels = withBudget limit (budget + levels) := by
  induction levels with
  | zero => rfl
  | succ levels ih => rw [raised, ih, ← Nat.add_assoc, withBudget]

theorem raised_agree {beneath : ι → Engine} (agree : Agree runs reach 0 beneath) (levels : Nat) :
    Agree runs reach levels fun run => raised (runs.limit run) (beneath run) levels := by
  induction levels with
  | zero => exact agree
  | succ levels ih => exact ⟨evaluateForm_agree ih, applyCallable_agree ih⟩

/-- Runs within the same budget agree, since they use it up at the same point. -/
theorem withBudget_agree (spent : runs.allowed (.tooDeep .evaluating)) (budget : Nat) :
    Agree runs (Reach.all runs.valid) budget fun run => withBudget (runs.limit run) budget := by
  have start : Agree runs (Reach.all runs.valid) 0 fun run => withBudget (runs.limit run) 0 :=
    ⟨fun _ _ => .fail spent, fun _ _ _ => .fail spent⟩
  have raised := raised_agree start budget
  simp only [raised_withBudget, Nat.zero_add] at raised
  exact raised

end Engine

end ConsLisp
