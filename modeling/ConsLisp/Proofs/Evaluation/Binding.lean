import Mathlib.Data.List.Nodup
import ConsLisp.Evaluation
import ConsLisp.Proofs.Environment.Events
import ConsLisp.Proofs.Evaluation.Machine
import ConsLisp.Proofs.Parameter

/-!
# Binding arguments

A call first compares the number of its argument forms with its parameters, before anything is
evaluated.  Once that is settled no parameter lacks a form it requires, only the forms of normal
parameters are evaluated, in order and where the call was made, and every form reaches exactly one
parameter.
-/

namespace ConsLisp

namespace Parameter

/-! ## Names and shares -/

theorem nodup_of_isValid {parameters : List Parameter} (sound : isValid parameters) :
    (parameters.map (·.name)).Nodup :=
  (isValid_eq_true_iff.mp sound).1

/-- The forms of a call that reach the parameter at an index. -/
def share (forms : List Value) (index : Nat) (parameter : Parameter) : List Value :=
  if parameter.isRest then forms.drop index else (forms.drop index).take 1

theorem share_succ (forms : List Value) (index : Nat) :
    share forms (index + 1) = share forms.tail index := by
  funext parameter
  rw [share, share, List.drop_tail]

/-- Where there are not too many forms, each of them reaches one parameter. -/
theorem flatten_share {parameters : List Parameter} (sound : IsTail parameters) {forms : List Value}
    (room : hasRest parameters = true ∨ forms.length ≤ parameters.length) :
    (parameters.mapIdx (share forms)).flatten = forms := by
  induction parameters generalizing forms with
  | nil =>
      have none : forms = [] := by simpa [hasRest] using room
      rw [none]
      rfl
  | cons parameter parameters ih =>
      rw [List.mapIdx_cons, List.flatten_cons]
      simp only [share_succ]
      by_cases rest : parameter.mode = .rest
      · rw [sound.of_rest rest]
        simp [share, isRest, rest]
      · have later : hasRest parameters = true ∨ forms.tail.length ≤ parameters.length := by
          rcases room with some | few
          · left
            simpa [hasRest, isRest, rest] using some
          · right
            simpa using few
        rw [ih sound.tail later]
        simp [share, isRest, rest, ← List.drop_one]

/-- What a parameter is bound to, by the forms that reach it and the value of the form at its
place. -/
def received (parameter : Parameter) (share : List Value) (value : Option Value) : Option Value :=
  match parameter.mode with
  | .normal => value
  | .plain => share.head?
  | .optional => some (share.head?.getD parameter.default)
  | .rest => some (.ofItems share .nil)

/-! ## The number of forms -/

/-- Neither too few forms nor too many. -/
def Fits (parameters : List Parameter) (supplied : Nat) : Prop :=
  requiredCount parameters ≤ supplied ∧
    (parameters ≠ [] → hasRest parameters = false → supplied ≤ parameters.length)

theorem checkCount_of_few {parameters : List Parameter} {supplied : Nat}
    (few : supplied < requiredCount parameters) :
    checkCount parameters supplied =
      .error (.evaluation (.argumentCount (requiredCount parameters) supplied)) :=
  if_pos few

theorem checkCount_of_many {parameters : List Parameter} {supplied : Nat}
    (some : parameters ≠ []) (restless : hasRest parameters = false)
    (many : parameters.length < supplied) :
    checkCount parameters supplied =
      .error (.evaluation (.argumentCount parameters.length supplied)) := by
  have enough : ¬ supplied < requiredCount parameters :=
    Nat.not_lt.mpr (Nat.le_trans List.countP_le_length (Nat.le_of_lt many))
  rw [checkCount, if_neg enough, if_pos (by simp [some, restless, many])]
  rfl

theorem checkCount_of_fits {parameters : List Parameter} {supplied : Nat}
    (fits : Fits parameters supplied) : checkCount parameters supplied = .ok () := by
  obtain ⟨enough, room⟩ := fits
  rw [checkCount, if_neg (Nat.not_lt.mpr enough), if_neg]
  · rfl
  · simp only [Bool.and_eq_true, Bool.not_eq_true', List.isEmpty_eq_false_iff, decide_eq_true_eq]
    rintro ⟨⟨some, restless⟩, many⟩
    exact absurd (room some restless) (Nat.not_le.mpr many)

end Parameter

open Parameter

/-! ## Frames of calls -/

/-- A frame that came from another one by binding each parameter to what it receives. -/
structure Frame.BindsEach (frame : Frame) (parameters : List Parameter) (forms values : List Value)
    (result : Frame) : Prop where
  names : result.names = frame.names ++ parameters.map (·.name)
  kept : ∀ name ∈ frame.names, result.get? name = frame.get? name
  each : ∀ (index : Nat) (parameter : Parameter), parameters[index]? = some parameter →
    ∃ value, parameter.received (parameter.share forms index) values[index]? = some value ∧
      result.get? parameter.name = some value

namespace Frame.BindsEach

variable {frame result : Frame} {parameters : List Parameter} {forms values : List Value}

theorem nil : BindsEach frame [] forms values frame where
  names := by simp
  kept _ _ := rfl
  each _ _ := by simp

theorem cons {parameter : Parameter} {value : Value} (fresh : parameter.name ∉ frame.names)
    (own : parameter.received (parameter.share forms 0) values[0]? = some value)
    (later : (frame.insert parameter.name value).BindsEach parameters forms.tail values.tail
      result) :
    BindsEach frame (parameter :: parameters) forms values result where
  names := by
    rw [later.names, names_insert_of_not_mem fresh, List.append_assoc]
    rfl
  kept name bound := by
    have apart : name ≠ parameter.name := by
      rintro rfl
      exact fresh bound
    rw [later.kept name (by simp [names_insert_of_not_mem fresh, bound]),
      get?_insert_of_ne frame apart]
  each index other found := by
    cases index with
    | zero =>
        cases found
        refine ⟨value, own, ?_⟩
        rw [later.kept _ (by simp [names_insert_of_not_mem fresh]), get?_insert_self]
    | succ index =>
        rw [share_succ, ← List.getElem?_tail]
        exact later.each index other found

end Frame.BindsEach

namespace Engine

/-- What becomes of a form on its way to a parameter: only for a normal one it is evaluated. -/
def receive (engine : Engine) (matched : Parameter × Value) : Eval Value :=
  if matched.1.mode = .normal then engine.evaluate matched.2 else return matched.2

/-- A form reaches a parameter that does not take the rest. -/
theorem bind_cons (engine : Engine) (frame : Frame) {parameter : Parameter}
    (single : parameter.mode ≠ .rest) (parameters : List Parameter) (form : Value)
    (forms : List Value) :
    engine.bind frame (parameter :: parameters) (form :: forms) =
      engine.receive (parameter, form) >>= fun value =>
        engine.bind (frame.insert parameter.name value) parameters forms := by
  cases mode : parameter.mode with
  | normal => simp only [bind, receive, mode, if_true]
  | plain => simp [bind, receive, mode]
  | optional => simp [bind, receive, mode]
  | rest => exact absurd mode single

theorem received_of_receive {engine : Engine} {parameter : Parameter}
    (single : parameter.mode ≠ .rest) {form value : Value} {machine after : Machine}
    (reached : engine.receive (parameter, form) machine = (.ok value, after)) :
    parameter.received [form] (some value) = some value := by
  unfold receive at reached
  unfold received
  cases mode : parameter.mode with
  | normal => rfl
  | plain =>
      rw [if_neg (by simp [mode])] at reached
      cases reached
      rfl
  | optional =>
      rw [if_neg (by simp [mode])] at reached
      cases reached
      rfl
  | rest => exact absurd mode single

theorem optional_of_requiredCount_eq_zero {parameter : Parameter} {parameters : List Parameter}
    (none : requiredCount (parameter :: parameters) ≤ 0) (single : parameter.mode ≠ .rest) :
    parameter.mode = .optional := by
  cases mode : parameter.mode with
  | optional => rfl
  | rest => exact absurd mode single
  | _ => simp [requiredCount, isRequired, mode] at none

theorem receive_rest (engine : Engine) {parameter : Parameter} (rest : parameter.mode = .rest)
    (forms : List Value) (machine : Machine) :
    ∃ values, ([parameter].zip forms).mapM engine.receive machine = (.ok values, machine) := by
  cases forms with
  | nil => exact ⟨[], rfl⟩
  | cons form forms =>
      have kept : engine.receive (parameter, form) = pure form := by simp [receive, rest]
      rw [List.zip_cons_cons, Eval.mapM_cons_run, kept]
      exact ⟨[form], rfl⟩

/-- Binding evaluates the forms of normal parameters in order and fails only where one of them
does. -/
theorem bind_run {parameters : List Parameter} (sound : IsTail parameters) {forms : List Value}
    (enough : requiredCount parameters ≤ forms.length) {frame : Frame}
    (apart : (frame.names ++ parameters.map (·.name)).Nodup) (engine : Engine) (machine : Machine) :
    match (parameters.zip forms).mapM engine.receive machine with
    | (.ok values, after) =>
        ∃ result, engine.bind frame parameters forms machine = (.ok result, after) ∧
          frame.BindsEach parameters forms values result
    | (.error cause, after) =>
        engine.bind frame parameters forms machine = (.error cause, after) := by
  induction parameters generalizing forms frame machine with
  | nil => exact ⟨frame, rfl, .nil⟩
  | cons parameter parameters ih =>
      have fresh : parameter.name ∉ frame.names := fun bound =>
        (List.nodup_append.mp apart).2.2 _ bound _ List.mem_cons_self rfl
      have later (value : Value) :
          ((frame.insert parameter.name value).names ++ parameters.map (·.name)).Nodup := by
        rwa [Frame.names_insert_of_not_mem fresh, List.append_assoc]
      by_cases rest : parameter.mode = .rest
      · obtain rfl := sound.of_rest rest
        obtain ⟨values, found⟩ := receive_rest engine rest forms machine
        rw [found]
        refine ⟨_, by simp only [bind, rest]; rfl, .cons fresh ?_ .nil⟩
        simp [received, share, isRest, rest]
      · cases forms with
        | nil =>
            -- Forms run out at an optional parameter, after which none is required.
            have optional := optional_of_requiredCount_eq_zero enough rest
            have none : requiredCount parameters ≤ ([] : List Value).length :=
              sound.requiredCount_le enough
            have given := ih sound.tail none (later parameter.default) machine
            rw [List.zip_nil_right] at given ⊢
            obtain ⟨result, ran, binds⟩ := given
            refine ⟨result, ?_, .cons fresh (by simp [received, share, optional]) binds⟩
            simpa only [bind, optional] using ran
        | cons form forms =>
            rw [List.zip_cons_cons, Eval.mapM_cons_run, bind_cons engine frame rest, Eval.bind_run]
            rcases reached : engine.receive (parameter, form) machine with ⟨_ | value, after⟩
            · rfl
            · have given := ih sound.tail (sound.requiredCount_le enough) (later value) after
              have own := received_of_receive rest reached
              simp only
              rcases others : (parameters.zip forms).mapM engine.receive after with
                ⟨_ | values, final⟩ <;> rw [others] at given
              · exact given
              · obtain ⟨result, ran, binds⟩ := given
                exact ⟨result, ran, .cons fresh (by simpa [share, isRest, rest] using own) binds⟩

theorem applyCallable_run (limit : Nat) (engine : Engine) (function : Callable) {arguments : Value}
    {forms : List Value} (given : argumentForms limit function arguments = .ok forms)
    (machine : Machine) :
    engine.applyCallable limit function arguments machine =
      match checkCount function.parameters forms.length with
      | .error cause => (.error cause, machine)
      | .ok _ =>
          if function.parameters.isEmpty then engine.runBody limit function machine
          else
            (engine.bind .empty function.parameters forms >>= fun frame =>
              Eval.inFrame frame (engine.runBody limit function)) machine := by
  rw [applyCallable, given, Eval.ofExcept_bind_run]
  simp only [Eval.ofExcept_bind_run]
  cases checkCount function.parameters forms.length with
  | error cause => rfl
  | ok _ =>
      simp only
      split <;> rfl

/-- A call with too few forms, or with too many for parameters without rest, fails before it
evaluates anything.  Any other call evaluates the forms of its normal parameters in order and fails
only where one of them does; then it runs in a frame that binds each parameter once, to what it
receives, and every form has reached one parameter. -/
theorem call_checks_then_binds (limit : Nat) (engine : Engine) (function : Callable)
    (arguments : Value) (forms : List Value) (machine : Machine)
    (valid : isValid function.parameters = true)
    (given : argumentForms limit function arguments = .ok forms) :
    (∀ budget, engine = withBudget limit budget →
      (withBudget limit (budget + 1)).apply function arguments =
        engine.applyCallable limit function arguments) ∧
    (forms.length < requiredCount function.parameters →
      engine.applyCallable limit function arguments machine =
        (.error (.evaluation (.argumentCount (requiredCount function.parameters) forms.length)),
          machine)) ∧
    (function.parameters ≠ [] → hasRest function.parameters = false →
      function.parameters.length < forms.length →
      engine.applyCallable limit function arguments machine =
        (.error (.evaluation (.argumentCount function.parameters.length forms.length)), machine)) ∧
    (Fits function.parameters forms.length → function.parameters = [] →
      engine.applyCallable limit function arguments machine =
        engine.runBody limit function machine) ∧
    (Fits function.parameters forms.length → function.parameters ≠ [] →
      (function.parameters.mapIdx (share forms)).flatten = forms ∧
      match (function.parameters.zip forms).mapM engine.receive machine with
      | (.ok values, after) =>
          ∃ frame, engine.bind .empty function.parameters forms machine = (.ok frame, after) ∧
            engine.applyCallable limit function arguments machine =
              Eval.inFrame frame (engine.runBody limit function) after ∧
            frame.names = function.parameters.map (·.name) ∧ frame.names.Nodup ∧
            ∀ (index : Nat) (parameter : Parameter),
              function.parameters[index]? = some parameter →
              ∃ value, frame.get? parameter.name = some value ∧
                parameter.received (parameter.share forms index) values[index]? = some value
      | (.error cause, after) =>
          engine.bind .empty function.parameters forms machine = (.error cause, after) ∧
            engine.applyCallable limit function arguments machine = (.error cause, after)) := by
  have run := applyCallable_run limit engine function given machine
  refine ⟨?_, fun few => ?_, fun some restless many => ?_, fun fits none => ?_,
    fun fits some => ⟨?_, ?_⟩⟩
  · rintro budget rfl
    rfl
  · rw [run, checkCount_of_few few]
  · rw [run, checkCount_of_many some restless many]
  · rw [run, checkCount_of_fits fits, none]
    rfl
  · refine flatten_share (isTail_of_isValid valid) ?_
    cases restless : hasRest function.parameters with
    | true => exact .inl rfl
    | false => exact .inr (fits.2 some restless)
  · have distinct := nodup_of_isValid valid
    have bound := @bind_run _ (isTail_of_isValid valid) _ fits.1 .empty distinct engine machine
    rw [checkCount_of_fits fits] at run
    simp only [List.isEmpty_iff, some, if_false, Eval.bind_run] at run
    rcases others : (function.parameters.zip forms).mapM engine.receive machine with
      ⟨cause | values, after⟩ <;> rw [others] at bound
    · exact ⟨bound, by rw [run, bound]⟩
    · obtain ⟨frame, ran, binds⟩ := bound
      refine ⟨frame, ran, by rw [run, ran], binds.names, binds.names ▸ distinct, ?_⟩
      intro index parameter found
      obtain ⟨value, own, held⟩ := binds.each index parameter found
      exact ⟨value, held, own⟩

/-- With two forms, the optional parameter falls back on its default and nothing is left for the
rest. -/
theorem call_checks_then_binds_two_forms :
    let function := Callable.lambda none [⟨.normal, "A", .nil⟩, ⟨.plain, "B", .nil⟩,
      ⟨.optional, "C", .integer 7⟩, ⟨.rest, "D", .nil⟩] .nil
    let forms := [.quoted (.symbol "V"), .symbol "U"]
    let machine : Machine := ⟨.initial, ""⟩
    isValid function.parameters = true ∧
      argumentForms 9 function (.list forms .nil) = .ok forms ∧
      ∃ frame, (withBudget 9 9).bind .empty function.parameters forms machine =
          (.ok frame, machine) ∧
        frame.names = ["A", "B", "C", "D"] ∧ frame.get? "C" = some (.integer 7) := by
  intro function forms machine
  have fits : Fits function.parameters forms.length :=
    ⟨by decide, fun _ restless => absurd restless (by decide)⟩
  obtain ⟨_, _, _, _, binds⟩ := call_checks_then_binds 9 (withBudget 9 9) function
    (.list forms .nil) forms machine rfl rfl
  obtain ⟨frame, ran, _, names, _, each⟩ := (binds fits (List.cons_ne_nil _ _)).2
  obtain ⟨value, held, own⟩ := each 2 ⟨.optional, "C", .integer 7⟩ rfl
  cases own
  exact ⟨rfl, rfl, frame, ran, names, held⟩

end Engine

end ConsLisp
