import ConsLisp.Proofs.Evaluation.Binding
import ConsLisp.Proofs.Value.List

/-!
# Builtins that decide what to evaluate

A builtin that receives forms evaluates them where it was called, one after the other, for as long
as their values tell it to go on.  That is said once, as how a search through forms ends, and each
of these builtins is described by what it makes of the ending.
-/

namespace ConsLisp

/-! ## Searches -/

/-- How a search through items ends: past all of them, at one whose value is not of the kind that is
passed over, or in an error. -/
inductive Ending where
  | passed (values : List Value) (after : Machine)
  | stopped (item value : Value) (after : Machine)
  | failed (cause : Error) (after : Machine)

/-- An action is done with each item in order, and each time the value is of a kind. -/
def Passes (action : Value → Eval Value) (kind : Value → Prop) (machine : Machine)
    (items values : List Value) (after : Machine) : Prop :=
  items.mapM action machine = (.ok values, after) ∧ ∀ value ∈ values, kind value

/-- The ending of a search.  What comes after the item where it stops or fails plays no part. -/
inductive Search (action : Value → Eval Value) (kind : Value → Prop) (machine : Machine) :
    List Value → Ending → Prop where
  | passed {items values : List Value} {after : Machine}
      (all : Passes action kind machine items values after) :
      Search action kind machine items (.passed values after)
  | stopped (before : List Value) {later values : List Value} {item value : Value}
      {between after : Machine} (passed : Passes action kind machine before values between)
      (done : action item between = (.ok value, after)) (other : ¬ kind value) :
      Search action kind machine (before ++ item :: later) (.stopped item value after)
  | failed (before : List Value) {later values : List Value} {item : Value} {cause : Error}
      {between after : Machine} (passed : Passes action kind machine before values between)
      (broken : action item between = (.error cause, after)) :
      Search action kind machine (before ++ item :: later) (.failed cause after)

section

variable {action : Value → Eval Value} {kind : Value → Prop} {machine after final : Machine}
  {item value : Value} {items values : List Value}

theorem Passes.nil : Passes action kind machine [] [] machine :=
  ⟨rfl, by simp⟩

theorem Passes.cons (done : action item machine = (.ok value, after)) (own : kind value)
    (later : Passes action kind after items values final) :
    Passes action kind machine (item :: items) (value :: values) final := by
  refine ⟨?_, List.forall_mem_cons.mpr ⟨own, later.2⟩⟩
  rw [Eval.mapM_cons_run, done]
  simp only [later.1]

theorem Passes.of_nil (passed : Passes action kind machine [] values final) :
    values = [] ∧ final = machine := by
  cases passed.1
  exact ⟨rfl, rfl⟩

theorem Passes.of_cons (passed : Passes action kind machine (item :: items) values final) :
    ∃ value others after, values = value :: others ∧ action item machine = (.ok value, after) ∧
      kind value ∧ Passes action kind after items others final := by
  obtain ⟨ran, each⟩ := passed
  rw [Eval.mapM_cons_run] at ran
  rcases done : action item machine with ⟨_ | value, after⟩ <;> rw [done] at ran
  · cases ran
  · rcases rest : items.mapM action after with ⟨_ | others, last⟩ <;> simp only [rest] at ran
    · cases ran
    · cases ran
      obtain ⟨own, later⟩ := List.forall_mem_cons.mp each
      exact ⟨value, others, after, rfl, rfl, own, rest, later⟩

theorem exists_search (action : Value → Eval Value) (kind : Value → Prop) (machine : Machine)
    (items : List Value) : ∃ ending, Search action kind machine items ending := by
  induction items generalizing machine with
  | nil => exact ⟨_, .passed .nil⟩
  | cons item items ih =>
      rcases done : action item machine with ⟨cause | value, after⟩
      · exact ⟨_, .failed [] .nil done⟩
      · by_cases own : kind value
        · obtain ⟨ending, search⟩ := ih after
          cases search with
          | passed all => exact ⟨_, .passed (.cons done own all)⟩
          | stopped before passed stop other =>
              exact ⟨_, .stopped (item :: before) (.cons done own passed) stop other⟩
          | failed before passed broken =>
              exact ⟨_, .failed (item :: before) (.cons done own passed) broken⟩
        · exact ⟨_, .stopped [] .nil done own⟩

end

/-! ## In the frame of a call -/

/-- In a frame, an action does what another one does outside of it. -/
def Eval.ActsAs {α : Type} (frame : Frame) (action outer : Eval α) : Prop :=
  ∀ machine, action (machine.under [frame]) =
    ((outer machine).1, (outer machine).2.under [frame])

namespace Eval.ActsAs

variable {α β : Type} {frame : Frame}

theorem ofExcept (result : Except Error α) :
    ActsAs frame (Eval.ofExcept result) (Eval.ofExcept result) :=
  fun _ => rfl

theorem pure (value : α) : ActsAs frame (Pure.pure value) (Pure.pure value) :=
  ofExcept (.ok value)

theorem bind {action outer : Eval α} {next further : α → Eval β} (acts : ActsAs frame action outer)
    (later : ∀ value, ActsAs frame (next value) (further value)) :
    ActsAs frame (action >>= next) (outer >>= further) := by
  intro machine
  rw [Eval.bind_run, Eval.bind_run, acts machine]
  rcases outer machine with ⟨_ | value, after⟩
  · rfl
  · exact later value after

/-- What only finds a value can be left out. -/
theorem found_bind {action : Eval α} {value : α} {next : α → Eval β} {outer : Eval β}
    (acts : ActsAs frame action (Pure.pure value)) (later : ActsAs frame (next value) outer) :
    ActsAs frame (action >>= next) outer := by
  intro machine
  rw [Eval.bind_run, acts machine]
  exact later machine

theorem inCaller (action : Eval α) : ActsAs frame (Eval.inCaller action) action :=
  inCaller_run frame action

theorem argument {name : String} {value : Value} (found : frame.get? name = some value) :
    ActsAs frame (Eval.argument name) (Pure.pure value) :=
  argument_run found

theorem inFrame {action outer : Eval α} (acts : ActsAs frame action outer) :
    Eval.inFrame frame action = outer := by
  funext machine
  rw [inFrame_run, acts machine]
  rfl

end Eval.ActsAs

namespace Builtin

open Eval

theorem argumentList_actsAs {frame : Frame} {name : String} {forms : List Value}
    (found : frame.get? name = some (.ofItems forms .nil)) :
    ActsAs frame (argumentList name) (pure forms) := by
  refine (ActsAs.argument found).found_bind ?_
  rw [Value.walk?_ofItems]
  exact .pure forms

section

variable {limit : Nat} {engine : Engine} {operation : Builtin} {arguments : Value}
  {forms : List Value}

/-- A builtin that takes any number of forms acts outside of its frame. -/
theorem applyCallable_rest (signature : operation.parameters = [⟨.rest, "X", .nil⟩])
    (given : Engine.argumentForms limit (.builtin operation) arguments = .ok forms)
    {outer : Eval Value}
    (acts : ∀ frame : Frame, frame.get? "X" = some (.ofItems forms .nil) →
      ActsAs frame (operation.run limit engine) outer) (machine : Machine) :
    engine.applyCallable limit (.builtin operation) arguments machine = outer machine := by
  rw [Engine.applyCallable_run limit engine _ given machine, Callable.parameters, signature]
  exact congrFun (acts _ (Frame.get?_insert_self ..)).inFrame machine

theorem applyCallable_list
    (given : Engine.argumentForms limit (.builtin .list) arguments = .ok forms)
    (machine : Machine) :
    engine.applyCallable limit (.builtin .list) arguments machine =
      (forms.mapM engine.evaluate >>= fun values => pure (.ofItems values .nil)) machine :=
  applyCallable_rest rfl given (fun _ found => (argumentList_actsAs found).found_bind
    ((ActsAs.inCaller _).bind fun _ => .pure _)) machine

theorem applyCallable_and
    (given : Engine.argumentForms limit (.builtin .and) arguments = .ok forms)
    (machine : Machine) :
    engine.applyCallable limit (.builtin .and) arguments machine =
      conjunction engine .truth forms machine :=
  applyCallable_rest rfl given
    (fun _ found => (argumentList_actsAs found).found_bind (.inCaller _)) machine

theorem applyCallable_or
    (given : Engine.argumentForms limit (.builtin .or) arguments = .ok forms)
    (machine : Machine) :
    engine.applyCallable limit (.builtin .or) arguments machine =
      disjunction engine forms machine :=
  applyCallable_rest rfl given
    (fun _ found => (argumentList_actsAs found).found_bind (.inCaller _)) machine

theorem applyCallable_cond
    (given : Engine.argumentForms limit (.builtin .cond) arguments = .ok forms)
    (machine : Machine) :
    engine.applyCallable limit (.builtin .cond) arguments machine =
      conditional limit engine forms machine :=
  applyCallable_rest rfl given
    (fun _ found => (argumentList_actsAs found).found_bind (.inCaller _)) machine

/-- What a value stands for in place of a function: a symbol is evaluated once more. -/
def standsFor (engine : Engine) : Value → Eval Value
  | .symbol name => engine.evaluate (.symbol name)
  | value => return value

theorem resolve_actsAs (frame : Frame) (value : Value) :
    ActsAs frame (resolve engine value) (standsFor engine value) := by
  cases value with
  | symbol name => exact .inCaller _
  | _ => exact .pure _

theorem runFuncall_actsAs {frame : Frame} {value : Value} (function : frame.get? "X" = some value)
    (rest : frame.get? "Y" = some (.ofItems forms .nil)) :
    ActsAs frame (runFuncall limit engine) (do
      let resolved ← standsFor engine value
      let function ← Eval.ofExcept (resolved.expectAs limit Value.callable? "a function")
      engine.apply function (.ofItems forms .nil)) := by
  refine (ActsAs.argument function).found_bind ?_
  refine (resolve_actsAs frame value).bind fun resolved => ?_
  refine (ActsAs.ofExcept _).bind fun function => ?_
  exact (ActsAs.argument rest).found_bind (.inCaller _)

theorem applyCallable_funcall {form : Value}
    (given : Engine.argumentForms limit (.builtin .funcall) arguments = .ok (form :: forms))
    (machine : Machine) :
    engine.applyCallable limit (.builtin .funcall) arguments machine =
      (do
        let value ← engine.evaluate form
        let resolved ← standsFor engine value
        let function ← Eval.ofExcept (resolved.expectAs limit Value.callable? "a function")
        engine.apply function (.ofItems forms .nil)) machine := by
  have fits : Parameter.Fits (Callable.builtin .funcall).parameters (form :: forms).length :=
    ⟨Nat.succ_le_succ (Nat.zero_le _), fun _ restless => absurd restless (by decide)⟩
  have bound : engine.bind .empty (Callable.builtin .funcall).parameters (form :: forms) =
      engine.evaluate form >>= fun value =>
        pure ((Frame.empty.insert "X" value).insert "Y" (.ofItems forms .nil)) := rfl
  have some : (Callable.builtin .funcall).parameters.isEmpty = false := rfl
  rw [Engine.applyCallable_run limit engine _ given machine, Parameter.checkCount_of_fits fits]
  simp only [some, bound, Bool.false_eq_true, if_false, bind_assoc, pure_bind]
  rw [Eval.bind_run, Eval.bind_run]
  rcases engine.evaluate form machine with ⟨_ | value, after⟩
  · rfl
  · have acts : ActsAs ((Frame.empty.insert "X" value).insert "Y" (.ofItems forms .nil))
        (runFuncall limit engine) _ := runFuncall_actsAs rfl rfl
    exact congrFun acts.inFrame after

end

/-! ## What the builtins make of a search -/

/-- What AND makes of a search for NIL. -/
def conjunctionOutcome : Ending → Except Error Value × Machine
  | .passed values after => (.ok (values.getLast?.getD .truth), after)
  | .stopped _ _ after => (.ok .nil, after)
  | .failed cause after => (.error cause, after)

/-- What OR makes of a search for a value other than NIL. -/
def disjunctionOutcome : Ending → Except Error Value × Machine
  | .passed _ after => (.ok .nil, after)
  | .stopped _ value after => (.ok value, after)
  | .failed cause after => (.error cause, after)

/-- What a clause has after its test. -/
def clauseBody : Value → Value
  | .list items terminator => Value.cdr items terminator
  | _ => .nil

/-- What COND makes of a search for a test whose value is not NIL. -/
def conditionalOutcome (engine : Engine) : Ending → Except Error Value × Machine
  | .passed _ after => (.ok .nil, after)
  | .stopped clause value after =>
      if (clauseBody clause).isNil then (.ok value, after)
      else engine.evaluate (clauseBody clause) after
  | .failed cause after => (.error cause, after)

/-- Evaluates the test of a clause, which has to be a list. -/
def evaluateTest (limit : Nat) (engine : Engine) : Value → Eval Value
  | .list items terminator => engine.evaluate (Value.car items terminator)
  | clause => do
      Eval.fail (.mismatch (.expected "a cond clause" (← Eval.ofExcept (clause.shown limit))))

theorem isTrue_iff {value : Value} : value.isTrue = true ↔ value ≠ .nil := by
  cases value <;> simp [Value.isTrue, Value.isNil]

section

variable {limit : Nat} {engine : Engine} {machine between : Machine} {before values : List Value}

theorem conjunction_append
    (passed : Passes engine.evaluate (· ≠ .nil) machine before values between) (value : Value)
    (later : List Value) :
    conjunction engine value (before ++ later) machine =
      conjunction engine (values.getLast?.getD value) later between := by
  induction before generalizing machine values value with
  | nil =>
      obtain ⟨rfl, rfl⟩ := passed.of_nil
      rfl
  | cons form before ih =>
      obtain ⟨result, others, after, rfl, done, own, rest⟩ := passed.of_cons
      rw [List.cons_append, conjunction, Eval.bind_run, done]
      simp only [isTrue_iff.mpr own, if_true]
      rw [ih rest result, List.getLast?_cons, Option.getD_some]

theorem disjunction_append
    (passed : Passes engine.evaluate (· = .nil) machine before values between)
    (later : List Value) :
    disjunction engine (before ++ later) machine = disjunction engine later between := by
  induction before generalizing machine values with
  | nil =>
      obtain ⟨rfl, rfl⟩ := passed.of_nil
      rfl
  | cons form before ih =>
      obtain ⟨result, others, after, rfl, done, rfl, rest⟩ := passed.of_cons
      rw [List.cons_append, disjunction, Eval.bind_run, done]
      exact ih rest

theorem expectAs_bind_of_none {α β : Type} {view : Value → Option α} {clause : Value}
    (unseen : view clause = none) (limit : Nat) (what : String) (next : α → Eval β) :
    (Eval.ofExcept (clause.expectAs limit view what) >>= next) =
      (Eval.ofExcept (clause.shown limit) >>= fun text =>
        Eval.fail (.mismatch (.expected what text))) := by
  rw [Value.expectAs, unseen, Value.refuse]
  cases clause.shown limit <;> rfl

theorem conditional_cons (limit : Nat) (engine : Engine) (clause : Value) (clauses : List Value) :
    conditional limit engine (clause :: clauses) =
      evaluateTest limit engine clause >>= fun result =>
        if result.isTrue then
          if (clauseBody clause).isNil then return result else engine.evaluate (clauseBody clause)
        else conditional limit engine clauses := by
  cases clause with
  | list items terminator => rfl
  | _ =>
      rw [conditional, expectAs_bind_of_none rfl]
      simp only [evaluateTest, bind_assoc]
      rfl

theorem conditional_append
    (passed : Passes (evaluateTest limit engine) (· = .nil) machine before values between)
    (later : List Value) :
    conditional limit engine (before ++ later) machine =
      conditional limit engine later between := by
  induction before generalizing machine values with
  | nil =>
      obtain ⟨rfl, rfl⟩ := passed.of_nil
      rfl
  | cons clause before ih =>
      obtain ⟨result, others, after, rfl, done, rfl, rest⟩ := passed.of_cons
      rw [List.cons_append, conditional_cons, Eval.bind_run, done]
      exact ih rest

variable {forms : List Value} {ending : Ending}

theorem conjunction_of_search
    (search : Search engine.evaluate (· ≠ .nil) machine forms ending) :
    conjunction engine .truth forms machine = conjunctionOutcome ending := by
  cases search with
  | passed all =>
      rw [← List.append_nil forms, conjunction_append all]
      rfl
  | stopped before passed done other =>
      rw [conjunction_append passed, conjunction, Eval.bind_run, done]
      simp only [isTrue_iff.not.mpr other]
      rfl
  | failed before passed broken =>
      rw [conjunction_append passed, conjunction, Eval.bind_run, broken]
      rfl

theorem disjunction_of_search
    (search : Search engine.evaluate (· = .nil) machine forms ending) :
    disjunction engine forms machine = disjunctionOutcome ending := by
  cases search with
  | passed all =>
      rw [← List.append_nil forms, disjunction_append all]
      rfl
  | stopped before passed done other =>
      rw [disjunction_append passed, disjunction, Eval.bind_run, done]
      simp only [isTrue_iff.mpr other]
      rfl
  | failed before passed broken =>
      rw [disjunction_append passed, disjunction, Eval.bind_run, broken]
      rfl

theorem conditional_of_search
    (search : Search (evaluateTest limit engine) (· = .nil) machine forms ending) :
    conditional limit engine forms machine = conditionalOutcome engine ending := by
  cases search with
  | passed all =>
      rw [← List.append_nil forms, conditional_append all]
      rfl
  | stopped before passed done other =>
      rw [conditional_append passed, conditional_cons, Eval.bind_run, done]
      simp only [isTrue_iff.mpr other, if_true, conditionalOutcome]
      split <;> rfl
  | failed before passed broken =>
      rw [conditional_append passed, conditional_cons, Eval.bind_run, broken]
      rfl

end

/-- The builtins that receive forms evaluate them where they were called, whatever is bound there.
LIST evaluates all of them; AND and OR stop at the first value that is NIL and at the first that is
not; COND stops at the first test that is not NIL, for the value of that test or of the body behind
it, and fails at a clause that is no list; and FUNCALL applies what its first form stands for to the
other forms.  An error ends each of them with what was done up to it. -/
theorem control_follows_search (limit : Nat) (engine : Engine) (arguments : Value)
    (forms : List Value) (machine : Machine)
    (given : ∀ function, Engine.argumentForms limit function arguments = .ok forms) :
    (∀ budget, engine = .withBudget limit budget → ∀ function,
      (Engine.withBudget limit (budget + 1)).apply function arguments =
        engine.applyCallable limit function arguments) ∧
    (∀ action kind, ∃ ending, Search action kind machine forms ending) ∧
    engine.applyCallable limit (.builtin .list) arguments machine =
      (forms.mapM engine.evaluate >>= fun values => pure (.ofItems values .nil)) machine ∧
    (∀ ending, Search engine.evaluate (· ≠ .nil) machine forms ending →
      engine.applyCallable limit (.builtin .and) arguments machine = conjunctionOutcome ending) ∧
    (∀ ending, Search engine.evaluate (· = .nil) machine forms ending →
      engine.applyCallable limit (.builtin .or) arguments machine = disjunctionOutcome ending) ∧
    (∀ ending, Search (evaluateTest limit engine) (· = .nil) machine forms ending →
      engine.applyCallable limit (.builtin .cond) arguments machine =
        conditionalOutcome engine ending) ∧
    (∀ form others, forms = form :: others →
      engine.applyCallable limit (.builtin .funcall) arguments machine =
        (do
          let value ← engine.evaluate form
          let resolved ← standsFor engine value
          let function ← Eval.ofExcept (resolved.expectAs limit Value.callable? "a function")
          engine.apply function (.ofItems others .nil)) machine) := by
  refine ⟨?_, fun action kind => exists_search action kind machine forms,
    applyCallable_list (given _) machine, fun ending search => ?_, fun ending search => ?_,
    fun ending search => ?_, ?_⟩
  · rintro budget rfl function
    rfl
  · rw [applyCallable_and (given _), conjunction_of_search search]
  · rw [applyCallable_or (given _), disjunction_of_search search]
  · rw [applyCallable_cond (given _), conditional_of_search search]
  · rintro form others rfl
    exact applyCallable_funcall (given _) machine

/-- After the first NIL nothing is evaluated, not even a name without a value. -/
theorem control_follows_search_skips_unbound :
    let arguments := Value.list [.nil, .symbol "V"] .nil
    let machine : Machine := ⟨.initial, ""⟩
    (∀ function, Engine.argumentForms 9 function arguments = .ok [.nil, .symbol "V"]) ∧
      (Engine.withBudget 9 9).applyCallable 9 (.builtin .and) arguments machine =
        (.ok .nil, machine) := by
  intro arguments machine
  have given (function : Callable) :
      Engine.argumentForms 9 function arguments = .ok [.nil, .symbol "V"] := rfl
  obtain ⟨_, _, _, conjunction, _⟩ :=
    control_follows_search 9 (.withBudget 9 9) arguments _ machine given
  exact ⟨given, conjunction _ (.stopped [] .nil rfl (by simp))⟩

end Builtin

end ConsLisp
