import ConsLisp.Evaluation
import ConsLisp.Proofs.Evaluation.Machine
import ConsLisp.Proofs.Evaluation.Runtime
import ConsLisp.Proofs.Value.Depth

/-!
# The budget of evaluation

The limit decides whether evaluation finishes, not what it computes.  A computation under a larger
limit does the same as under a smaller one, to the last effect, unless the smaller one was too
small.  No part of evaluation recovers from such a failure or turns it into another one, so this is
kept by every way of composing computations.
-/

namespace ConsLisp

/-! ## Checks -/

section

variable {limit larger : Nat} (within : limit ≤ larger)
include within

namespace Value

theorem shown_deepens (value : Value) :
    Deepens Error.IsTooDeep (value.shown limit) (value.shown larger) := by
  refine (display_deepens within value).mapError ?_
  rintro cause rfl
  exact ⟨.printing, rfl⟩

theorem refuse_deepens {α : Type} (cause : String → Mismatch) (value : Value) :
    Deepens Error.IsTooDeep (value.refuse limit cause : Except Error α)
      (value.refuse larger cause) :=
  (shown_deepens within value).bind fun _ => .refl _

theorem expectAs_deepens {α : Type} (view : Value → Option α) (what : String) (value : Value) :
    Deepens Error.IsTooDeep (value.expectAs limit view what) (value.expectAs larger view what) := by
  unfold expectAs
  split
  · exact .refl _
  · exact refuse_deepens within _ value

end Value

namespace Parameter

theorem nameOf_deepens (entry : Value) :
    Deepens Error.IsTooDeep (nameOf limit entry) (nameOf larger entry) := by
  cases entry with
  | symbol name => exact .refl _
  | _ => exact Value.refuse_deepens within _ _

theorem optionalOf_deepens (entry : Value) :
    Deepens Error.IsTooDeep (optionalOf limit entry) (optionalOf larger entry) := by
  unfold optionalOf
  split
  · exact .refl _
  · split
    · exact (nameOf_deepens within _).bind fun _ => .refl _
    · exact (nameOf_deepens within _).bind fun _ => .refl _
    · exact Value.refuse_deepens within _ _
  · exact Value.refuse_deepens within _ _

theorem ofEntry_deepens (pending : Option Mode) (amongOptional : Bool) (entry : Value) :
    Deepens Error.IsTooDeep (ofEntry limit pending amongOptional entry)
      (ofEntry larger pending amongOptional entry) := by
  unfold ofEntry
  split
  · exact (nameOf_deepens within entry).bind fun _ => .refl _
  · split
    · exact optionalOf_deepens within entry
    · exact (nameOf_deepens within entry).bind fun _ => .refl _

theorem ofEntries_deepens (form : Value) (pending : Option Mode) (amongOptional : Bool)
    (entries : List Value) :
    Deepens Error.IsTooDeep (ofEntries limit form pending amongOptional entries)
      (ofEntries larger form pending amongOptional entries) := by
  fun_induction ofEntries limit form pending amongOptional entries with
  | case1 => exact .refl _
  | case2 => exact Value.refuse_deepens within _ form
  | case3 _ _ _ _ _ marked =>
      rw [ofEntries.eq_3 _ _ _ _ _ _ _ marked]
      exact Value.refuse_deepens within _ form
  | case4 _ _ _ marked ih =>
      rw [ofEntries.eq_4 _ _ _ _ _ marked]
      exact ih
  | case5 _ _ _ _ notOptional marked ih =>
      rw [ofEntries.eq_5 _ _ _ _ _ _ notOptional marked]
      exact ih
  | case6 amongOptional entry entries pending unmarked ih =>
      rw [ofEntries.eq_6 _ _ _ _ _ _ unmarked]
      refine (ofEntry_deepens within pending amongOptional entry).bind fun _ => ?_
      exact ih.bind fun _ => .refl _

theorem ofForm_deepens (form : Value) :
    Deepens Error.IsTooDeep (ofForm limit form) (ofForm larger form) := by
  unfold ofForm
  split
  · exact .refl _
  · refine (ofEntries_deepens within _ none false _).bind fun parameters => ?_
    split
    · exact .refl _
    · exact Value.refuse_deepens within _ _
  · exact Value.refuse_deepens within _ _

end Parameter

theorem Engine.argumentForms_deepens (function : Callable) (arguments : Value) :
    Deepens Error.IsTooDeep (argumentForms limit function arguments)
      (argumentForms larger function arguments) := by
  unfold argumentForms
  split
  · exact .refl _
  · exact .refl _
  · exact (Value.shown_deepens within _).bind fun _ =>
      (Value.shown_deepens within _).bind fun _ => .refl _

end

/-! ## Computations -/

namespace Eval

variable {α β : Type}

/-- The second computation does the same as the first, effects included, unless the first fails for
want of depth. -/
def Deepens (first second : Eval α) : Prop :=
  ∀ machine, first machine = second machine ∨
    ∃ cause after, first machine = (.error cause, after) ∧ cause.IsTooDeep

namespace Deepens

theorem refl (action : Eval α) : Deepens action action :=
  fun _ => .inl rfl

theorem ofExcept {first second : Except Error α}
    (deepens : ConsLisp.Deepens Error.IsTooDeep first second) :
    Deepens (Eval.ofExcept first) (Eval.ofExcept second) := by
  intro machine
  rcases deepens with rfl | ⟨cause, rfl, own⟩
  · exact .inl rfl
  · exact .inr ⟨cause, machine, rfl, own⟩

theorem bind {first second : Eval α} {next other : α → Eval β} (deepens : Deepens first second)
    (later : ∀ value, Deepens (next value) (other value)) :
    Deepens (first >>= next) (second >>= other) := by
  intro machine
  rw [bind_run, bind_run]
  rcases deepens machine with same | ⟨cause, after, failed, own⟩
  · rw [same]
    rcases second machine with ⟨_ | value, after⟩
    · exact .inl rfl
    · exact later value after
  · rw [failed]
    exact .inr ⟨cause, after, rfl, own⟩

theorem inFrame {first second : Eval α} (deepens : Deepens first second) (frame : Frame) :
    Deepens (Eval.inFrame frame first) (Eval.inFrame frame second) := by
  intro machine
  rw [inFrame_run, inFrame_run]
  rcases deepens (machine.under [frame]) with same | ⟨cause, after, failed, own⟩
  · rw [same]
    exact .inl rfl
  · rw [failed]
    exact .inr ⟨cause, _, rfl, own⟩

theorem inCaller {first second : Eval α} (deepens : Deepens first second) :
    Deepens (Eval.inCaller first) (Eval.inCaller second) := by
  intro machine
  unfold Eval.inCaller
  split
  · exact deepens machine
  next frame outer _ =>
      rcases deepens { machine with environment := ⟨outer, machine.environment.globals⟩ } with
        same | ⟨cause, after, failed, own⟩
      · rw [same]
        exact .inl rfl
      · rw [failed]
        exact .inr ⟨cause, _, rfl, own⟩

end Deepens

end Eval

/-- An engine that does the same as another one, except that it may go deeper. -/
structure Engine.Deepens (engine deeper : Engine) : Prop where
  evaluate : ∀ form, (engine.evaluate form).Deepens (deeper.evaluate form)
  apply : ∀ function arguments,
    (engine.apply function arguments).Deepens (deeper.apply function arguments)

/-! ## Builtins -/

namespace Builtin

variable {limit larger : Nat}

theorem writeArgument_deepens {print deeper : Value → Printed}
    (prints : PrintsDeeper print deeper) (ending : String) :
    (writeArgument print ending).Deepens (writeArgument deeper ending) := by
  refine (Eval.Deepens.refl _).bind fun value => ?_
  refine Eval.Deepens.bind (.ofExcept ((prints value).mapError ?_)) fun _ => .refl _
  rintro cause rfl
  exact ⟨.printing, rfl⟩

section

variable (within : limit ≤ larger)
include within

theorem expect_deepens {α : Type} (view : Value → Option α) (what : String) (value : Value) :
    (Eval.ofExcept (value.expectAs limit view what)).Deepens
      (Eval.ofExcept (value.expectAs larger view what)) :=
  .ofExcept (Value.expectAs_deepens within view what value)

theorem operands_deepens : (operands limit).Deepens (operands larger) :=
  (Eval.Deepens.refl _).bind fun _ => (expect_deepens within _ _ _).bind fun _ =>
    (Eval.Deepens.refl _).bind fun _ => (expect_deepens within _ _ _).bind fun _ => .refl _

theorem calculate_deepens (operation : Number → Number → Except NumericError Number) :
    (calculate limit operation).Deepens (calculate larger operation) :=
  (operands_deepens within).bind fun _ => .refl _

theorem calculateQuotient_deepens (operation : Number → Number → Except NumericError Number) :
    (calculateQuotient limit operation).Deepens (calculateQuotient larger operation) :=
  (operands_deepens within).bind fun _ => .refl _

theorem compareOperands_deepens (test : Ordering → Bool) :
    (compareOperands limit test).Deepens (compareOperands larger test) :=
  (operands_deepens within).bind fun _ => .refl _

theorem takeApart_deepens (part : List Value → Value → Value) :
    (takeApart limit part).Deepens (takeApart larger part) := by
  refine (Eval.Deepens.refl _).bind fun value => ?_
  split
  · exact .refl _
  · exact (expect_deepens within _ _ _).bind fun _ => .refl _

theorem runEqual_deepens : (runEqual limit).Deepens (runEqual larger) := by
  refine (Eval.Deepens.refl _).bind fun left => (Eval.Deepens.refl _).bind fun right => ?_
  refine Eval.Deepens.bind (.ofExcept ((Value.equal_deepens within left right).mapError ?_))
    fun _ => .refl _
  rintro (_ | _) _
  · exact ⟨.comparing, rfl⟩
  · exact ⟨.evaluating, rfl⟩

theorem runSetq_deepens : (runSetq limit).Deepens (runSetq larger) :=
  (Eval.Deepens.refl _).bind fun _ => (expect_deepens within _ _ _).bind fun _ => .refl _

theorem ofForm_deepens (form : Value) :
    (Eval.ofExcept (Parameter.ofForm limit form)).Deepens
      (Eval.ofExcept (Parameter.ofForm larger form)) :=
  .ofExcept (Parameter.ofForm_deepens within form)

theorem runDefun_deepens : (runDefun limit).Deepens (runDefun larger) :=
  (Eval.Deepens.refl _).bind fun _ => (expect_deepens within _ _ _).bind fun _ =>
    (Eval.Deepens.refl _).bind fun form => (ofForm_deepens within form).bind fun _ => .refl _

theorem runLambda_deepens : (runLambda limit).Deepens (runLambda larger) :=
  (Eval.Deepens.refl _).bind fun form => (ofForm_deepens within form).bind fun _ => .refl _

end

section

variable {engine deeper : Engine} (deepens : engine.Deepens deeper)
include deepens

theorem conjunction_deepens (value : Value) (forms : List Value) :
    (conjunction engine value forms).Deepens (conjunction deeper value forms) := by
  induction forms generalizing value with
  | nil => exact .refl _
  | cons form forms ih =>
      refine (deepens.evaluate form).bind fun result => ?_
      split
      · exact ih result
      · exact .refl _

theorem disjunction_deepens (forms : List Value) :
    (disjunction engine forms).Deepens (disjunction deeper forms) := by
  induction forms with
  | nil => exact .refl _
  | cons form forms ih =>
      refine (deepens.evaluate form).bind fun result => ?_
      split
      · exact .refl _
      · exact ih

theorem conditional_deepens (within : limit ≤ larger) (clauses : List Value) :
    (conditional limit engine clauses).Deepens (conditional larger deeper clauses) := by
  induction clauses with
  | nil => exact .refl _
  | cons clause clauses ih =>
      refine (expect_deepens within _ _ clause).bind fun ⟨items, terminator⟩ => ?_
      dsimp only
      refine (deepens.evaluate _).bind fun result => ?_
      split
      · split
        · exact .refl _
        · exact deepens.evaluate _
      · exact ih

theorem mapM_deepens (forms : List Value) :
    (forms.mapM engine.evaluate).Deepens (forms.mapM deeper.evaluate) := by
  induction forms with
  | nil => exact .refl _
  | cons form forms ih =>
      rw [List.mapM_cons, List.mapM_cons]
      exact (deepens.evaluate form).bind fun _ => ih.bind fun _ => .refl _

theorem resolve_deepens (value : Value) :
    (resolve engine value).Deepens (resolve deeper value) := by
  cases value with
  | symbol name => exact (deepens.evaluate _).inCaller
  | _ => exact .refl _

theorem runFuncall_deepens (within : limit ≤ larger) :
    (runFuncall limit engine).Deepens (runFuncall larger deeper) :=
  (Eval.Deepens.refl _).bind fun value => (resolve_deepens deepens value).bind fun _ =>
    (expect_deepens within _ _ _).bind fun function => (Eval.Deepens.refl _).bind fun arguments =>
      (deepens.apply function arguments).inCaller

theorem run_deepens (within : limit ≤ larger) (operation : Builtin) :
    (operation.run limit engine).Deepens (operation.run larger deeper) := by
  cases operation with
  | add => exact calculate_deepens within _
  | subtract => exact calculate_deepens within _
  | multiply => exact calculate_deepens within _
  | divide => exact calculateQuotient_deepens within _
  | modulo => exact calculateQuotient_deepens within _
  | less => exact compareOperands_deepens within _
  | greater => exact compareOperands_deepens within _
  | equalNumbers => exact compareOperands_deepens within _
  | lessOrEqual => exact compareOperands_deepens within _
  | greaterOrEqual => exact compareOperands_deepens within _
  | equal => exact runEqual_deepens within
  | and => exact (Eval.Deepens.refl _).bind fun _ => (conjunction_deepens deepens _ _).inCaller
  | or => exact (Eval.Deepens.refl _).bind fun _ => (disjunction_deepens deepens _).inCaller
  | car => exact takeApart_deepens within _
  | cdr => exact takeApart_deepens within _
  | list =>
      exact (Eval.Deepens.refl _).bind fun _ =>
        (mapM_deepens deepens _).inCaller.bind fun _ => .refl _
  | cond =>
      exact (Eval.Deepens.refl _).bind fun _ => (conditional_deepens deepens within _).inCaller
  | setq => exact runSetq_deepens within
  | defun => exact runDefun_deepens within
  | lambda => exact runLambda_deepens within
  | funcall => exact runFuncall_deepens deepens within
  | print => exact writeArgument_deepens (Value.display_deepens within) _
  | princ => exact writeArgument_deepens (Value.princ_deepens within) _
  | _ => exact .refl _

end

end Builtin

/-! ## Calls and forms -/

namespace Engine

variable {limit larger : Nat}

section

variable {engine deeper : Engine} (deepens : engine.Deepens deeper)
include deepens

theorem bind_deepens (frame : Frame) (parameters : List Parameter) (forms : List Value) :
    (engine.bind frame parameters forms).Deepens (deeper.bind frame parameters forms) := by
  induction parameters generalizing frame forms with
  | nil => exact .refl _
  | cons parameter parameters ih =>
      unfold bind
      split
      · exact .refl _
      · exact (deepens.evaluate _).bind fun _ => ih _ _
      · exact ih _ _
      · exact ih _ _
      · exact ih _ _
      · exact .refl _
      · exact .refl _

theorem runBody_deepens (within : limit ≤ larger) (function : Callable) :
    (engine.runBody limit function).Deepens (deeper.runBody larger function) := by
  cases function with
  | lambda name parameters body => exact deepens.evaluate body
  | builtin operation => exact Builtin.run_deepens deepens within operation

theorem applyCallable_deepens (within : limit ≤ larger) (function : Callable) (arguments : Value) :
    (engine.applyCallable limit function arguments).Deepens
      (deeper.applyCallable larger function arguments) := by
  refine Eval.Deepens.bind (.ofExcept (argumentForms_deepens within function arguments))
    fun forms => (Eval.Deepens.refl _).bind fun _ => ?_
  have body := runBody_deepens deepens within function
  split
  · exact body
  · exact (bind_deepens deepens _ _ _).bind fun frame => body.inFrame frame

theorem sequence_deepens (value : Value) (forms : List Value) :
    (engine.sequence value forms).Deepens (deeper.sequence value forms) := by
  induction forms generalizing value with
  | nil => exact .refl _
  | cons form forms ih => exact (deepens.evaluate form).bind fun result => ih result

theorem evaluateList_deepens (items : List Value) (terminator : Value) :
    (engine.evaluateList items terminator).Deepens (deeper.evaluateList items terminator) := by
  unfold evaluateList
  split
  · exact .refl _
  · dsimp only
    refine (deepens.evaluate _).bind fun result => ?_
    split
    · exact .refl _
    · split
      · exact deepens.apply _ _
      · exact sequence_deepens deepens _ _
      · exact deepens.evaluate _

theorem evaluateForm_deepens (form : Value) :
    (engine.evaluateForm form).Deepens (deeper.evaluateForm form) := by
  cases form with
  | list items terminator => exact evaluateList_deepens deepens items terminator
  | _ => exact .refl _

end

/-- An engine with a larger limit and a larger budget goes deeper. -/
theorem withBudget_deepens {budget more : Nat} (within : limit ≤ larger) (longer : budget ≤ more) :
    (withBudget limit budget).Deepens (withBudget larger more) := by
  induction budget generalizing more with
  | zero =>
      have deep : (Error.tooDeep .evaluating).IsTooDeep := ⟨.evaluating, rfl⟩
      exact ⟨fun _ machine => .inr ⟨_, machine, rfl, deep⟩,
        fun _ _ machine => .inr ⟨_, machine, rfl, deep⟩⟩
  | succ budget ih =>
      obtain ⟨more, rfl⟩ := Nat.exists_eq_add_of_le' (Nat.le_of_add_left_le longer)
      have inside := ih (Nat.le_of_succ_le_succ longer)
      exact ⟨evaluateForm_deepens inside, applyCallable_deepens inside within⟩

end Engine

/-- The budget decides only whether evaluation finishes: if it ends in anything but a failure for
want of depth, be that a value or another error, then under every larger budget it ends in the same
result with the same output and the same environment. -/
theorem evaluate_same_under_larger_budget {budget larger : Nat} (within : budget ≤ larger)
    (form : Value) (machine : Machine)
    (settled : ∀ activity,
      ((evaluate budget form).run machine).1 ≠ .error (.tooDeep activity)) :
    (evaluate larger form).run machine = (evaluate budget form).run machine := by
  rcases (Engine.withBudget_deepens within within).evaluate form machine with
    same | ⟨cause, after, failed, activity, rfl⟩
  · exact same.symm
  · exact absurd (congrArg Prod.fst failed) (settled activity)

/-- `(princ "a")` takes a budget of three, and does the same with a thousand. -/
theorem evaluate_princ_under_larger_budget :
    let form : Value := .list [.symbol "PRINC", .string "a"] .nil
    (evaluate 3 form).run ⟨.initial, ""⟩ = (.ok (.string "a"), ⟨.initial, "a"⟩) ∧
      (evaluate 1000 form).run ⟨.initial, ""⟩ = (.ok (.string "a"), ⟨.initial, "a"⟩) := by
  intro form
  have ran : (evaluate 3 form).run ⟨.initial, ""⟩ = (.ok (.string "a"), ⟨.initial, "a"⟩) := by
    rfl
  refine ⟨ran, ?_⟩
  rw [evaluate_same_under_larger_budget (by decide : 3 ≤ 1000) form, ran]
  intro activity
  rw [ran]
  simp

end ConsLisp
