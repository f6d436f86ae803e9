import Mathlib.Data.List.Induction
import ConsLisp.Proofs.Evaluation.Machine
import ConsLisp.Proofs.Form.Iteration
import ConsLisp.Session

/-!
# Running a source

A source is read and evaluated by turns.  The outcome is that of reading it to its first error
without evaluating anything, and then evaluating the forms in order: what a form does and whether
it fails does not depend on what stands after it.
-/

namespace ConsLisp

/-! ## Forms in order -/

/-- Evaluating forms in order, all with success, takes one machine to another.  The value is that
of the last form, or NIL if there is none. -/
inductive Evaluates (limit : Nat) (machine : Machine) : List Value → Value → Machine → Prop where
  | none : Evaluates limit machine [] .nil machine
  | next {forms : List Value} {form earlier value : Value} {middle after : Machine}
      (before : Evaluates limit machine forms earlier middle)
      (ran : (evaluate limit form).run middle = (.ok value, after)) :
      Evaluates limit machine (forms ++ [form]) value after

/-- Evaluating forms in order succeeds up to one of them, which fails. -/
inductive Breaks (limit : Nat) (machine : Machine) : List Value → Error → Machine → Prop where
  | fails {forms : List Value} {form earlier : Value} {middle after : Machine} {fault : Error}
      (before : Evaluates limit machine forms earlier middle)
      (ran : (evaluate limit form).run middle = (.error fault, after)) (others : List Value) :
      Breaks limit machine (forms ++ form :: others) fault after

theorem evaluates_or_breaks (limit : Nat) (machine : Machine) (forms : List Value) :
    (∃ value after, Evaluates limit machine forms value after) ∨
      ∃ fault after, Breaks limit machine forms fault after := by
  induction forms using List.reverseRecOn with
  | nil => exact .inl ⟨.nil, machine, .none⟩
  | append_singleton forms form ih =>
      rcases ih with ⟨earlier, middle, before⟩ | ⟨fault, after, broken⟩
      · cases ran : (evaluate limit form).run middle with
        | mk result after =>
            cases result with
            | ok value => exact .inl ⟨value, after, before.next ran⟩
            | error fault => exact .inr ⟨fault, after, .fails before ran []⟩
      · cases broken with
        | fails before ran others =>
            refine .inr ⟨fault, after, ?_⟩
            rw [List.append_assoc]
            exact .fails before ran (others ++ [form])

namespace Engine

theorem sequence_append (engine : Engine) (value : Value) (first second : List Value) :
    engine.sequence value (first ++ second) =
      (engine.sequence value first >>= fun last => engine.sequence last second) := by
  induction first generalizing value with
  | nil => simp [sequence]
  | cons form forms ih => simp [sequence, ih]

end Engine

theorem Evaluates.sequence {limit : Nat} {machine after : Machine} {forms : List Value}
    {value : Value} (evaluates : Evaluates limit machine forms value after) :
    (Engine.withBudget limit limit).sequence .nil forms machine = (.ok value, after) := by
  induction evaluates with
  | none => rfl
  | @next forms form earlier value middle after before ran ih =>
      have same : (Engine.withBudget limit limit).evaluate form middle = (.ok value, after) := ran
      rw [Engine.sequence_append, Eval.bind_run, ih]
      simp only [Engine.sequence, Eval.bind_run, same]
      rfl

theorem Breaks.sequence {limit : Nat} {machine after : Machine} {forms : List Value}
    {fault : Error} (breaks : Breaks limit machine forms fault after) :
    (Engine.withBudget limit limit).sequence .nil forms machine = (.error fault, after) := by
  cases breaks with
  | @fails forms form earlier middle after fault before ran others =>
      have same : (Engine.withBudget limit limit).evaluate form middle = (.error fault, after) :=
        ran
      rw [Engine.sequence_append, Eval.bind_run, before.sequence]
      simp only [Engine.sequence, Eval.bind_run, same]

/-! ## Reading and evaluating by turns -/

/-- Running the forms of a source is evaluating those before its first error and then stopping at
the error. -/
theorem runForms_eq {σ : Type} [TokenSource σ] {limit : Nat} {source : σ} {forms : List Value}
    {cause : Error} (yields : Form.Yields limit source forms cause) (strict : Bool)
    (value : Value) :
    runForms limit strict value source =
      ((Engine.withBudget limit limit).sequence value forms >>= fun last =>
        if stopsReading strict cause then pure last else Eval.fail cause) := by
  induction forms generalizing source value with
  | nil =>
      obtain ⟨rest, step⟩ := Form.yields_nil_iff.mp yields
      rw [runForms, step]
      simp [Engine.sequence]
  | cons form forms ih =>
      obtain ⟨rest, step, others⟩ := Form.yields_cons_iff.mp yields
      rw [runForms, step]
      simp only [Engine.sequence, bind_assoc, ← ih others]
      rfl

/-- Whether an error of reading ends a source quietly: the end of the input does, and where reading
is not strict so does every error of the grammar. -/
def Error.Tolerated (strict : Bool) (cause : Error) : Prop :=
  cause = .parse .emptyInput ∨ strict = false ∧ ∃ fault, cause = .parse fault

theorem stopsReading_iff {strict : Bool} {cause : Error} :
    stopsReading strict cause = true ↔ cause.Tolerated strict := by
  unfold stopsReading Error.Tolerated
  split <;> simp_all

theorem interpret_eq {source : Source} (readable : ∀ kind, source ≠ .unreadable kind)
    (limit size : Nat) (strict : Bool) :
    interpret limit size strict source =
      runForms limit strict .nil (Lexer.ofSource size source) := by
  cases source with
  | unreadable kind => exact absurd rfl (readable kind)
  | _ => rfl

section

variable {limit size : Nat} {source : Source} {forms : List Value} {cause : Error}
variable (readable : ∀ kind, source ≠ .unreadable kind)
variable (yields : Form.Yields limit (Lexer.ofSource size source) forms cause)
include readable yields

theorem Breaks.interpret {machine after : Machine} {fault : Error}
    (breaks : Breaks limit machine forms fault after) (strict : Bool) :
    (interpret limit size strict source).run machine = (.error fault, after) := by
  rw [interpret_eq readable, runForms_eq yields, Eval.run, Eval.bind_run, breaks.sequence]

theorem Evaluates.interpret {machine after : Machine} {value : Value}
    (evaluates : Evaluates limit machine forms value after) (strict : Bool) :
    (cause.Tolerated strict →
      (interpret limit size strict source).run machine = (.ok value, after)) ∧
    (¬ cause.Tolerated strict →
      (interpret limit size strict source).run machine = (.error cause, after)) := by
  rw [interpret_eq readable, runForms_eq yields, Eval.run, Eval.bind_run, evaluates.sequence,
    ← stopsReading_iff]
  constructor
  · intro stops
    simp only [stops]
    rfl
  · intro fails
    simp only [fails]
    rfl

end

/-- Running a source agrees with reading it to its first error and evaluating the forms before that
in order.  A form that fails decides the result, with the effects of the forms up to it and
whatever stands after it.  Otherwise all forms have had their effects, and the result is the value
of the last one, or NIL, if the error is tolerated, and else the error.  Reading all forms, with or
without a look ahead before each of them, gives these forms if the error is the end of the input,
and else the error. -/
theorem interpret_reads_then_evaluates (limit size : Nat) (strict : Bool) (source : Source)
    (machine : Machine) :
    (∀ kind, source = .unreadable kind →
      (interpret limit size strict source).run machine = (.error (.unreadable kind), machine)) ∧
    ((∀ kind, source ≠ .unreadable kind) →
      ∃ forms cause, Form.Yields limit (Lexer.ofSource size source) forms cause ∧
        (∀ fault after, Breaks limit machine forms fault after →
          (interpret limit size strict source).run machine = (.error fault, after)) ∧
        (∀ value after, Evaluates limit machine forms value after →
          (cause.Tolerated strict →
            (interpret limit size strict source).run machine = (.ok value, after)) ∧
          (¬ cause.Tolerated strict →
            (interpret limit size strict source).run machine = (.error cause, after))) ∧
        ((∃ value after, Evaluates limit machine forms value after) ∨
          ∃ fault after, Breaks limit machine forms fault after) ∧
        (cause = .parse .emptyInput →
          (Form.readAll limit (Lexer.ofSource size source)).1 = .ok forms) ∧
        (cause ≠ .parse .emptyInput →
          (Form.readAll limit (Lexer.ofSource size source)).1 = .error cause) ∧
        ((TokenStream.ofSource (Lexer.ofSource size source)).readAll limit).1 =
          (Form.readAll limit (Lexer.ofSource size source)).1) := by
  constructor
  · rintro kind rfl
    rfl
  · intro readable
    obtain ⟨forms, cause, yields⟩ := Form.exists_yields limit (Lexer.ofSource size source)
    obtain ⟨ended, failed⟩ := yields.readAll
    exact ⟨forms, cause, yields,
      fun _ _ breaks => breaks.interpret readable yields strict,
      fun _ _ evaluates => evaluates.interpret readable yields strict,
      evaluates_or_breaks limit machine forms, ended, failed, TokenStream.readAll_ofSource limit _⟩

end ConsLisp
