import ConsLisp.Proofs.Evaluation.Errors
import ConsLisp.Proofs.Form.Concatenation
import ConsLisp.Proofs.Interpretation

/-!
# What a source comes to in a session

A source is read up to its first error and its forms are evaluated in order, up to one that fails.
Whatever was done until then stays done, and the session goes on with it.  In a session the only
errors are those of the language and those of numbers that cannot be represented.
-/

namespace ConsLisp

/-! ## Forms in order -/

section

variable {invariant : Invariant} {limit : Nat} {machine after : Machine} {forms : List Value}

theorem Evaluates.keeps {value : Value} (evaluates : Evaluates limit machine forms value after)
    (each : ∀ form ∈ forms, invariant.valid form)
    (own : machine.environment.All invariant.valid) : after.environment.All invariant.valid := by
  induction evaluates with
  | none => exact own
  | @next forms form earlier value middle after before ran ih =>
      have form := each form (List.mem_append_right forms List.mem_cons_self)
      have still := ih fun other member => each other (List.mem_append_left _ member)
      have kept := ((evaluate_keeps invariant limit form).run still).1
      rwa [ran] at kept

theorem Breaks.allowed {fault : Error} (breaks : Breaks limit machine forms fault after)
    (each : ∀ form ∈ forms, invariant.valid form)
    (own : machine.environment.All invariant.valid) : invariant.allowed fault := by
  cases breaks with
  | @fails forms form earlier middle after fault before ran others =>
      have form := each form (List.mem_append_right forms List.mem_cons_self)
      have still :=
        before.keeps (fun other member => each other (List.mem_append_left _ member)) own
      have accepted := ((evaluate_keeps invariant limit form).run still).2.2
      rwa [ran] at accepted

end

/-! ## Running a source -/

namespace Session

/-- What running the tokens of a lexer comes to: a result, a text written and the session after
it. -/
inductive RunsTo (session : Session) (lexer : Lexer) :
    Except Error Value → String → Session → Prop where
  | succeeds {forms : List Value} {value : Value} {environment : Environment} {written : String}
      (yields : Form.Yields session.limit lexer forms (.parse .emptyInput))
      (ran : Evaluates session.limit ⟨session.environment, ""⟩ forms value ⟨environment, written⟩) :
      RunsTo session lexer (.ok value) written { session with environment := environment }
  | misread {forms : List Value} {cause : Error} {value : Value} {environment : Environment}
      {written : String} (yields : Form.Yields session.limit lexer forms cause)
      (early : cause ≠ .parse .emptyInput)
      (ran : Evaluates session.limit ⟨session.environment, ""⟩ forms value ⟨environment, written⟩) :
      RunsTo session lexer (.error cause) written { session with environment := environment }
  | breaks {forms : List Value} {cause fault : Error} {environment : Environment}
      {written : String} (yields : Form.Yields session.limit lexer forms cause)
      (broken : Breaks session.limit ⟨session.environment, ""⟩ forms fault ⟨environment, written⟩) :
      RunsTo session lexer (.error fault) written { session with environment := environment }

theorem RunsTo.of_outcomes {session next : Session} {lexer other : Lexer}
    {result : Except Error Value} {written : String}
    (ran : session.RunsTo lexer result written next) (same : lexer.outcomes = other.outcomes) :
    session.RunsTo other result written next := by
  cases ran with
  | succeeds yields ran => exact .succeeds (yields.alike Lexer.alike_lexers same) ran
  | misread yields early ran => exact .misread (yields.alike Lexer.alike_lexers same) early ran
  | breaks yields broken => exact .breaks (yields.alike Lexer.alike_lexers same) broken

section

variable {session : Session} {size : Nat} {source : Source}
  (buffered : session.bufferSize = .ok size) (readable : ∀ kind, source ≠ .unreadable kind)
include buffered

theorem eval_eq {result : Except Error Value} {machine : Machine} {strict : Bool}
    (ran : (interpret session.limit size strict source).run ⟨session.environment, ""⟩ =
      (result, machine)) :
    session.eval source strict =
      ⟨result, machine.output, { session with environment := machine.environment }⟩ := by
  rw [eval, buffered]
  simp only [ran]

include readable

theorem runsTo_eval :
    session.RunsTo (Lexer.ofSource size source) (session.eval source true).result
      (session.eval source true).output (session.eval source true).session := by
  obtain ⟨forms, cause, yields⟩ := Form.exists_yields session.limit (Lexer.ofSource size source)
  rcases evaluates_or_breaks session.limit ⟨session.environment, ""⟩ forms with
    ⟨value, machine, ran⟩ | ⟨fault, machine, broken⟩
  · obtain ⟨quiet, loud⟩ := ran.interpret readable yields true
    by_cases ended : cause = .parse .emptyInput
    · rw [eval_eq buffered (quiet (.inl ended))]
      exact .succeeds (ended ▸ yields) ran
    · have strict : ¬ cause.Tolerated true := by
        rintro (same | ⟨impossible, _⟩)
        · exact ended same
        · cases impossible
      rw [eval_eq buffered (loud strict)]
      exact .misread yields ended ran
  · rw [eval_eq buffered (broken.interpret readable yields true)]
    exact .breaks yields broken

/-- A source runs without an error if it consists of tokens that can be read to their end and all
forms succeed. -/
theorem eval_eq_ok_iff {after : Session} {value : Value} {written : String} :
    session.eval source true = ⟨.ok value, written, after⟩ ↔
      ∃ (tokens : List Token) (forms : List Value) (environment : Environment),
        (Lexer.ofSource size source).outcomes = tokens.map .ok ∧
        Form.Yields session.limit tokens forms (.parse .emptyInput) ∧
        Evaluates session.limit ⟨session.environment, ""⟩ forms value ⟨environment, written⟩ ∧
        after = { session with environment := environment } := by
  constructor
  · intro same
    have ran := runsTo_eval buffered readable
    rw [same] at ran
    cases ran with
    | @succeeds forms _ environment _ yields ran =>
        obtain ⟨tokens, given⟩ := Lexer.exists_tokens_of_yields yields
        exact ⟨tokens, forms, environment, given, (Lexer.yields_iff_of_outcomes given).mp yields,
          ran, rfl⟩
  · rintro ⟨tokens, forms, environment, given, yields, ran, rfl⟩
    have quiet := (ran.interpret readable ((Lexer.yields_iff_of_outcomes given).mpr yields) true).1
    exact eval_eq buffered (quiet (.inl rfl))

end

end Session

/-! ## The errors of a session -/

/-- An error of the language, or of a number that cannot be represented. -/
def Error.IsReportedOrNumeric (cause : Error) : Prop :=
  cause.isReported = true ∨ ∃ fault, cause = .numeric fault

theorem Error.isReportedOrNumeric_of_runtime {cause : Error} (runtime : cause.isRuntime = true) :
    cause.IsReportedOrNumeric := by
  cases cause with
  | evaluation cause => exact .inl rfl
  | numeric fault => exact .inr ⟨fault, rfl⟩
  | _ => cases runtime

namespace Form

variable {σ : Type} [TokenSource σ] {limit : Nat} {source rest : σ} {cause : Error}

theorem isReported_of_readFrom {reading : Reading}
    (failed : readFrom limit reading source = (.error cause, rest)) : cause.isReported = true := by
  fun_induction readFrom limit reading source with
  | case1 =>
      cases failed
      rfl
  | case2 =>
      cases failed
      rfl
  | case3 =>
      cases failed
      rfl
  | case4 => cases failed
  | case5 =>
      cases failed
      rfl
  | case6 reading source token after step next fed within ih => exact ih failed

theorem isReportedOrNumeric_of_read (failed : read limit source = (.error cause, rest)) :
    cause.IsReportedOrNumeric := by
  rcases read_eq_error_iff.mp failed with misread | ⟨value, _, refused⟩
  · exact .inl (isReported_of_readFrom misread)
  · exact Error.isReportedOrNumeric_of_runtime (Value.runtime_shown limit value cause refused)

end Form

/-- Running a source in a session and printing its value fail only with errors of the language and
of numbers. -/
theorem Session.RunsTo.isReportedOrNumeric {session next : Session} {lexer : Lexer}
    {result : Except Error Value} {written : String} {cause : Error}
    (ran : session.RunsTo lexer result written next) (reachable : session.Reachable)
    (failed : (result >>= Value.shown session.limit) = .error cause) :
    cause.IsReportedOrNumeric := by
  have sound : session.environment.All Invariant.sound.valid := reachable.all Form.closed_sound
  rcases Result.bind_eq_error_iff.mp failed with own | ⟨value, _, refused⟩
  · cases ran with
    | succeeds yields ran => cases own
    | misread yields early ran =>
        cases own
        obtain ⟨here, rest, step⟩ := yields.exists_read_error
        exact Form.isReportedOrNumeric_of_read step
    | @breaks forms _ fault _ _ yields broken =>
        cases own
        have each : ∀ form ∈ forms, Invariant.sound.valid form := by
          intro form member
          obtain ⟨here, rest, step⟩ := yields.exists_read form member
          exact Form.read_holds Form.closed_sound step
        exact Error.isReportedOrNumeric_of_runtime (broken.allowed each sound)
  · exact Error.isReportedOrNumeric_of_runtime (Value.runtime_shown _ value cause refused)

end ConsLisp
