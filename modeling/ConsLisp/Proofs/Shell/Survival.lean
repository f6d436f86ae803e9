import ConsLisp.Proofs.Session.Sources
import ConsLisp.Proofs.Shell.Submissions

/-!
# What ends the loop early

The read-eval-print loop reports the errors of the language and goes on with whatever the failing
submission had done.  Three things end it before its input does: a number that cannot be
represented, a setting for reads that cannot be used, and a line that cannot be encoded.
-/

namespace ConsLisp

/-- The loop has run submissions one after the other, each in the session that the one before it
left, shown these events and come to another session. -/
inductive Processed : Session → List String → List Event → Session → Prop where
  | none {session : Session} : Processed session [] [] session
  | skipped {session after : Session} {text : String} {texts : List String} {events : List Event}
      (blank : (Text.strip text).isEmpty = true) (later : Processed session texts events after) :
      Processed session (text :: texts) events after
  | answered {session next after : Session} {text written shown : String} {texts : List String}
      {events : List Event} {value : Value} (kept : ¬ (Text.strip text).isEmpty = true)
      (ran : session.RunsTo (Lexer.ofText text) (.ok value) written next)
      (printed : value.shown session.limit = .ok shown)
      (later : Processed next texts events after) :
      Processed session (text :: texts) (.output written :: .output (shown ++ "\n") :: events) after
  | reported {session next after : Session} {text written : String} {texts : List String}
      {events : List Event} {result : Except Error Value} {cause : Error}
      (kept : ¬ (Text.strip text).isEmpty = true)
      (ran : session.RunsTo (Lexer.ofText text) result written next)
      (failed : (result >>= Value.shown session.limit) = .error cause)
      (known : cause.isReported = true) (later : Processed next texts events after) :
      Processed session (text :: texts)
        (.output written :: .report ("Error: " ++ cause.message ++ "\n") :: events) after

/-- A number that cannot be represented makes running a submission or printing its value fail. -/
def NumberFails (session : Session) (text written : String) (fault : NumericError) : Prop :=
  ¬ (Text.strip text).isEmpty = true ∧ ∃ result next,
    session.RunsTo (Lexer.ofText text) result written next ∧
      (result >>= Value.shown session.limit) = .error (.numeric fault)

namespace Input

/-- The lines up to the first input that is something else. -/
def leadingLines : List Input → List String
  | .line text :: inputs => text :: leadingLines inputs
  | _ => []

/-- Where nothing is interrupted, the first other input is a line that cannot be encoded. -/
theorem exists_eq_leadingLines_append {inputs : List Input} (typed : .interrupt ∉ inputs) :
    ∃ rest, inputs = (leadingLines inputs).map .line ++ rest ∧
      (rest = [] ∨ ∃ text others, rest = .garbled text :: others) := by
  induction inputs with
  | nil => exact ⟨[], rfl, .inl rfl⟩
  | cons input inputs ih =>
      cases input with
      | interrupt => exact absurd List.mem_cons_self typed
      | garbled text => exact ⟨_, rfl, .inr ⟨text, inputs, rfl⟩⟩
      | line line =>
          obtain ⟨rest, split, ends⟩ := ih fun member => typed (List.mem_cons_of_mem _ member)
          exact ⟨rest, congrArg (.line line :: ·) split, ends⟩

end Input

namespace Repl

theorem runsTo_text {session : Session} {size : Nat} (buffered : session.bufferSize = .ok size)
    (text : String) :
    session.RunsTo (Lexer.ofText text) (session.eval (.text text) true).result
      (session.eval (.text text) true).output (session.eval (.text text) true).session := by
  refine (Session.runsTo_eval buffered (by simp)).of_outcomes ?_
  rw [Lexer.ofText, Lexer.outcomes_text, Lexer.outcomes_text]

/-- Submissions are all processed, or they are up to one in which a number fails. -/
def ProcessedOrStopped (session : Session) (texts : List String) : Prop :=
  (∃ events after, Processed session texts events after ∧
    submitAll session texts = (events, .ok after)) ∨
  ∃ before text others events middle written fault, texts = before ++ text :: others ∧
    Processed session before events middle ∧ NumberFails middle text written fault ∧
    submitAll session texts = (events ++ [.output written], .error (.numeric fault))

/-- A submission that does not end the loop comes before whatever happens later. -/
theorem ProcessedOrStopped.cons {session : Session} {text : String} {texts : List String}
    {first : List Event} {next : Repl} (submitted : submit session text = (first, .ok next))
    (extend : ∀ {texts events after}, Processed next.session texts events after →
      Processed session (text :: texts) (first ++ events) after)
    (later : ProcessedOrStopped next.session texts) :
    ProcessedOrStopped session (text :: texts) := by
  have whole := @submitAll_of_ok session text texts first next submitted
  rcases later with ⟨events, after, processed, same⟩ |
    ⟨before, other, others, events, middle, written, fault, rfl, processed, fails, same⟩
  · rw [same] at whole
    exact .inl ⟨first ++ events, after, extend processed, whole⟩
  · rw [same, ← List.append_assoc] at whole
    exact .inr ⟨text :: before, other, others, first ++ events, middle, written, fault, rfl,
      extend processed, fails, whole⟩

theorem processedOrStopped {session : Session} (reachable : session.Reachable) {size : Nat}
    (buffered : session.bufferSize = .ok size) (texts : List String) :
    ProcessedOrStopped session texts := by
  induction texts generalizing session with
  | nil => exact .inl ⟨[], session, .none, rfl⟩
  | cons text texts ih =>
      have ran := runsTo_text buffered text
      have later := ih (reachable.eval (.text text) true)
        ((session.eval_bufferSize _ _).trans buffered)
      have submitted := submitted_submit session text
      rcases given : submit session text with ⟨first, ending⟩
      rw [given] at submitted
      cases submitted with
      | blank skipped => exact .cons given (.skipped skipped) (ih reachable buffered)
      | answered kept shown =>
          obtain ⟨value, result, printed⟩ := Result.bind_eq_ok_iff.mp shown
          rw [result] at ran
          exact .cons given (.answered kept ran printed) later
      | reported kept failed known => exact .cons given (.reported kept ran failed known) later
      | @ended cause kept failed unknown =>
          obtain known | ⟨fault, rfl⟩ := ran.isReportedOrNumeric reachable failed
          · exact absurd known unknown
          · exact .inr ⟨[], text, texts, [], session, _, fault, rfl, .none,
              ⟨kept, _, _, ran, failed⟩, submitAll_of_error given⟩

/-- The submissions of the lines are processed up to one in which a number fails, and that ends the
loop. -/
def StopsAtNumber (session : Session) (lines : List String)
    (ran : List Event × Except Error Session) : Prop :=
  ∃ before text others events middle written fault,
    (submissions lines).1 = before ++ text :: others ∧ Processed session before events middle ∧
    NumberFails middle text written fault ∧ ran.2 = .error (.numeric fault) ∧
    ran.1.filter (!·.isPrompt) = events ++ [.output written]

/-- The setting for reads cannot be used, and so the loop ends at the first of the lines. -/
def StopsAtSetting (session : Session) (lines : List String)
    (ran : List Event × Except Error Session) : Prop :=
  ∃ cause, session.bufferSize = .error cause ∧ lines ≠ [] ∧ ran = ([.prompt "* "], .error cause)

/-- The loop ends at a number or a setting, or it processes all submissions of its lines and goes on
with the inputs after them. -/
theorem run_lines_append_cases {session : Session} (reachable : session.Reachable)
    (lines : List String) (inputs : List Input) :
    let ran := run { session } (lines.map .line ++ inputs)
    (∃ events after, Processed session (submissions lines).1 events after ∧
      let later := run ⟨after, (submissions lines).2⟩ inputs
      ran.1.filter (!·.isPrompt) = events ++ later.1.filter (!·.isPrompt) ∧ ran.2 = later.2 ∧
        ran.1.countP Event.isPrompt = lines.length + later.1.countP Event.isPrompt) ∨
    StopsAtNumber session lines ran ∨ StopsAtSetting session lines ran := by
  intro ran
  cases buffered : session.bufferSize with
  | error cause =>
      cases lines with
      -- Without a line the setting is never looked at.
      | nil => exact .inl ⟨[], session, .none, rfl, rfl, (Nat.zero_add _).symm⟩
      | cons line lines =>
          have stepped := step_line_of_error buffered none line
          exact .inr (.inr ⟨cause, buffered, List.cons_ne_nil _ _, run_of_step_error stepped⟩)
  | ok size =>
      obtain ⟨failed, finished⟩ := run_lines_append buffered none lines inputs
      rcases processedOrStopped reachable buffered (submissions lines).1 with
        ⟨events, after, processed, same⟩ |
        ⟨before, text, others, events, middle, written, fault, cut, processed, fails, same⟩
      · rw [same] at finished
        exact .inl ⟨events, after, processed, finished after rfl⟩
      · rw [same] at failed
        obtain ⟨shown, ended⟩ := failed (.numeric fault) rfl
        exact .inr (.inl ⟨before, text, others, events, middle, written, fault, cut, processed,
          fails, ended, shown⟩)

/-- A line that cannot be encoded ends the loop, whatever its settings are. -/
theorem run_garbled (repl : Repl) (text : Text.Garbled) (inputs : List Input) :
    run repl (.garbled text :: inputs) =
      ([.prompt repl.prompt], .error (.encoding (text.error repl.offset))) :=
  run_of_step_error rfl

/-! ## A submission that fails -/

namespace Unbound

/-- Binds one name and uses another one that is not bound. -/
def text : String :=
  "(setq y t) x"

def tokens : List Token :=
  [.parenLeft, .symbol "setq", .symbol "y", .symbol "t", .parenRight, .symbol "x"]

def binding : Value :=
  .list [.symbol "SETQ", .symbol "Y", .truth] .nil

/-- The session in which the name is bound. -/
def session : Session :=
  { environment := Environment.initial.defineGlobal "Y" .truth }

theorem yields_tokens :
    Form.Yields 1000 tokens [binding, .symbol "X"] (.parse .emptyInput) := by
  have first : Form.read 1000 tokens = (.ok binding, [.symbol "x"]) := by
    simp only [tokens, Form.read, Form.readFrom, TokenSource.next]
    rfl
  have second : Form.read 1000 [Token.symbol "x"] = (.ok (.symbol "X"), []) := by
    simp only [Form.read, Form.readFrom, TokenSource.next]
    rfl
  have after := Form.yields_cons_iff.mpr ⟨_, second, Form.yields_nil 1000⟩
  exact Form.yields_cons_iff.mpr ⟨_, first, after⟩

theorem eval_text : Session.eval {} (.text text) true =
    ⟨.error (.evaluation (.unboundVariable "X")), "", session⟩ := by
  have lexed : (Lexer.ofSource Source.defaultBufferSize (.text text)).outcomes =
      tokens.map .ok := by
    rw [Lexer.outcomes_text]
    rfl
  have yields := (Lexer.yields_iff_of_outcomes lexed).mpr yields_tokens
  have bound : Evaluates 1000 ⟨.initial, ""⟩ [binding] .truth ⟨session.environment, ""⟩ :=
    .next .none rfl
  have broken : Breaks 1000 ⟨.initial, ""⟩ [binding, .symbol "X"]
      (.evaluation (.unboundVariable "X")) ⟨session.environment, ""⟩ := .fails bound rfl []
  rw [Session.eval_eq rfl (broken.interpret (by simp) yields true)]
  rfl

theorem eval_name : session.eval (.text "y") true = ⟨.ok .truth, "", session⟩ := by
  have derived : Form.Derives 1000 [.symbol "y"] (.symbol "Y") :=
    .atom (.symbol (by decide) (by decide))
  refine (Session.eval_eq_ok_iff rfl (by simp)).mpr
    ⟨_, _, session.environment, ?_, derived.yields ⟨_, rfl⟩, .next .none rfl, rfl⟩
  rw [Lexer.outcomes_text]
  rfl

def events : List Event :=
  [.output "", .report "Error: Unbound variable X\n", .output "", .output "T\n"]

theorem submitAll_lines : submitAll {} [text, "y"] = (events, .ok session) := by
  have first : submit {} text =
      ([.output "", .report "Error: Unbound variable X\n"], .ok { session }) := by
    rw [submit, eval_text]
    rfl
  have second : submit session "y" = ([.output "", .output "T\n"], .ok { session }) := by
    rw [submit, eval_name]
    rfl
  rw [submitAll_of_ok first, submitAll_of_ok second]
  rfl

end Unbound

/-! ## How the loop ends -/

/-- The loop asks for all its lines and reports every error of the language, or it stops at a number
that cannot be represented, a setting that cannot be used or a line that cannot be encoded.  Either
all lines can be encoded and all submissions are processed, each of them in the session that the one
before it left, whether that failed or not, and the loop asks once for each line and once more for
the end; or they are so up to one whose evaluation or printing fails for a number, and that error
ends the loop; or the session cannot read at all; or all submissions before a line that cannot be
encoded are processed, and the loop ends when it gets that line. -/
theorem run_ends_early_only_for_numbers_settings_or_surrogates {session : Session}
    (reachable : session.Reachable) {inputs : List Input} (typed : .interrupt ∉ inputs) :
    let lines := Input.leadingLines inputs
    let ran := run { session } inputs
    (∃ events after, inputs = lines.map .line ∧
      Processed session (submissions lines).1 events after ∧ ran.2 = .ok after ∧
      ran.1.filter (!·.isPrompt) = events ++ [.output "\n"] ∧
      ran.1.countP Event.isPrompt = inputs.length + 1) ∨
    StopsAtNumber session lines ran ∨ StopsAtSetting session lines ran ∨
    ∃ text others events after, inputs = lines.map .line ++ .garbled text :: others ∧
      Processed session (submissions lines).1 events after ∧
      ran.2 = .error (.encoding (text.error (offset ⟨after, (submissions lines).2⟩))) ∧
      ran.1.filter (!·.isPrompt) = events ∧
      ran.1.countP Event.isPrompt = lines.length + 1 := by
  intro lines ran
  obtain ⟨rest, split, ends⟩ := Input.exists_eq_leadingLines_append typed
  have whole : run { session } (lines.map .line ++ rest) = ran := by
    rw [← split]
  have outcomes := run_lines_append_cases reachable lines rest
  rw [whole] at outcomes
  rcases outcomes with ⟨events, after, processed, shown, ended, asked⟩ | number | setting
  · rcases ends with rfl | ⟨text, others, rfl⟩
    · rw [List.append_nil] at split
      have count : inputs.length = lines.length := by
        rw [split, List.length_map]
      rw [count]
      exact .inl ⟨events, after, split, processed, ended, shown, asked⟩
    · rw [run_garbled] at shown ended asked
      exact .inr (.inr (.inr ⟨text, others, events, after, split, processed, ended,
        shown.trans (List.append_nil events), asked⟩))
  · exact .inr (.inl number)
  · exact .inr (.inr (.inl setting))

/-- A submission that fails after it has bound a name, and another one that uses the name. -/
theorem run_ends_early_only_for_numbers_settings_or_surrogates_unbound :
    let session : Session := {}
    let inputs : List Input := [.line "(setq y t) x", .line "y"]
    let ran := run { session } inputs
    session.Reachable ∧ .interrupt ∉ inputs ∧ ∃ after,
      Processed session ["(setq y t) x", "y"]
        [.output "", .report "Error: Unbound variable X\n", .output "", .output "T\n"] after ∧
      ran.2 = .ok after ∧
      ran.1.filter (!·.isPrompt) =
        [.output "", .report "Error: Unbound variable X\n", .output "", .output "T\n",
          .output "\n"] ∧
      ran.1.countP Event.isPrompt = 3 := by
  intro session inputs ran
  have reachable : session.Reachable := .fresh defaultLimit _
  have typed : .interrupt ∉ inputs := by simp [inputs]
  have cut : submissionsFrom none [Unbound.text, "y"] = ([Unbound.text, "y"], none) := by
    simp only [submissionsFrom, continued, needsMoreInput_eq]
    rfl
  obtain ⟨shown, ended⟩ := run_lines (show session.bufferSize = .ok _ from rfl) none
    [Unbound.text, "y"]
  rw [cut, Unbound.submitAll_lines] at shown ended
  refine ⟨reachable, typed, ?_⟩
  rcases run_ends_early_only_for_numbers_settings_or_surrogates reachable typed with
    ⟨events, after, _, processed, finished, same, asked⟩ |
    ⟨_, _, _, _, _, _, _, _, _, _, stopped, _⟩ | ⟨_, unusable, _⟩ |
    ⟨_, _, _, _, _, _, stopped, _⟩
  · have own : events = Unbound.events := List.append_cancel_right (same.symm.trans shown)
    rw [own] at processed
    have lines : (submissions (Input.leadingLines inputs)).1 = [Unbound.text, "y"] :=
      congrArg Prod.fst cut
    rw [lines] at processed
    exact ⟨after, processed, finished, shown, asked⟩
  · cases ended.symm.trans stopped
  · cases unusable
  · cases ended.symm.trans stopped

/-! ## A number that cannot be represented -/

namespace Overflow

/-- Squares a number until it is infinite and asks for its remainder. -/
def text : String :=
  "(defun f (x) (* x x)) (mod (f (f (f (f (f 999999999999999999.))))) 1.)"

def squaring : Value :=
  .list [.symbol "DEFUN", .symbol "F", .list [.symbol "X"] .nil,
    .list [.symbol "*", .symbol "X", .symbol "X"] .nil] .nil

/-- Applies the function so many times. -/
def squared (value : Value) : Nat → Value
  | 0 => value
  | times + 1 => .list [.symbol "F", squared value times] .nil

def large : Float :=
  Number.Binary.nearest false 999999999999999999 1

def one : Float :=
  Number.Binary.nearest false 1 1

def remainder : Value :=
  .list [.symbol "MOD", squared (.float large) 5, .float one] .nil

def squaringTokens : List Token :=
  [.parenLeft, .symbol "defun", .symbol "f", .parenLeft, .symbol "x", .parenRight, .parenLeft,
    .symbol "*", .symbol "x", .symbol "x", .parenRight, .parenRight]

def remainderTokens : List Token :=
  [.parenLeft, .symbol "mod", .parenLeft, .symbol "f", .parenLeft, .symbol "f", .parenLeft,
    .symbol "f", .parenLeft, .symbol "f", .parenLeft, .symbol "f", .float large, .parenRight,
    .parenRight, .parenRight, .parenRight, .parenRight, .float one, .parenRight]

theorem lex_text :
    Alphabet.characters.lex text.toList = (squaringTokens ++ remainderTokens).map .ok :=
  rfl

theorem yields_text : Form.Yields 1000 (squaringTokens ++ remainderTokens) [squaring, remainder]
    (.parse .emptyInput) := by
  have first : Form.read 1000 squaringTokens = (.ok squaring, []) := by
    simp only [squaringTokens, Form.read, Form.readFrom, TokenSource.next]
    rfl
  have second : Form.read 1000 remainderTokens = (.ok remainder, []) := by
    simp only [remainderTokens, Form.read, Form.readFrom, TokenSource.next]
    rfl
  have before := Form.yields_cons_iff.mpr ⟨[], first, Form.yields_nil 1000⟩
  have after := Form.yields_cons_iff.mpr ⟨[], second, Form.yields_nil 1000⟩
  exact before.append after

def isRemainderDomain : Except Error Value → Bool
  | .error (.numeric .remainderDomain) => true
  | _ => false

theorem eq_of_isRemainderDomain {result : Except Error Value}
    (same : isRemainderDomain result = true) : result = .error (.numeric .remainderDomain) := by
  unfold isRemainderDomain at same
  split at same
  · rfl
  · cases same

/-- The machine after the first form. -/
def defined : Machine :=
  ((evaluate 1000 squaring).run ⟨.initial, ""⟩).2

theorem evaluate_remainder :
    ((evaluate 1000 remainder).run defined).1 = .error (.numeric .remainderDomain) :=
  eq_of_isRemainderDomain (by decide +kernel)

theorem result_eval :
    (Session.eval {} (.text text) true).result = .error (.numeric .remainderDomain) := by
  have ran : (evaluate 1000 remainder).run defined =
      (.error (.numeric .remainderDomain), ((evaluate 1000 remainder).run defined).2) := by
    rw [← evaluate_remainder]
  have before : Evaluates 1000 ⟨.initial, ""⟩ [squaring] (.symbol "F") defined := .next .none rfl
  have broken := Breaks.fails before ran []
  have lexed : (Lexer.ofSource Source.defaultBufferSize (.text text)).outcomes =
      (squaringTokens ++ remainderTokens).map .ok := by
    rw [Lexer.outcomes_text, lex_text]
  have yields := (Lexer.yields_iff_of_outcomes lexed).mpr yields_text
  rw [Session.eval_eq rfl (broken.interpret (by simp) yields true)]

end Overflow

/-- The remainder of an infinite number ends the loop although there is another line. -/
theorem run_stops_at_remainder :
    let ran := run { session := {} } [.line Overflow.text, .line "1"]
    ran.2 = .error (.numeric .remainderDomain) ∧ ran.1.countP Event.isPrompt = 1 := by
  intro ran
  have complete : ¬ needsMoreInput Overflow.text = true := by
    rw [needsMoreInput_eq, Overflow.lex_text]
    exact Bool.false_ne_true
  have kept : ¬ (Text.strip Overflow.text).isEmpty = true := by
    decide +kernel
  have shown : answer defaultLimit (Session.eval {} (.text Overflow.text) true).result =
      .error (.numeric .remainderDomain) := by
    rw [Overflow.result_eval]
    rfl
  have stepped : step { session := {} } (.line Overflow.text) =
      ([.output (Session.eval {} (.text Overflow.text) true).output],
        .error (.numeric .remainderDomain)) := by
    have alone : continued none Overflow.text = Overflow.text := rfl
    rw [step_line rfl, alone, if_neg complete, submit, if_neg kept]
    simp only [shown]
  have ended := @run_of_step_error _ _ [.line "1"] _ _ stepped
  exact ⟨congrArg Prod.snd ended, congrArg (fun run => run.1.countP Event.isPrompt) ended⟩

end Repl

end ConsLisp
