import ConsLisp.Proofs.Evaluation.Output
import ConsLisp.Proofs.Session.Sources
import ConsLisp.Proofs.Shell.Submissions

/-!
# Typing a program and loading it

A program that runs without errors at the read-eval-print loop does the same when it is loaded from
a file: where a submission ends, a line ends outside of strings, and nothing that was read before it
matters to what is read after it.
-/

namespace ConsLisp

open Text.Utf8

/-! ## The ends of submissions -/

/-- Whether a text ends in a backslash that has nothing to escape. -/
def endsEscaping (text : String) : Bool :=
  (Scan.start.lexemes Alphabet.characters.role text.toList).2.escaping

/-- A text after which a new line starts afresh. -/
def EndsLine (text : String) : Prop :=
  (Scan.start.lexemes Alphabet.characters.role text.toList).2.AtLineEnd

/-- A text that ends inside a string ends in an error. -/
theorem Alphabet.exists_error_of_inside {α : Type} {alphabet : Alphabet α} {symbols : List α}
    {alone : Bool}
    (inside : (Scan.start.lexemes alphabet.role symbols).2.mode = .string alone) :
    ∃ cause, .error cause ∈ alphabet.lex symbols := by
  have last : alphabet.ended (Scan.start.lexemes alphabet.role symbols).2 =
      [.error (.unterminatedString
        (alphabet.text (Scan.start.lexemes alphabet.role symbols).2.pending.reverse))] := by
    simp only [ended, Scan.ending, inside]
  exact ⟨_, List.mem_append_right _ (last ▸ List.mem_cons_self)⟩

theorem endsLine_of_tokens {text : String} {tokens : List Token}
    (lexed : Alphabet.characters.lex text.toList = tokens.map .ok)
    (plain : endsEscaping text = false) : EndsLine text := by
  refine ⟨fun alone inside => ?_, plain⟩
  obtain ⟨cause, member⟩ := Alphabet.exists_error_of_inside inside
  have among : .error cause ∈ tokens.map (Except.ok : Token → Except LexicalError Token) :=
    lexed ▸ member
  obtain ⟨token, _, impossible⟩ := List.mem_map.mp among
  cases impossible

/-- The characters that separate words. -/
def spaces : List Char := [' ', '\t', '\r', '\n']

theorem lexemes_of_spaces {chars : List Char} (blank : ∀ char ∈ chars, char ∈ spaces) :
    Scan.start.lexemes Alphabet.characters.role chars = ([], Scan.start) := by
  induction chars with
  | nil => rfl
  | cons char chars ih =>
      have skipped : Scan.start.advance (Alphabet.characters.role char) char =
          ([], Scan.start) := by
        have own := blank char List.mem_cons_self
        simp only [spaces, List.mem_cons, List.not_mem_nil, or_false] at own
        rcases own with rfl | rfl | rfl | rfl <;> rfl
      rw [Scan.lexemes, skipped, ih fun other member => blank other (List.mem_cons_of_mem _ member)]
      rfl

theorem lex_of_spaces {chars : List Char} (blank : ∀ char ∈ chars, char ∈ spaces) :
    Alphabet.characters.lex chars = [] := by
  rw [Alphabet.lex, lexemes_of_spaces blank]
  rfl

theorem endsLine_of_spaces {text : String} (blank : ∀ char ∈ text.toList, char ∈ spaces) :
    EndsLine text := by
  rw [EndsLine, lexemes_of_spaces blank]
  exact ⟨nofun, rfl⟩

/-- Texts on lines of their own are lexed one by one. -/
theorem lex_intercalate {texts : List String} (each : ∀ text ∈ texts, EndsLine text) :
    Alphabet.characters.lex ("\n".intercalate texts).toList =
      texts.flatMap fun text => Alphabet.characters.lex text.toList := by
  induction texts with
  | nil => rfl
  | cons text texts ih =>
      have later := ih fun other member => each other (List.mem_cons_of_mem _ member)
      cases texts with
      | nil => simp
      | cons second others =>
          have chars : ("\n".intercalate (text :: second :: others)).toList =
              text.toList ++ '\n' :: ("\n".intercalate (second :: others)).toList := by
            simp [String.intercalate_cons_cons]
          have newline : Alphabet.characters.role '\n' = .newline := rfl
          rw [chars, Alphabet.lex_append_newline newline (each text List.mem_cons_self), later]
          rfl

/-! ## Answers -/

/-- What came of a submission that was not skipped. -/
structure Answer where
  forms : List Value
  value : Value
  /-- What its evaluation wrote. -/
  written : String
  /-- The text of its value. -/
  shown : String

namespace Answer

def events (answer : Answer) : List Event :=
  [.output answer.written, .output (answer.shown ++ "\n")]

/-- The value of the last submission that held a form, or NIL if none did. -/
def lastValue (answers : List Answer) : Value :=
  ((answers.filter fun answer => !answer.forms.isEmpty).getLast?.map value).getD .nil

theorem lastValue_cons (answer : Answer) (answers : List Answer) :
    lastValue (answer :: answers) =
      if answers.all (·.forms.isEmpty) then
        if answer.forms.isEmpty then .nil else answer.value
      else lastValue answers := by
  unfold lastValue
  rw [List.filter_cons]
  cases held : answers.filter fun answer => !answer.forms.isEmpty with
  | nil =>
      have none : answers.all (·.forms.isEmpty) = true := by
        simpa [List.filter_eq_nil_iff] using held
      rw [none]
      cases answer.forms <;> rfl
  | cons other others =>
      have some : answers.all (·.forms.isEmpty) = false := by
        rw [← Bool.not_eq_true]
        intro all
        have empty : (answers.filter fun answer => !answer.forms.isEmpty) = [] := by
          simpa [List.filter_eq_nil_iff] using all
        cases held.symm.trans empty
      rw [some]
      cases answer.forms <;> simp

/-- All that evaluation wrote. -/
def allWritten (answers : List Answer) : String :=
  String.join (answers.map written)

end Answer

/-- Running submissions one after the other in a session gives these answers and leads to another
session.  Blank submissions are skipped. -/
inductive Answers : Session → List String → List Answer → Session → Prop where
  | none {session : Session} : Answers session [] [] session
  | skipped {session after : Session} {text : String} {texts : List String} {answers : List Answer}
      (blank : (Text.strip text).isEmpty = true) (later : Answers session texts answers after) :
      Answers session (text :: texts) answers after
  | ran {session next after : Session} {text : String} {texts : List String}
      {answers : List Answer} {answer : Answer} (kept : ¬ (Text.strip text).isEmpty = true)
      (read : (Form.readAll session.limit (Lexer.ofText text)).1 = .ok answer.forms)
      (evaluated : session.eval (.text text) true = ⟨.ok answer.value, answer.written, next⟩)
      (printed : answer.value.shown session.limit = .ok answer.shown)
      (later : Answers next texts answers after) :
      Answers session (text :: texts) (answer :: answers) after

/-- Submissions that run without a report are answered. -/
theorem exists_answers {session after : Session} {size : Nat} {texts : List String}
    {events : List Event} (buffered : session.bufferSize = .ok size)
    (ran : Repl.submitAll session texts = (events, .ok after))
    (clean : ∀ text, .report text ∉ events) :
    ∃ answers, Answers session texts answers after ∧ events = answers.flatMap Answer.events := by
  induction texts generalizing session events with
  | nil =>
      cases ran
      exact ⟨[], .none, rfl⟩
  | cons text texts ih =>
      have submitted := Repl.submitted_submit session text
      rcases given : Repl.submit session text with ⟨first, cause | next⟩
      · rw [Repl.submitAll_of_error given] at ran
        cases ran
      rw [given] at submitted
      rw [Repl.submitAll_of_ok given] at ran
      cases rest : Repl.submitAll next.session texts with
      | mk others ending =>
          rw [rest] at ran
          cases ran
          obtain ⟨answers, later, rfl⟩ := ih (submitted.of_ok.2.trans buffered) rest
            fun text member => clean text (List.mem_append_right first member)
          cases submitted with
          | blank skipped => exact ⟨answers, .skipped skipped later, rfl⟩
          | @reported cause kept failed known =>
              exact absurd (by simp) (clean ("Error: " ++ cause.message ++ "\n"))
          | @answered shown kept shownToo =>
              obtain ⟨value, result, printed⟩ := Result.bind_eq_ok_iff.mp shownToo
              have evaluated : session.eval (.text text) true =
                  ⟨.ok value, (session.eval (.text text) true).output,
                    (session.eval (.text text) true).session⟩ := by
                rw [← result]
              obtain ⟨tokens, forms, _, lexed, yields, _⟩ :=
                (Session.eval_eq_ok_iff buffered (by simp)).mp evaluated
              rw [Lexer.outcomes_text] at lexed
              have again : (Lexer.ofText text).outcomes = tokens.map .ok :=
                (Lexer.outcomes_text _ text).trans lexed
              have read := ((Lexer.yields_iff_of_outcomes again).mpr yields).readAll.1 rfl
              exact ⟨⟨forms, value, _, shown⟩ :: answers,
                .ran kept read evaluated printed later, rfl⟩

/-- What submissions on lines of their own amount to, taken together. -/
structure Together (session : Session) (texts : List String) (answers : List Answer)
    (after : Session) (tokens : List Token) (forms : List Value) : Prop where
  endsLine : ∀ text ∈ texts, EndsLine text
  lexed : (texts.flatMap fun text => Alphabet.characters.lex text.toList) = tokens.map .ok
  yields : Form.Yields session.limit tokens forms (.parse .emptyInput)
  evaluates : Evaluates session.limit ⟨session.environment, ""⟩ forms (Answer.lastValue answers)
    ⟨after.environment, Answer.allWritten answers⟩
  kept : after = { session with environment := after.environment }
  isEmpty_iff : forms.isEmpty = answers.all (·.forms.isEmpty)

theorem Answers.together {session after : Session} {size : Nat} {texts : List String}
    {answers : List Answer} (answered : Answers session texts answers after)
    (buffered : session.bufferSize = .ok size)
    (settled : ∀ text ∈ texts, endsEscaping text = false)
    (spaced : ∀ text ∈ texts, (Text.strip text).isEmpty = true →
      ∀ char ∈ text.toList, char ∈ spaces) :
    ∃ tokens forms, Together session texts answers after tokens forms := by
  induction answered with
  | none => exact ⟨[], [], nofun, rfl, Form.yields_nil _, .none, rfl, rfl⟩
  | @skipped session after text texts answers blank later ih =>
      obtain ⟨tokens, forms, whole⟩ := ih buffered
        (fun other member => settled other (List.mem_cons_of_mem _ member))
        fun other member => spaced other (List.mem_cons_of_mem _ member)
      have own := spaced text List.mem_cons_self blank
      refine ⟨tokens, forms, ?_, ?_, whole.yields, whole.evaluates, whole.kept, whole.isEmpty_iff⟩
      · exact List.forall_mem_cons.mpr ⟨endsLine_of_spaces own, whole.endsLine⟩
      · rw [List.flatMap_cons, lex_of_spaces own, whole.lexed, List.nil_append]
  | @ran session next after text texts answers answer kept read evaluated printed later ih =>
      obtain ⟨first, own, environment, lexed, yields, evaluates, rfl⟩ :=
        (Session.eval_eq_ok_iff buffered (by simp)).mp evaluated
      obtain ⟨tokens, forms, whole⟩ := ih buffered
        (fun other member => settled other (List.mem_cons_of_mem _ member))
        fun other member => spaced other (List.mem_cons_of_mem _ member)
      have again : (Lexer.ofText text).outcomes = first.map .ok := by
        rw [Lexer.ofText, Lexer.outcomes_text, ← lexed, Lexer.outcomes_text]
      have alone := ((Lexer.yields_iff_of_outcomes again).mpr yields).readAll.1 rfl
      obtain rfl : answer.forms = own := Except.ok.inj (read.symm.trans alone)
      rw [Lexer.outcomes_text] at lexed
      refine ⟨first ++ tokens, answer.forms ++ forms, ?_, ?_, yields.append whole.yields, ?_,
        whole.kept, ?_⟩
      · exact List.forall_mem_cons.mpr
          ⟨endsLine_of_tokens lexed (settled text List.mem_cons_self), whole.endsLine⟩
      · rw [List.flatMap_cons, lexed, whole.lexed, List.map_append]
      · have rest : Evaluates session.limit ⟨environment, answer.written⟩ forms
            (Answer.lastValue answers)
            ⟨after.environment, answer.written ++ Answer.allWritten answers⟩ := by
          have shifted := whole.evaluates.after answer.written
          rwa [Machine.after, String.append_empty] at shifted
        rw [Answer.allWritten, List.map_cons, String.join_cons, Answer.lastValue_cons,
          ← whole.isEmpty_iff]
        have both := evaluates.append rest
        cases empty : answer.forms.isEmpty with
        | true =>
            rw [evaluates.eq_nil_of_isEmpty empty] at both
            exact both
        | false => exact both
      · rw [List.all_cons, ← whole.isEmpty_iff]
        cases answer.forms <;> rfl

/-- A loop that gets to the end of any line can read. -/
theorem exists_bufferSize {session after : Session} {line : String} {lines : List String}
    {events : List Event}
    (ran : Repl.run { session } ((line :: lines).map .line) = (events, .ok after)) :
    ∃ size, session.bufferSize = .ok size := by
  cases buffered : session.bufferSize with
  | ok size => exact ⟨size, rfl⟩
  | error cause =>
      have stepped := Repl.step_line_of_error buffered none line
      rw [List.map_cons, Repl.run_of_step_error stepped] at ran
      cases ran

/-- A program that is typed at the loop is the same as one that is loaded.  Let lines be submitted
so that nothing is reported and nothing is left over at the end; let no submission end in a
backslash that has nothing to escape, and let those that are skipped consist of spaces, tabs and
ends of lines.  Then loading the lines as one file succeeds and ends in the same session.  Its value
is that of the last submission with a form in it, and it writes what the loop does apart from the
values and the last newline. -/
theorem load_eq_submissions {session after : Session} {lines : List String} {events : List Event}
    (ran : Repl.run { session } (lines.map .line) = (events, .ok after))
    (clean : ∀ text, .report text ∉ events) (whole : (submissions lines).2 = none)
    (settled : ∀ text ∈ (submissions lines).1, endsEscaping text = false)
    (spaced : ∀ text ∈ (submissions lines).1, (Text.strip text).isEmpty = true →
      ∀ char ∈ text.toList, char ∈ spaces)
    (usable : lines = [] → ∃ size, session.bufferSize = .ok size) :
    ∃ answers, Answers session (submissions lines).1 answers after ∧
      events.filter (!·.isPrompt) = answers.flatMap Answer.events ++ [.output "\n"] ∧
      session.load (encode ("\n".intercalate lines)) =
        ⟨.ok (Answer.lastValue answers), Answer.allWritten answers, after⟩ := by
  obtain ⟨size, buffered⟩ : ∃ size, session.bufferSize = .ok size := by
    cases lines with
    | nil => exact usable rfl
    | cons line lines => exact exists_bufferSize ran
  obtain ⟨shown, ended⟩ := Repl.run_lines buffered none lines
  rw [ran] at shown ended
  cases submitted : Repl.submitAll session (submissions lines).1 with
  | mk answered ending =>
      rw [submitted] at shown ended
      cases ended
      have quiet (text : String) : .report text ∉ answered := by
        intro member
        have among : .report text ∈ events.filter (!·.isPrompt) :=
          shown ▸ List.mem_append_left _ member
        exact clean text (List.mem_filter.mp among).1
      obtain ⟨answers, answersToo, rfl⟩ := exists_answers buffered submitted quiet
      obtain ⟨tokens, forms, together⟩ := answersToo.together buffered settled spaced
      refine ⟨answers, answersToo, shown, ?_⟩
      have lexed : (Lexer.ofSource size (.bytes (encode ("\n".intercalate lines)))).outcomes =
          tokens.map .ok := by
        rw [Lexer.outcomes_bytes, ← together.lexed, ← lex_intercalate together.endsLine,
          intercalate_submissionsFrom whole]
        rfl
      exact (Session.eval_eq_ok_iff buffered (by simp)).mpr
        ⟨tokens, forms, after.environment, lexed, together.yields, together.evaluates,
          together.kept⟩

/-- A string on two lines, a comment and a blank line. -/
theorem load_eq_submissions_string :
    let session : Session := { limit := 9 }
    let lines := ["\"a", "b\"", "; c", " "]
    let ran := Repl.run { session } (lines.map .line)
    ran.2 = .ok session ∧ (∀ text, .report text ∉ ran.1) ∧
      ∃ answers, Answers session ["\"a\nb\"", "; c", " "] answers session ∧
        ran.1.filter (!·.isPrompt) = answers.flatMap Answer.events ++ [.output "\n"] ∧
        session.load (encode ("\n".intercalate lines)) =
          ⟨.ok (Answer.lastValue answers), Answer.allWritten answers, session⟩ := by
  intro session lines ran
  have cut : submissions lines = (["\"a\nb\"", "; c", " "], none) := by
    simp only [lines, submissions, submissionsFrom, continued, needsMoreInput_eq]
    rfl
  have string : session.eval (.text "\"a\nb\"") true = ⟨.ok (.string "a\nb"), "", session⟩ := by
    have derived : Form.Derives 9 [.string "a\nb"] (.string "a\nb") := .atom (.string _)
    refine (Session.eval_eq_ok_iff rfl (by simp)).mpr
      ⟨_, _, .initial, ?_, derived.yields ⟨_, rfl⟩, .next .none rfl, rfl⟩
    rw [Lexer.outcomes_text]
    rfl
  have comment : session.eval (.text "; c") true = ⟨.ok .nil, "", session⟩ := by
    refine (Session.eval_eq_ok_iff rfl (by simp)).mpr
      ⟨[], [], .initial, ?_, Form.yields_nil 9, .none, rfl⟩
    rw [Lexer.outcomes_text]
    rfl
  have first : Repl.submit session "\"a\nb\"" =
      ([.output "", .output "\"a\nb\"\n"], .ok { session }) := by
    rw [Repl.submit, string]
    rfl
  have second : Repl.submit session "; c" = ([.output "", .output "NIL\n"], .ok { session }) := by
    rw [Repl.submit, comment]
    rfl
  have third : Repl.submit session " " = ([], .ok { session }) := rfl
  have submitted : Repl.submitAll session (submissions lines).1 =
      ([.output "", .output "\"a\nb\"\n", .output "", .output "NIL\n"], .ok session) := by
    rw [cut, Repl.submitAll_of_ok first, Repl.submitAll_of_ok second, Repl.submitAll_of_ok third]
    rfl
  obtain ⟨shown, ended⟩ := Repl.run_lines (show session.bufferSize = .ok _ from rfl) none lines
  rw [submitted] at shown ended
  have clean (text : String) : .report text ∉ ran.1 := by
    intro member
    have among : .report text ∈ ran.1.filter (!·.isPrompt) := List.mem_filter.mpr ⟨member, rfl⟩
    rw [shown] at among
    simp [Repl.farewell] at among
  refine ⟨ended, clean, ?_⟩
  have loaded := load_eq_submissions (Prod.ext rfl ended) clean (congrArg Prod.snd cut)
  rw [cut] at loaded
  refine loaded ?_ ?_ fun none => absurd none (List.cons_ne_nil _ _)
  · rintro text (_ | ⟨_, _ | ⟨_, _ | ⟨_, ⟨⟩⟩⟩⟩) <;> rfl
  · rintro text (_ | ⟨_, _ | ⟨_, _ | ⟨_, ⟨⟩⟩⟩⟩) blank
    · cases blank
    · cases blank
    · exact List.forall_mem_singleton.mpr List.mem_cons_self

end ConsLisp
