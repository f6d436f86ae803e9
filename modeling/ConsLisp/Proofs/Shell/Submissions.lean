import ConsLisp.Proofs.Token.WholeCharacters
import ConsLisp.Shell.Repl

/-!
# Submissions

How the read-eval-print loop cuts its lines into submissions does not depend on what running them
does.  So the loop is the same as cutting the lines first and then running the submissions one by
one, with a prompt for every line and one more for the end.
-/

namespace ConsLisp

theorem needsMoreInput_eq (text : String) :
    needsMoreInput text = leavesOpen 0 (Alphabet.characters.lex text.toList) := by
  rw [needsMoreInput, Lexer.ofText, Lexer.outcomes_text]

/-- A line after the lines of an unfinished submission, if there is one. -/
def continued (pending : Option String) (line : String) : String :=
  (pending.map fun lines => lines ++ "\n" ++ line).getD line

/-- Cuts lines into submissions, each of them a first line and the lines that are needed to complete
it.  The second part is what is still unfinished when the lines run out. -/
def submissionsFrom : Option String → List String → List String × Option String
  | pending, [] => ([], pending)
  | pending, line :: lines =>
      let text := continued pending line
      if needsMoreInput text then submissionsFrom (some text) lines
      else
        let later := submissionsFrom none lines
        (text :: later.1, later.2)

/-- The submissions of lines from the start. -/
abbrev submissions (lines : List String) : List String × Option String :=
  submissionsFrom none lines

section

variable {pending : Option String} {line : String} {lines : List String}

theorem submissionsFrom_more (more : needsMoreInput (continued pending line) = true) :
    submissionsFrom pending (line :: lines) =
      submissionsFrom (some (continued pending line)) lines := by
  rw [submissionsFrom, if_pos more]

theorem submissionsFrom_complete (complete : ¬ needsMoreInput (continued pending line) = true) :
    submissionsFrom pending (line :: lines) =
      (continued pending line :: (submissions lines).1, (submissions lines).2) := by
  rw [submissionsFrom, if_neg complete]

theorem intercalate_continued (pending : Option String) (line : String) (lines : List String) :
    "\n".intercalate (continued pending line :: lines) =
      "\n".intercalate (pending.toList ++ line :: lines) := by
  cases pending with
  | none => rfl
  | some text =>
      have joined : continued (some text) line = text ++ "\n" ++ line := rfl
      rw [joined, String.intercalate_cons_append]
      exact String.intercalate_cons_cons.symm

/-- Where no line is left over, there is a submission if there is a line. -/
theorem submissionsFrom_ne_nil (whole : (submissionsFrom pending lines).2 = none)
    (nonempty : lines ≠ []) : (submissionsFrom pending lines).1 ≠ [] := by
  induction lines generalizing pending with
  | nil => exact absurd rfl nonempty
  | cons line lines ih =>
      by_cases more : needsMoreInput (continued pending line) = true
      · rw [submissionsFrom_more more] at whole ⊢
        cases lines with
        | nil => cases whole
        | cons second others => exact ih whole (List.cons_ne_nil _ _)
      · rw [submissionsFrom_complete more]
        exact List.cons_ne_nil _ _

/-- Submissions are made of the lines and nothing else. -/
theorem intercalate_submissionsFrom (whole : (submissionsFrom pending lines).2 = none) :
    "\n".intercalate (submissionsFrom pending lines).1 =
      "\n".intercalate (pending.toList ++ lines) := by
  induction lines generalizing pending with
  | nil =>
      obtain rfl : pending = none := whole
      rfl
  | cons line lines ih =>
      rw [← intercalate_continued]
      by_cases more : needsMoreInput (continued pending line) = true
      · rw [submissionsFrom_more more] at whole ⊢
        exact ih whole
      · rw [submissionsFrom_complete more] at whole ⊢
        have later := ih whole
        cases lines with
        | nil => rfl
        | cons second others =>
            have some := submissionsFrom_ne_nil whole (List.cons_ne_nil second others)
            rw [String.intercalate_cons_of_ne_nil some, later]
            exact String.intercalate_cons_cons.symm

end

/-! ## Running submissions -/

def Event.isPrompt : Event → Bool
  | .prompt _ => true
  | _ => false

namespace Session

variable (session : Session) (source : Source) (strict : Bool)

@[simp] theorem eval_limit : (session.eval source strict).session.limit = session.limit := by
  unfold eval
  split <;> rfl

@[simp] theorem eval_bufferSize :
    (session.eval source strict).session.bufferSize = session.bufferSize := by
  unfold eval
  split <;> rfl

end Session

namespace Repl

/-- Runs submissions one after the other, up to the first one that ends the loop. -/
def submitAll (session : Session) : List String → List Event × Except Error Session
  | [] => ([], .ok session)
  | text :: texts =>
      match submit session text with
      | (events, .ok next) =>
          let later := submitAll next.session texts
          (events ++ later.1, later.2)
      | (events, .error cause) => (events, .error cause)

/-- What the loop writes at the end of its input, if it gets there. -/
def farewell : Except Error Session → List Event
  | .ok _ => [.output "\n"]
  | .error _ => []

section

variable {session : Session} {text : String} {texts : List String} {events : List Event}

theorem submitAll_of_ok {next : Repl} (submitted : submit session text = (events, .ok next)) :
    submitAll session (text :: texts) =
      (events ++ (submitAll next.session texts).1, (submitAll next.session texts).2) := by
  rw [submitAll, submitted]

theorem submitAll_of_error {cause : Error}
    (submitted : submit session text = (events, .error cause)) :
    submitAll session (text :: texts) = (events, .error cause) := by
  rw [submitAll, submitted]

end

/-- The text of the value of a submission, or why there is none. -/
def shownValue (session : Session) (text : String) : Except Error String :=
  (session.eval (.text text) true).result >>= Value.shown session.limit

/-- What running a submission may come to. -/
inductive Submitted (session : Session) (text : String) :
    List Event → Except Error Repl → Prop where
  | blank (skipped : (Text.strip text).isEmpty = true) : Submitted session text [] (.ok { session })
  | answered {shown : String} (kept : ¬ (Text.strip text).isEmpty = true)
      (given : shownValue session text = .ok shown) :
      Submitted session text
        [.output (session.eval (.text text) true).output, .output (shown ++ "\n")]
        (.ok { session := (session.eval (.text text) true).session })
  | reported {cause : Error} (kept : ¬ (Text.strip text).isEmpty = true)
      (failed : shownValue session text = .error cause) (known : cause.isReported = true) :
      Submitted session text
        [.output (session.eval (.text text) true).output,
          .report ("Error: " ++ cause.message ++ "\n")]
        (.ok { session := (session.eval (.text text) true).session })
  | ended {cause : Error} (kept : ¬ (Text.strip text).isEmpty = true)
      (failed : shownValue session text = .error cause) (unknown : ¬ cause.isReported = true) :
      Submitted session text [.output (session.eval (.text text) true).output] (.error cause)

theorem submitted_submit (session : Session) (text : String) :
    Submitted session text (submit session text).1 (submit session text).2 := by
  by_cases skipped : (Text.strip text).isEmpty = true
  · rw [submit, if_pos skipped]
    exact .blank skipped
  · rw [submit, if_neg skipped]
    have same : (session.eval (.text text) true).result >>= Value.shown session.limit =
        shownValue session text := rfl
    simp only [answer, same]
    cases given : shownValue session text with
    | ok shown => exact .answered skipped given
    | error cause =>
        by_cases known : cause.isReported = true
        · simp only [known, if_true]
          exact .reported skipped given known
        · simp only [known]
          exact .ended skipped given known

section

variable {session : Session} {text : String} {events : List Event} {ending : Except Error Repl}

/-- Running a submission shows no prompt. -/
theorem Submitted.filter_eq (submitted : Submitted session text events ending) :
    events.filter (!·.isPrompt) = events := by
  cases submitted with
  | blank skipped => rfl
  | answered kept given => rfl
  | reported kept failed known => rfl
  | ended kept failed unknown => rfl

theorem Submitted.countP_eq (submitted : Submitted session text events ending) :
    events.countP Event.isPrompt = 0 := by
  cases submitted with
  | blank skipped => rfl
  | answered kept given => rfl
  | reported kept failed known => rfl
  | ended kept failed unknown => rfl

/-- A submission leaves nothing pending and keeps the settings. -/
theorem Submitted.of_ok {next : Repl} (submitted : Submitted session text events (.ok next)) :
    next.pending = none ∧ next.session.bufferSize = session.bufferSize := by
  cases submitted with
  | blank skipped => exact ⟨rfl, rfl⟩
  | answered kept given => exact ⟨rfl, session.eval_bufferSize _ _⟩
  | reported kept failed known => exact ⟨rfl, session.eval_bufferSize _ _⟩

end

/-! ## The loop -/

section

variable {repl next : Repl} {input : Input} {inputs : List Input} {events : List Event}

theorem run_of_step_ok (stepped : repl.step input = (events, .ok next)) :
    run repl (input :: inputs) =
      (.prompt repl.prompt :: events ++ (run next inputs).1, (run next inputs).2) := by
  rw [run, stepped]

theorem run_of_step_error {cause : Error} (stepped : repl.step input = (events, .error cause)) :
    run repl (input :: inputs) = (.prompt repl.prompt :: events, .error cause) := by
  rw [run, stepped]

end

theorem step_line {session : Session} {size : Nat} (buffered : session.bufferSize = .ok size)
    (pending : Option String) (line : String) :
    step ⟨session, pending⟩ (.line line) =
      if needsMoreInput (continued pending line) then
        ([], .ok ⟨session, some (continued pending line)⟩)
      else submit session (continued pending line) := by
  simp only [step, buffered]
  rfl

/-- With a setting for reads that cannot be used, any line ends the loop. -/
theorem step_line_of_error {session : Session} {cause : Error}
    (unusable : session.bufferSize = .error cause) (pending : Option String) (line : String) :
    step ⟨session, pending⟩ (.line line) = ([], .error cause) := by
  simp only [step, unusable]

/-- The loop cuts its lines into submissions and runs them one after the other.  If one of them ends
it, that is all.  If none does, it has asked once for each line and goes on with the inputs after
them, in the session that the submissions leave and with the lines that are left over. -/
theorem run_lines_append {session : Session} {size : Nat} (buffered : session.bufferSize = .ok size)
    (pending : Option String) (lines : List String) (inputs : List Input) :
    let submitted := submitAll session (submissionsFrom pending lines).1
    let ran := run ⟨session, pending⟩ (lines.map .line ++ inputs)
    (∀ cause, submitted.2 = .error cause →
      ran.1.filter (!·.isPrompt) = submitted.1 ∧ ran.2 = .error cause) ∧
    ∀ after, submitted.2 = .ok after →
      let later := run ⟨after, (submissionsFrom pending lines).2⟩ inputs
      ran.1.filter (!·.isPrompt) = submitted.1 ++ later.1.filter (!·.isPrompt) ∧
        ran.2 = later.2 ∧
        ran.1.countP Event.isPrompt = lines.length + later.1.countP Event.isPrompt := by
  induction lines generalizing session pending with
  | nil =>
      refine ⟨fun _ ended => (by cases ended), fun after ended => ?_⟩
      cases ended
      exact ⟨rfl, rfl, (Nat.zero_add _).symm⟩
  | cons line lines ih =>
      have step := step_line buffered pending line
      by_cases more : needsMoreInput (continued pending line) = true
      · rw [if_pos more] at step
        obtain ⟨failed, finished⟩ := ih buffered (some (continued pending line))
        rw [List.map_cons, List.cons_append, run_of_step_ok step, submissionsFrom_more more]
        refine ⟨failed, fun after ended => ?_⟩
        obtain ⟨written, ending, asked⟩ := finished after ended
        refine ⟨written, ending, ?_⟩
        rw [List.cons_append, List.nil_append, List.countP_cons_of_pos rfl, asked,
          List.length_cons, Nat.add_right_comm]
      · rw [if_neg more] at step
        have submitted := submitted_submit session (continued pending line)
        rw [submissionsFrom_complete more, List.map_cons, List.cons_append]
        rcases given : submit session (continued pending line) with ⟨events, cause | next⟩
        · rw [given] at step submitted
          rw [run_of_step_error step, submitAll_of_error given]
          refine ⟨fun _ ended => ?_, fun _ ended => (by cases ended)⟩
          cases ended
          exact ⟨submitted.filter_eq, rfl⟩
        · rw [given] at step submitted
          obtain ⟨later, left⟩ := next
          obtain ⟨rfl, same⟩ := submitted.of_ok
          obtain ⟨failed, finished⟩ := ih (same.trans buffered) none
          rw [run_of_step_ok step, submitAll_of_ok given]
          refine ⟨fun cause ended => ?_, fun after ended => ?_⟩
          · obtain ⟨written, ending⟩ := failed cause ended
            refine ⟨?_, ending⟩
            rw [List.cons_append, List.filter_cons_of_neg Bool.false_ne_true, List.filter_append,
              written, submitted.filter_eq]
          · obtain ⟨written, ending, asked⟩ := finished after ended
            refine ⟨?_, ending, ?_⟩
            · rw [List.cons_append, List.filter_cons_of_neg Bool.false_ne_true, List.filter_append,
                written, submitted.filter_eq, List.append_assoc]
            · rw [List.cons_append, List.countP_cons_of_pos rfl, List.countP_append,
                submitted.countP_eq, asked, List.length_cons, Nat.zero_add, Nat.add_right_comm]

/-- Where nothing follows the lines, the loop writes a newline at their end. -/
theorem run_lines {session : Session} {size : Nat} (buffered : session.bufferSize = .ok size)
    (pending : Option String) (lines : List String) :
    (run ⟨session, pending⟩ (lines.map .line)).1.filter (!·.isPrompt) =
        (submitAll session (submissionsFrom pending lines).1).1 ++
          farewell (submitAll session (submissionsFrom pending lines).1).2 ∧
      (run ⟨session, pending⟩ (lines.map .line)).2 =
        (submitAll session (submissionsFrom pending lines).1).2 := by
  obtain ⟨failed, finished⟩ := run_lines_append buffered pending lines []
  rw [List.append_nil] at failed finished
  cases ended : (submitAll session (submissionsFrom pending lines).1).2 with
  | error cause =>
      obtain ⟨written, ending⟩ := failed cause ended
      exact ⟨written.trans (List.append_nil _).symm, ending⟩
  | ok after =>
      obtain ⟨written, ending, _⟩ := finished after ended
      exact ⟨written, ending⟩

end Repl

end ConsLisp
