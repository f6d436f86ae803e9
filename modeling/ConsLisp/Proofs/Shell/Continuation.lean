import ConsLisp.Proofs.Shell.Survival

/-!
# When the loop asks for another line

The loop counts parentheses in the tokens of a text, where reading follows their nesting and stops
at its first error.  Both come to the same wherever reading settles the question: a text that can be
read needs no more lines, and one in which a list or a string is left open does.  So nothing that
the loop submits is answered with the error of an open list or string.
-/

namespace ConsLisp

/-! ## Open lists -/

/-- What a token does to the number of open lists. -/
def Token.change : Token → Int
  | .parenLeft => 1
  | .parenRight => -1
  | _ => 0

namespace Reading

def Context.isList : Context → Bool
  | .quote => false
  | .items _ | .terminator _ => true

/-- The number of lists that are open in a reading. -/
def openLists : Reading → Nat
  | .expecting contexts => contexts.countP Context.isList
  | .closing _ _ contexts => contexts.countP Context.isList + 1

def Progress.openLists : Progress → Nat
  | .more reading => reading.openLists
  | .form _ => 0

/-- A form is complete where no list is open around it. -/
theorem openLists_deliver (value : Value) (contexts : List Context) :
    (deliver value contexts).openLists = contexts.countP Context.isList := by
  induction contexts generalizing value with
  | nil => rfl
  | cons context contexts ih =>
      cases context with
      | quote => exact ih (.quoted value)
      | items read => rfl
      | terminator read => exact (List.countP_cons_of_pos rfl).symm

theorem openLists_expecting_cons (context : Context) (contexts : List Context) :
    (expecting (context :: contexts)).openLists =
      contexts.countP Context.isList + if context.isList then 1 else 0 :=
  List.countP_cons

/-- A token that is accepted opens and closes as many lists as it counts for. -/
theorem Accepts.openLists_eq {reading : Reading} {token : Token} {progress : Progress}
    (accepts : Accepts reading token progress) :
    (progress.openLists : Int) = reading.openLists + token.change := by
  cases accepts with
  | atom denoted =>
      rw [openLists_deliver]
      cases token with
      | quote => cases denoted
      | dot => cases denoted
      | parenLeft => cases denoted
      | parenRight => cases denoted
      | _ => exact (Int.add_zero _).symm
  | quote => simp [Progress.openLists, openLists, Token.change, Context.isList]
  | opened =>
      rw [Progress.openLists, openLists_expecting_cons]
      exact Int.natCast_add _ 1
  | @closed read contexts =>
      rw [openLists_deliver, openLists_expecting_cons]
      simp only [Context.isList, if_true, Token.change]
      omega
  | divided => rw [Progress.openLists, openLists_expecting_cons, openLists_expecting_cons]; rfl
  | ended =>
      rw [openLists_deliver, openLists, Token.change]
      omega

end Reading

theorem leavesOpen_token (depth : Int) (token : Token) (rest : List (Except LexicalError Token)) :
    leavesOpen depth (.ok token :: rest) = leavesOpen (depth + token.change) rest := by
  cases token <;> simp [leavesOpen, Token.change, Int.sub_eq_add_neg]

/-! ## What errors of reading say -/

/-- Whether more input is needed where reading ends in an error, as far as the error tells. -/
def Error.needsMore? : Error → Option Bool
  | .parse .emptyInput => some false
  | .parse .unmatchedParens => some true
  | .lexical (.unterminatedString _) => some true
  | .lexical _ => some false
  | _ => none

/-- Where the input may not end, the error tells whether a list is open. -/
theorem Reading.leavesOpen_nil (reading : Reading) {more : Bool}
    (told : (Error.parse reading.endError).needsMore? = some more) :
    leavesOpen reading.openLists [] = more := by
  cases reading with
  | closing read terminator contexts =>
      cases told
      exact decide_eq_true (Int.natCast_pos.mpr (Nat.succ_pos _))
  | expecting contexts =>
      cases contexts with
      | nil =>
          cases told
          rfl
      | cons context contexts =>
          cases context with
          | quote => cases told
          | terminator read => cases told
          | items read =>
              cases told
              rw [openLists_expecting_cons]
              exact decide_eq_true (Int.natCast_pos.mpr (Nat.succ_pos _))

namespace Form

variable {limit : Nat} {lexer rest : Lexer}

theorem leavesOpen_of_readFrom {reading : Reading} {value : Value}
    (found : readFrom limit reading lexer = (.ok value, rest)) :
    leavesOpen reading.openLists lexer.outcomes = leavesOpen 0 rest.outcomes := by
  fun_induction readFrom limit reading lexer with
  | case1 => cases found
  | case2 => cases found
  | case3 => cases found
  | case4 reading source token after step value finished =>
      cases found
      have balance := (Reading.accepts_of_accept? (Reading.accept_of_feed finished)).openLists_eq
      rw [Lexer.outcomes_token step, leavesOpen_token, ← balance]
      rfl
  | case5 => cases found
  | case6 reading source token after step next fed within ih =>
      have balance := (Reading.accepts_of_accept? (Reading.accept_of_feed fed)).openLists_eq
      rw [Lexer.outcomes_token step, leavesOpen_token, ← balance]
      exact ih found

theorem leavesOpen_of_readFrom_error {reading : Reading} {cause : Error} {more : Bool}
    (failed : readFrom limit reading lexer = (.error cause, rest))
    (told : cause.needsMore? = some more) :
    leavesOpen reading.openLists lexer.outcomes = more := by
  fun_induction readFrom limit reading lexer with
  | case1 reading source fault after step =>
      cases failed
      rw [Lexer.outcomes_error step]
      cases fault with
      | unterminatedString pending =>
          cases told
          rfl
      | malformedNumber literal =>
          cases told
          rfl
      | readFailure reason =>
          cases told
          rfl
  | case2 reading source after step =>
      cases failed
      rw [Lexer.outcomes_end step]
      exact reading.leavesOpen_nil told
  | case3 reading source token after step fault refused =>
      cases failed
      rw [Reading.eq_unexpectedToken_of_feed refused] at told
      cases told
  | case4 => cases failed
  | case5 =>
      cases failed
      cases told
  | case6 reading source token after step next fed within ih =>
      have balance := (Reading.accepts_of_accept? (Reading.accept_of_feed fed)).openLists_eq
      rw [Lexer.outcomes_token step, leavesOpen_token, ← balance]
      exact ih failed

theorem leavesOpen_of_read {value : Value} (found : read limit lexer = (.ok value, rest)) :
    leavesOpen 0 lexer.outcomes = leavesOpen 0 rest.outcomes :=
  leavesOpen_of_readFrom (read_eq_ok_iff.mp found).1

/-- Where a source is read up to an error that tells whether more is needed, the count of its
parentheses tells the same. -/
theorem Yields.leavesOpen_eq {forms : List Value} {cause : Error} {more : Bool}
    (yields : Yields limit lexer forms cause) (told : cause.needsMore? = some more) :
    leavesOpen 0 lexer.outcomes = more := by
  induction forms generalizing lexer with
  | nil =>
      obtain ⟨rest, failed⟩ := yields_nil_iff.mp yields
      rcases read_eq_error_iff.mp failed with misread | ⟨value, _, refused⟩
      · exact leavesOpen_of_readFrom_error misread told
      · have runtime := Value.runtime_shown limit value cause refused
        cases cause with
        | evaluation => cases told
        | numeric => cases told
        | _ => cases runtime
  | cons form forms ih =>
      obtain ⟨rest, found, others⟩ := yields_cons_iff.mp yields
      rw [leavesOpen_of_read found]
      exact ih others

end Form

/-! ## Messages -/

/-- The errors of an open list and of an open string. -/
def Error.isOpen (cause : Error) : Bool :=
  cause.needsMore? = some true

/-- An error of reading, or one that evaluation may end in. -/
def Error.isReadingOrRuntime : Error → Bool
  | .lexical _ | .parse _ => true
  | cause => cause.isRuntime

/-- The text begins otherwise than the messages about an open list or string. -/
def BeginsOtherwise (text : String) : Prop :=
  3 ≤ text.toList.length ∧ text.toList.take 3 ≠ ['N', 'o', ' '] ∧
    text.toList.take 3 ≠ ['U', 'n', 't']

instance (text : String) : Decidable (BeginsOtherwise text) :=
  inferInstanceAs (Decidable (_ ∧ _ ∧ _))

theorem BeginsOtherwise.append {text : String} (begins : BeginsOtherwise text) (rest : String) :
    BeginsOtherwise (text ++ rest) := by
  obtain ⟨long, apart⟩ := begins
  rw [BeginsOtherwise, String.toList_append, List.take_append_of_le_length long, List.length_append]
  exact ⟨Nat.le_add_right_of_le long, apart⟩

theorem Mismatch.beginsOtherwise (cause : Mismatch) : BeginsOtherwise cause.message := by
  cases cause with
  | expected what got =>
      have start : BeginsOtherwise "Expected " := by decide
      exact ((start.append what).append ", got ").append got
  | parameterList got =>
      have start : BeginsOtherwise "Parameter list must be a list, got " := by decide
      exact start.append got
  | danglingMarker marker form =>
      have start : BeginsOtherwise "Dangling " := by decide
      exact ((start.append marker).append " in ").append form
  | parameterName got =>
      have start : BeginsOtherwise "Parameter name must be a symbol, got " := by decide
      exact start.append got
  | optionalParameter got =>
      have start : BeginsOtherwise "Malformed optional parameter " := by decide
      exact start.append got
  | invalidParameters form =>
      have start : BeginsOtherwise "Invalid parameter list " := by decide
      exact start.append form

theorem EvaluationError.beginsOtherwise (cause : EvaluationError) :
    BeginsOtherwise cause.message := by
  cases cause with
  | unboundVariable name =>
      have start : BeginsOtherwise "Unbound variable " := by decide
      exact start.append name
  | argumentCount expected actual =>
      have start : BeginsOtherwise "Unmatched number of parameters, expecting " := by decide
      exact ((start.append _).append _).append _
  | illegalCall function arguments =>
      have start : BeginsOtherwise "Illegal function call: " := by decide
      exact ((start.append function).append _).append arguments
  | mismatch cause => exact cause.beginsOtherwise
  | divisionByZero dividend =>
      have start : BeginsOtherwise "Division of " := by decide
      exact (start.append dividend).append _
  | tooDeep activity => cases activity <;> decide

/-- No other error that the loop reports begins like one of an open list or string. -/
theorem Error.beginsOtherwise {cause : Error} (kind : cause.isReadingOrRuntime = true)
    (known : cause.isReported = true) (closed : cause.isOpen = false) :
    BeginsOtherwise cause.message := by
  cases cause with
  | lexical fault =>
      cases fault with
      | unterminatedString pending => cases closed
      | malformedNumber literal =>
          have start : BeginsOtherwise "Malformed number " := by decide
          exact start.append _
      | readFailure reason =>
          have start : BeginsOtherwise "Failed to read source: " := by decide
          exact start.append reason
  | parse fault =>
      cases fault with
      | unmatchedParens => cases closed
      | unexpectedToken token =>
          have start : BeginsOtherwise "Unexpected token " := by decide
          exact start.append token.text
      | emptyInput => exact (by decide : BeginsOtherwise "Input is empty")
      | unexpectedEnd => exact (by decide : BeginsOtherwise "Unexpected EOF")
  | evaluation fault => exact fault.beginsOtherwise
  | scope fault => cases kind
  | _ => cases known

theorem Error.not_beginsOtherwise {cause : Error} (isOpen : cause.isOpen = true) :
    ¬ BeginsOtherwise cause.message := by
  rintro ⟨_, notParens, notString⟩
  cases cause with
  | parse fault =>
      cases fault with
      | unmatchedParens =>
          have start : "No matching parenthesis found".toList.take 3 = ['N', 'o', ' '] := by decide
          exact notParens start
      | _ => cases isOpen
  | lexical fault =>
      cases fault with
      | unterminatedString pending =>
          have start : ("Unterminated string " ++ pending).toList.take 3 = ['U', 'n', 't'] := by
            have long : 3 ≤ "Unterminated string ".toList.length := by decide
            rw [String.toList_append, List.take_append_of_le_length long]
            decide
          exact notString start
      | _ => cases isOpen
  | _ => cases isOpen

/-! ## What the loop reports -/

section

variable {limit : Nat} {lexer rest : Lexer} {cause : Error}

theorem Form.isReadingOrRuntime_of_readFrom {reading : Reading}
    (failed : Form.readFrom limit reading lexer = (.error cause, rest)) :
    cause.isReadingOrRuntime = true := by
  fun_induction Form.readFrom limit reading lexer with
  | case1 =>
      cases failed
      rfl
  | case2 =>
      cases failed
      rfl
  | case3 =>
      cases failed
      rfl
  | case4 => cases failed
  | case5 =>
      cases failed
      rfl
  | case6 reading source token after step next fed within ih => exact ih failed

theorem Error.isReadingOrRuntime_of_isRuntime (runtime : cause.isRuntime = true) :
    cause.isReadingOrRuntime = true := by
  cases cause <;> first | rfl | cases runtime

theorem Error.isOpen_of_isRuntime (runtime : cause.isRuntime = true) : cause.isOpen = false := by
  cases cause <;> first | rfl | cases runtime

end

/-- Whatever the values are, evaluation fails with none of the errors of reading. -/
def Invariant.notReading : Invariant :=
  { Invariant.trivial with
    allowed := fun cause => cause.isRuntime = true ∨ cause = .argument .missingForm
    runtime := .inl
    parameters := fun _ => .inr (.inr rfl) }

/-- Running tokens that leave nothing open comes to no error of an open list or string, in whatever
session, and to no report about a name out of scope. -/
theorem Session.RunsTo.not_isOpen {session next : Session} {lexer : Lexer}
    {result : Except Error Value} {written : String} {cause : Error}
    (ran : session.RunsTo lexer result written next)
    (complete : leavesOpen 0 lexer.outcomes = false)
    (failed : (result >>= Value.shown session.limit) = .error cause) :
    cause.isOpen = false ∧ (cause.isReported = true → cause.isReadingOrRuntime = true) := by
  rcases Result.bind_eq_error_iff.mp failed with own | ⟨value, _, refused⟩
  · cases ran with
    | succeeds yields ran => cases own
    | misread yields early ran =>
        cases own
        constructor
        · refine Bool.eq_false_iff.mpr fun isOpen => ?_
          rw [yields.leavesOpen_eq (of_decide_eq_true isOpen)] at complete
          cases complete
        · intro _
          obtain ⟨here, rest, step⟩ := yields.exists_read_error
          rcases Form.read_eq_error_iff.mp step with misread | ⟨value, _, refused⟩
          · exact Form.isReadingOrRuntime_of_readFrom misread
          · exact Error.isReadingOrRuntime_of_isRuntime
              (Value.runtime_shown _ value cause refused)
    | breaks yields broken =>
        cases own
        have allowed := @Breaks.allowed .notReading _ _ _ _ _ broken (fun _ _ => True.intro)
          session.environment.all_trivial
        rcases allowed with runtime | rfl
        · exact ⟨Error.isOpen_of_isRuntime runtime,
            fun _ => Error.isReadingOrRuntime_of_isRuntime runtime⟩
        · exact ⟨rfl, fun known => by cases known⟩
  · have runtime := Value.runtime_shown _ value cause refused
    exact ⟨Error.isOpen_of_isRuntime runtime,
      fun _ => Error.isReadingOrRuntime_of_isRuntime runtime⟩

namespace Repl

theorem not_isOpen_of_shownValue {session : Session} {size : Nat} {text : String} {cause : Error}
    (buffered : session.bufferSize = .ok size) (complete : needsMoreInput text = false)
    (failed : shownValue session text = .error cause) :
    cause.isOpen = false ∧ (cause.isReported = true → cause.isReadingOrRuntime = true) :=
  (runsTo_text buffered text).not_isOpen complete failed

/-- The event is not the report of an open list or string. -/
def OtherReport (event : Event) : Prop :=
  ∀ cause : Error, cause.isOpen = true → event ≠ .report ("Error: " ++ cause.message ++ "\n")

theorem Submitted.otherReport {session : Session} {size : Nat} {text : String}
    {events : List Event} {ending : Except Error Repl}
    (submitted : Submitted session text events ending) (buffered : session.bufferSize = .ok size)
    (complete : needsMoreInput text = false) : ∀ event ∈ events, OtherReport event := by
  cases submitted with
  | blank skipped => simp
  | answered kept given => simp [OtherReport]
  | reported kept failed known =>
      obtain ⟨closed, kind⟩ := not_isOpen_of_shownValue buffered complete failed
      refine List.forall_mem_cons.mpr ⟨by simp [OtherReport], List.forall_mem_singleton.mpr ?_⟩
      intro cause isOpen same
      simp only [Event.report.injEq, String.append_left_inj, String.append_right_inj] at same
      have begins := Error.beginsOtherwise (kind known) known closed
      exact Error.not_beginsOtherwise isOpen (same ▸ begins)
  | ended kept failed unknown => simp [OtherReport]

theorem otherReport_of_step (repl : Repl) (input : Input) :
    ∀ event ∈ (repl.step input).1, OtherReport event := by
  cases input with
  | interrupt => simp [step, OtherReport]
  | garbled text => exact List.forall_mem_nil _
  | line line =>
      obtain ⟨session, pending⟩ := repl
      cases buffered : session.bufferSize with
      | error cause =>
          rw [step_line_of_error buffered]
          exact List.forall_mem_nil _
      | ok size =>
          rw [step_line buffered]
          by_cases more : needsMoreInput (continued pending line) = true
          · rw [if_pos more]
            exact List.forall_mem_nil _
          · rw [if_neg more]
            exact (submitted_submit session (continued pending line)).otherReport buffered
              (Bool.eq_false_iff.mpr more)

theorem otherReport_of_run (repl : Repl) (inputs : List Input) :
    ∀ event ∈ (repl.run inputs).1, OtherReport event := by
  induction inputs generalizing repl with
  | nil => simp [run, OtherReport]
  | cons input inputs ih =>
      have own := otherReport_of_step repl input
      rcases stepped : repl.step input with ⟨events, cause | next⟩ <;> rw [stepped] at own
      · rw [run_of_step_error stepped]
        exact List.forall_mem_cons.mpr ⟨by simp [OtherReport], own⟩
      · rw [run_of_step_ok stepped, List.cons_append]
        refine List.forall_mem_cons.mpr ⟨by simp [OtherReport], ?_⟩
        exact List.forall_mem_append.mpr ⟨own, ih next⟩

end Repl

theorem needsMoreInput_of_readAll (limit : Nat) (text : String) :
    (∀ forms, (Form.readAll limit (Lexer.ofText text)).1 = .ok forms →
      needsMoreInput text = false) ∧
    ∀ cause more, (Form.readAll limit (Lexer.ofText text)).1 = .error cause →
      cause.needsMore? = some more → needsMoreInput text = more := by
  obtain ⟨forms, cause, yields⟩ := Form.exists_yields limit (Lexer.ofText text)
  obtain ⟨ended, failed⟩ := yields.readAll
  by_cases last : cause = .parse .emptyInput
  · rw [ended last]
    refine ⟨fun _ _ => yields.leavesOpen_eq (last ▸ rfl), ?_⟩
    rintro _ _ ⟨⟩
  · rw [failed last]
    constructor
    · rintro _ ⟨⟩
    · rintro _ more ⟨⟩ told
      exact yields.leavesOpen_eq told

/-- A text that can be read needs no more lines, one whose reading ends in an open list or string
does, and one that holds a malformed number does not.  So a text that is run as it is comes to no
error of an open list or string, and the loop reports none. -/
theorem needsMoreInput_agrees_with_reading (limit : Nat) (text : String) (repl : Repl)
    (inputs : List Input) :
    let read := (Form.readAll limit (Lexer.ofText text)).1
    let events := (repl.run inputs).1
    (∀ forms, read = .ok forms → needsMoreInput text = false) ∧
    (read = .error (.parse .unmatchedParens) → needsMoreInput text = true) ∧
    (∀ pending, read = .error (.lexical (.unterminatedString pending)) →
      needsMoreInput text = true) ∧
    (∀ literal, read = .error (.lexical (.malformedNumber literal)) →
      needsMoreInput text = false) ∧
    (∀ (session : Session) (size : Nat) (cause : Error), session.bufferSize = .ok size →
      needsMoreInput text = false → Repl.shownValue session text = .error cause →
      cause ≠ .parse .unmatchedParens ∧
        ∀ pending, cause ≠ .lexical (.unterminatedString pending)) ∧
    .report ("Error: " ++ ParseError.unmatchedParens.message ++ "\n") ∉ events ∧
    ∀ pending,
      .report ("Error: " ++ (LexicalError.unterminatedString pending).message ++ "\n") ∉
        events := by
  intro read events
  obtain ⟨readable, failing⟩ := needsMoreInput_of_readAll limit text
  have others := repl.otherReport_of_run inputs
  refine ⟨readable, fun failed => failing _ _ failed rfl, fun _ failed => failing _ _ failed rfl,
    fun _ failed => failing _ _ failed rfl, ?_, fun shown => ?_, fun pending shown => ?_⟩
  · intro session size cause buffered complete failed
    obtain ⟨closed, _⟩ := Repl.not_isOpen_of_shownValue buffered complete failed
    constructor
    · rintro rfl
      cases closed
    · rintro pending rfl
      cases closed
  · exact others _ shown (.parse .unmatchedParens) rfl rfl
  · exact others _ shown (.lexical (.unterminatedString pending)) rfl rfl

/-- A list that is still open at the end of a text. -/
theorem needsMoreInput_agrees_with_reading_open_list :
    (Form.readAll 9 (Lexer.ofText "(a")).1 = .error (.parse .unmatchedParens) ∧
      needsMoreInput "(a" = true := by
  have tokens : (Lexer.ofText "(a").outcomes = [Token.parenLeft, .symbol "a"].map .ok := by
    rw [Lexer.ofText, Lexer.outcomes_text]
    rfl
  have failed : (Form.readAll 9 (Lexer.ofText "(a")).1 = .error (.parse .unmatchedParens) := by
    have step : Form.read 9 [Token.parenLeft, .symbol "a"] =
        (.error (.parse .unmatchedParens), []) := by
      simp only [Form.read, Form.readFrom, TokenSource.next]
      rfl
    rw [(Form.readAll_alike Lexer.alike_outcomes 9 tokens).1, Form.readAll_error step (by simp)]
  obtain ⟨_, unmatched, _⟩ :=
    needsMoreInput_agrees_with_reading 9 "(a" { session := {} } []
  exact ⟨failed, unmatched failed⟩

end ConsLisp
