import ConsLisp.Proofs.Form.Acceptance
import ConsLisp.Proofs.Form.Reading

/-!
# Rejection

The reader refuses a token as soon as no continuation could make the tokens so far begin with a
form, and not before.  When it runs out of tokens instead, these are the beginning of a form, and
the last of them alone decides which error that is.
-/

namespace ConsLisp

namespace Form

/-! ## Beginnings of forms -/

/-- Some continuation makes the tokens begin with a complete form. -/
def Viable (tokens : List Token) : Prop :=
  ∃ more taken rest value, tokens ++ more = taken ++ rest ∧ IsForm taken value

theorem Viable.of_isPrefix {front tokens : List Token} (viable : Viable tokens)
    (inside : front <+: tokens) : Viable front := by
  obtain ⟨more, taken, rest, value, same, form⟩ := viable
  obtain ⟨back, rfl⟩ := inside
  exact ⟨back ++ more, taken, rest, value, by rwa [← List.append_assoc], form⟩

/-- The shortest tokens that close all contexts once their inner form is there. -/
def closers : List Reading.Context → List Token
  | [] => []
  | .quote :: contexts => closers contexts
  | .items _ :: contexts => .parenRight :: closers contexts
  | .terminator _ :: contexts => .parenRight :: closers contexts

theorem resume_closers {limit : Nat} {contexts : List Reading.Context}
    (within : contexts.length ≤ limit) (value : Value) :
    ∃ whole,
      resume limit (Reading.deliver value contexts) (closers contexts) = (.ok whole, []) := by
  induction contexts generalizing value with
  | nil => exact ⟨value, rfl⟩
  | cons context contexts ih =>
      have inside : contexts.length ≤ limit := Nat.le_of_succ_le within
      cases context with
      | quote => exact ih inside (.quoted value)
      | items read =>
          rw [Reading.deliver, resume_of_depth_le within, closers, readFrom_cons rfl]
          exact ih inside _
      | terminator read =>
          rw [Reading.deliver, resume_of_depth_le inside, closers, readFrom_cons rfl]
          exact ih inside _

/-- Tokens that lead to a reading are a proper beginning of some form. -/
theorem Follows.exists_isForm {limit : Nat} {taken : List Token} {reading : Reading}
    (follows : Follows limit taken reading) :
    ∃ more value, more ≠ [] ∧ IsForm (taken ++ more) value := by
  -- Any form in place of the one that is expected will do, and a number is the shortest.
  obtain ⟨more, whole, nonempty, found⟩ : ∃ more whole, more ≠ [] ∧
      readFrom limit reading more = (.ok whole, []) := by
    cases follows with
    | @expecting room taken contexts opened =>
        have total := opened.room_eq
        obtain ⟨whole, found⟩ := resume_closers (by omega : contexts.length ≤ limit) (.integer 0)
        exact ⟨.integer 0 :: closers contexts, whole, List.cons_ne_nil _ _,
          (readFrom_cons rfl _).trans found⟩
    | @closing room taken tokens contexts phrases terminator outer each nonempty last =>
        have total := outer.room_eq
        obtain ⟨whole, found⟩ := resume_closers (by omega : contexts.length ≤ limit)
          (.ofItems (Phrase.forms phrases).reverse.reverse terminator)
        exact ⟨.parenRight :: closers contexts, whole, List.cons_ne_nil _ _,
          (readFrom_cons rfl _).trans found⟩
  obtain ⟨taking, same, derived⟩ := derives_of_readFrom follows found
  rw [List.append_nil] at same
  exact ⟨more, whole, nonempty, limit, same ▸ derived⟩

theorem Follows.viable {limit : Nat} {taken : List Token} {reading : Reading}
    (follows : Follows limit taken reading) : Viable taken := by
  obtain ⟨more, value, _, form⟩ := follows.exists_isForm
  exact ⟨more, taken ++ more, [], value, (List.append_nil _).symm, form⟩

/-! ## Tokens that no form goes on with -/

/-- Whatever comes after them, reading the tokens from the start leads to this reading. -/
structure Leads (taken : List Token) (reading : Reading) : Prop where
  depth : reading.depth ≤ taken.length
  run : ∀ (limit : Nat) (rest : List Token), taken.length ≤ limit →
    readFrom limit .start (taken ++ rest) = readFrom limit reading rest

theorem Leads.start : Leads [] .start :=
  ⟨Nat.le_refl 0, fun _ _ _ => rfl⟩

theorem Leads.accept {taken : List Token} {reading next : Reading} {token : Token}
    (leads : Leads taken reading) (accepted : reading.accept? token = some (.more next)) :
    Leads (taken ++ [token]) next := by
  have depth : next.depth ≤ (taken ++ [token]).length := by
    have opened := (Reading.of_accept? accepted).1
    have before := leads.depth
    rw [List.length_append, List.length_singleton]
    omega
  refine ⟨depth, fun limit rest room => ?_⟩
  have fits : taken.length ≤ limit := by
    rw [List.length_append] at room
    omega
  rw [List.append_assoc, leads.run limit _ fits, List.singleton_append, readFrom_cons accepted,
    resume_of_depth_le (Nat.le_trans depth room)]

theorem readFrom_refused {reading : Reading} {token : Token}
    (refused : reading.accept? token = none) (limit : Nat) (rest : List Token) :
    readFrom limit reading (token :: rest) = (.error (.parse (.unexpectedToken token)), rest) := by
  rw [readFrom]
  simp [TokenSource.next, Reading.feed, refused]

/-- A form with a level for each of its tokens is read, so nothing that begins with it can have led
to a refusal. -/
theorem Leads.not_viable {taken : List Token} {reading : Reading} {token : Token}
    (leads : Leads taken reading) (refused : reading.accept? token = none) :
    ¬ Viable (taken ++ [token]) := by
  rintro ⟨more, form, rest, value, same, depth, derived⟩
  let limit := taken.length + form.length
  have found := (derived.of_length_le (Nat.le_add_left _ _ : form.length ≤ limit)).readFrom_start
    rest
  rw [← same, List.append_assoc, leads.run limit _ (Nat.le_add_right _ _), List.singleton_append,
    readFrom_refused refused] at found
  cases found

/-! ## The end of the tokens -/

/-- Why the tokens may not end after these. -/
def endingError (tokens : List Token) : ParseError :=
  match tokens.getLast? with
  | none => .emptyInput
  | some .quote | some .dot => .unexpectedEnd
  | some _ => .unmatchedParens

@[simp] theorem endingError_append (front : List Token) {back : List Token}
    (nonempty : back ≠ []) : endingError (front ++ back) = endingError back := by
  unfold endingError
  rw [List.getLast?_append_of_ne_nil front nonempty]

@[simp] theorem endingError_cons (token : Token) {tokens : List Token} (nonempty : tokens ≠ []) :
    endingError (token :: tokens) = endingError tokens :=
  endingError_append [token] nonempty

@[simp] theorem endingError_parenRight : endingError [.parenRight] = .unmatchedParens := rfl

@[simp] theorem endingError_quote : endingError [.quote] = .unexpectedEnd := rfl

@[simp] theorem endingError_dot : endingError [.dot] = .unexpectedEnd := rfl

theorem Derives.ne_nil {depth : Nat} {tokens : List Token} {value : Value}
    (derived : Derives depth tokens value) : tokens ≠ [] := by
  cases derived <;> exact List.cons_ne_nil _ _

/-- A form does not end in a token that must be followed by another form. -/
theorem Derives.endingError_eq {depth : Nat} {tokens : List Token} {value : Value}
    (derived : Derives depth tokens value) : endingError tokens = .unmatchedParens := by
  induction derived with
  | atom denoted => cases denoted <;> rfl
  | quote inner ih => rw [endingError_cons _ inner.ne_nil, ih]
  | empty => rfl
  | collapsed inner ih => simp
  | proper each nonempty notOneList ih => simp
  | merged each nonempty last ih inner => simp
  | dotted each nonempty last notList ih inner => simp

/-- Inside an open list the tokens may end after the parenthesis or after an item. -/
theorem endingError_items {depth : Nat} {phrases : List Phrase}
    (each : ∀ phrase ∈ phrases, Derives depth phrase.tokens phrase.form) :
    endingError (.parenLeft :: Phrase.spread phrases) = .unmatchedParens := by
  rcases List.eq_nil_or_concat phrases with rfl | ⟨others, last, rfl⟩
  · rfl
  · have derived := each last (by simp)
    simp [derived.ne_nil, derived.endingError_eq]

/-- The last token alone decides how the end of the tokens is reported. -/
theorem Follows.endError_eq {limit : Nat} {taken : List Token} {reading : Reading}
    (follows : Follows limit taken reading) : reading.endError = endingError taken := by
  cases follows with
  | closing outer each nonempty last =>
      simp [last.ne_nil, last.endingError_eq, Reading.endError]
  | expecting opened =>
      cases opened with
      | start => rfl
      | quote outer => simp [Reading.endError]
      | items outer each => simp [endingError_items each, Reading.endError]
      | terminator outer each nonempty => simp [Reading.endError]

/-! ## Failing -/

/-- How reading tokens can fail, and the tokens left over then. -/
inductive Failure (limit : Nat) : List Token → ParseError → List Token → Prop where
  /-- The first token that no form goes on with is refused. -/
  | refused {before rest : List Token} {token : Token} {reading : Reading}
      (follows : Follows limit before reading) (wrong : ¬ Viable (before ++ [token])) :
      Failure limit (before ++ token :: rest) (.unexpectedToken token) rest
  | ended {tokens : List Token} {reading : Reading} (follows : Follows limit tokens reading) :
      Failure limit tokens reading.endError []

theorem failure_of_readFrom {limit : Nat} {taken tokens rest : List Token} {reading : Reading}
    {cause : ParseError} (follows : Follows limit taken reading) (leads : Leads taken reading)
    (failed : readFrom limit reading tokens = (.error (.parse cause), rest)) :
    Failure limit (taken ++ tokens) cause rest := by
  induction tokens generalizing taken reading with
  | nil =>
      rw [readFrom_nil] at failed
      cases failed
      rw [List.append_nil]
      exact .ended follows
  | cons token tokens ih =>
      cases accepted : reading.accept? token with
      | none =>
          rw [readFrom_refused accepted] at failed
          cases failed
          exact .refused follows (leads.not_viable accepted)
      | some progress =>
          rw [readFrom_cons accepted] at failed
          cases progress with
          | form value => cases failed
          | more next =>
              by_cases deep : limit < next.depth
              · rw [resume, if_pos deep] at failed
                cases failed
              · have within := Nat.not_lt.mp deep
                rw [resume_of_depth_le within] at failed
                have ahead : Follows limit (taken ++ [token]) next :=
                  follows.accept accepted (fun _ same => by cases same; exact within)
                have failure := ih ahead (leads.accept accepted) failed
                rwa [List.append_assoc, List.singleton_append] at failure

/-- With a level for each token, reading fails only by the grammar. -/
theorem parse_of_readFrom {limit : Nat} {tokens rest : List Token} {reading : Reading}
    {cause : Error} (room : reading.depth + tokens.length ≤ limit)
    (failed : readFrom limit reading tokens = (.error cause, rest)) :
    ∃ wrong, cause = .parse wrong := by
  induction tokens generalizing reading with
  | nil =>
      rw [readFrom_nil] at failed
      cases failed
      exact ⟨_, rfl⟩
  | cons token tokens ih =>
      cases accepted : reading.accept? token with
      | none =>
          rw [readFrom_refused accepted] at failed
          cases failed
          exact ⟨_, rfl⟩
      | some progress =>
          rw [readFrom_cons accepted] at failed
          cases progress with
          | form value => cases failed
          | more next =>
              have opened := (Reading.of_accept? accepted).1
              rw [List.length_cons] at room
              rw [resume_of_depth_le (by omega)] at failed
              exact ih (by omega) failed

theorem failure_of_read {limit : Nat} {tokens rest : List Token} {cause : ParseError}
    (failed : read limit tokens = (.error (.parse cause), rest)) :
    Failure limit tokens cause rest := by
  rcases read_eq_error_iff.mp failed with failed | ⟨value, _, refused⟩
  · exact failure_of_readFrom (.expecting .start) .start failed
  · exact absurd refused (Value.shown_ne_parse limit value cause)

theorem endingError_eq_emptyInput_iff {tokens : List Token} :
    endingError tokens = .emptyInput ↔ tokens = [] := by
  unfold endingError
  rw [← List.getLast?_eq_none_iff]
  split <;> simp_all

theorem endingError_eq_unexpectedEnd_iff {tokens : List Token} :
    endingError tokens = .unexpectedEnd ↔
      tokens.getLast? = some .quote ∨ tokens.getLast? = some .dot := by
  unfold endingError
  split <;> simp_all

theorem endingError_eq_unmatchedParens_iff {tokens : List Token} (nonempty : tokens ≠ []) :
    endingError tokens = .unmatchedParens ↔
      ¬ (tokens.getLast? = some .quote ∨ tokens.getLast? = some .dot) := by
  unfold endingError
  split <;> simp_all

theorem endingError_ne_unexpectedToken (tokens : List Token) (token : Token) :
    endingError tokens ≠ .unexpectedToken token := by
  unfold endingError
  split <;> simp

namespace Failure

variable {limit : Nat} {tokens rest : List Token} {cause : ParseError}

theorem emptyInput_iff (failure : Failure limit tokens cause rest) :
    cause = .emptyInput ↔ tokens = [] := by
  cases failure with
  | refused follows wrong => simp
  | ended follows => rw [follows.endError_eq, endingError_eq_emptyInput_iff]

/-- A token is refused where it is the first that no form goes on with. -/
theorem unexpectedToken_iff (failure : Failure limit tokens cause rest) {token : Token} :
    cause = .unexpectedToken token ↔
      ∃ before, tokens = before ++ token :: rest ∧ ¬ Viable (before ++ [token]) ∧
        ∀ front, front <+: before → Viable front := by
  cases failure with
  | @refused before rest other reading follows wrong =>
      constructor
      · intro same
        cases same
        exact ⟨before, rfl, wrong, fun front inside => follows.viable.of_isPrefix inside⟩
      · rintro ⟨others, same, _⟩
        obtain ⟨_, same⟩ := List.append_inj' same rfl
        rw [List.head_eq_of_cons_eq same]
  | ended follows =>
      rw [follows.endError_eq]
      refine ⟨fun same => absurd same (endingError_ne_unexpectedToken _ _), ?_⟩
      rintro ⟨before, rfl, wrong, _⟩
      exact absurd follows.viable wrong

theorem exists_unexpectedToken_iff (failure : Failure limit tokens cause rest) :
    (∃ token, cause = .unexpectedToken token) ↔ ∃ front, front <+: tokens ∧ ¬ Viable front := by
  cases failure with
  | @refused before rest token reading follows wrong =>
      refine ⟨fun _ => ⟨before ++ [token], ?_, wrong⟩, fun _ => ⟨token, rfl⟩⟩
      exact ⟨rest, List.append_cons before token rest ▸ rfl⟩
  | ended follows =>
      rw [follows.endError_eq]
      constructor
      · rintro ⟨token, same⟩
        exact absurd same (endingError_ne_unexpectedToken _ _)
      · rintro ⟨front, inside, wrong⟩
        exact absurd (follows.viable.of_isPrefix inside) wrong

/-- Tokens without a fault are all taken, and are the beginning of a form. -/
theorem of_viable (failure : Failure limit tokens cause rest) (viable : Viable tokens) :
    rest = [] ∧ cause = endingError tokens ∧
      ∃ more value, more ≠ [] ∧ IsForm (tokens ++ more) value := by
  cases failure with
  | @refused before rest token reading follows wrong =>
      have inside : before ++ [token] <+: before ++ token :: rest :=
        ⟨rest, List.append_cons before token rest ▸ rfl⟩
      exact absurd (viable.of_isPrefix inside) wrong
  | ended follows => exact ⟨rfl, follows.endError_eq, follows.exists_isForm⟩

end Failure

/-- Reading fails exactly and as early as possible.  Without tokens the input is empty.  A token is
unexpected if it ends a beginning of the tokens that nothing makes begin with a form; it ends the
shortest such beginning, and that much has been taken.  Otherwise all tokens are taken, they are a
proper beginning of a form, and the input ends unexpectedly after a quote or a dot and inside
parentheses after anything else.  With a level for each token there are no other failures, if these
can be shown again as all tokens of a lexer can. -/
theorem read_fails_at_first_fault (limit : Nat) (tokens : List Token) :
    (∀ cause rest, read limit tokens = (.error (.parse cause), rest) →
      (cause = .emptyInput ↔ tokens = []) ∧
      ((∃ token, cause = .unexpectedToken token) ↔ ∃ front, front <+: tokens ∧ ¬ Viable front) ∧
      (∀ token, cause = .unexpectedToken token ↔
        ∃ before, tokens = before ++ token :: rest ∧ ¬ Viable (before ++ [token]) ∧
          ∀ front, front <+: before → Viable front) ∧
      (tokens ≠ [] → (∀ front, front <+: tokens → Viable front) →
        (∃ more value, more ≠ [] ∧ IsForm (tokens ++ more) value) ∧ rest = [] ∧
        (cause = .unexpectedEnd ↔
          tokens.getLast? = some .quote ∨ tokens.getLast? = some .dot) ∧
        (cause = .unmatchedParens ↔
          ¬ (tokens.getLast? = some .quote ∨ tokens.getLast? = some .dot)))) ∧
    ((∀ token ∈ tokens, token.IsWritable) → tokens.length ≤ limit →
      ∀ cause rest, read limit tokens = (.error cause, rest) → ∃ fault, cause = .parse fault) ∧
    ∀ (lexer : Lexer) (token : Token), .ok token ∈ lexer.outcomes → token.IsWritable := by
  refine ⟨fun cause rest failed => ?_, fun writable room cause rest failed => ?_, ?_⟩
  · have failure := failure_of_read failed
    refine ⟨failure.emptyInput_iff, failure.exists_unexpectedToken_iff,
      fun token => failure.unexpectedToken_iff, fun nonempty viable => ?_⟩
    obtain ⟨used, rfl, beginning⟩ := failure.of_viable (viable tokens List.prefix_rfl)
    exact ⟨beginning, used, endingError_eq_unexpectedEnd_iff,
      endingError_eq_unmatchedParens_iff nonempty⟩
  · rcases read_eq_error_iff.mp failed with failed | ⟨value, found, refused⟩
    · exact parse_of_readFrom (by simpa [Reading.depth, Reading.start] using room) failed
    · obtain ⟨taken, rfl, derived⟩ := readFrom_start_eq_ok_iff.mp found
      rw [List.length_append] at room
      obtain ⟨text, shown⟩ := derived.prints limit
        (fun token member => writable token (List.mem_append_left rest member)) (by omega)
      simp [Value.shown, shown, Except.mapError] at refused
  · exact fun lexer token given => Lexer.all_outcomes Token.isWritable_of_ofLexeme given

/-- `(1 . ) 2` goes wrong at the parenthesis, which no form has after a dot, and `(1 '` ends too
early. -/
theorem read_fails_at_closing_after_dot :
    (read 5 [Token.parenLeft, .integer 1, .dot, .parenRight, .integer 2] =
        (.error (.parse (.unexpectedToken .parenRight)), [.integer 2]) ∧
      ¬ Viable [.parenLeft, .integer 1, .dot, .parenRight] ∧
      Viable [.parenLeft, .integer 1, .dot]) ∧
    read 3 [Token.parenLeft, .integer 1, .quote] = (.error (.parse .unexpectedEnd), []) ∧
      ∃ more value, more ≠ [] ∧ IsForm ([.parenLeft, .integer 1, .quote] ++ more) value := by
  have refused : read 5 [Token.parenLeft, .integer 1, .dot, .parenRight, .integer 2] =
      (.error (.parse (.unexpectedToken .parenRight)), [.integer 2]) := by
    simp [read, readFrom, TokenSource.next, Reading.start, Reading.feed, Reading.accept?,
      Reading.deliver, Reading.dot?, Reading.close?, Token.atom?, Reading.depth]
  have ended : read 3 [Token.parenLeft, .integer 1, .quote] =
      (.error (.parse .unexpectedEnd), []) := by
    simp [read, readFrom, TokenSource.next, Reading.start, Reading.feed, Reading.accept?,
      Reading.deliver, Token.atom?, Reading.depth, Reading.endError]
  have firstFault := (read_fails_at_first_fault 5
    [.parenLeft, .integer 1, .dot, .parenRight, .integer 2]).1 _ _ refused
  obtain ⟨before, same, wrong, viable⟩ := (firstFault.2.2.1 .parenRight).mp rfl
  obtain rfl : [.parenLeft, .integer 1, .dot] = before := List.append_cancel_right same
  have allTaken := (read_fails_at_first_fault 3 [.parenLeft, .integer 1, .quote]).1 _ _ ended
  refine ⟨⟨refused, wrong, viable _ List.prefix_rfl⟩, ended, ?_⟩
  refine (allTaken.2.2.2 (List.cons_ne_nil _ _) fun front inside => ?_).1
  by_contra faulty
  obtain ⟨token, same⟩ := allTaken.2.1.mpr ⟨front, inside, faulty⟩
  cases same

end Form

end ConsLisp
