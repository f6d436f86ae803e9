import ConsLisp.Proofs.Form.Grammar
import ConsLisp.Proofs.Number.Integer
import ConsLisp.Proofs.Token.Delivery
import ConsLisp.Proofs.Value.Printer

/-!
# Acceptance

The contexts of a reading stand for the part of a derivation that the tokens so far have settled.
One token keeps this true, so a form that comes out of a run is derived by the tokens taken.
Together with the grammar's own run this makes the accepted tokens of a form unique.
-/

namespace ConsLisp

namespace Form

/-- The tokens taken so far open these contexts.  A form that is expected inside them may still be
nested `room` deep. -/
inductive Opened (limit : Nat) : Nat → List Token → List Reading.Context → Prop where
  | start : Opened limit limit [] []
  | quote {room : Nat} {taken : List Token} {contexts : List Reading.Context}
      (outer : Opened limit (room + 1) taken contexts) :
      Opened limit room (taken ++ [.quote]) (.quote :: contexts)
  | items {room : Nat} {taken : List Token} {contexts : List Reading.Context}
      {phrases : List Phrase} (outer : Opened limit (room + 1) taken contexts)
      (each : ∀ phrase ∈ phrases, Derives room phrase.tokens phrase.form) :
      Opened limit room (taken ++ .parenLeft :: Phrase.spread phrases)
        (.items (Phrase.forms phrases).reverse :: contexts)
  | terminator {room : Nat} {taken : List Token} {contexts : List Reading.Context}
      {phrases : List Phrase} (outer : Opened limit (room + 1) taken contexts)
      (each : ∀ phrase ∈ phrases, Derives room phrase.tokens phrase.form)
      (nonempty : phrases ≠ []) :
      Opened limit room (taken ++ .parenLeft :: (Phrase.spread phrases ++ [.dot]))
        (.terminator (Phrase.forms phrases).reverse :: contexts)

/-- The tokens taken so far lead to this reading. -/
inductive Follows (limit : Nat) : List Token → Reading → Prop where
  | expecting {room : Nat} {taken : List Token} {contexts : List Reading.Context}
      (opened : Opened limit room taken contexts) : Follows limit taken (.expecting contexts)
  | closing {room : Nat} {taken tokens : List Token} {contexts : List Reading.Context}
      {phrases : List Phrase} {terminator : Value}
      (outer : Opened limit (room + 1) taken contexts)
      (each : ∀ phrase ∈ phrases, Derives room phrase.tokens phrase.form)
      (nonempty : phrases ≠ []) (last : Derives room tokens terminator) :
      Follows limit (taken ++ .parenLeft :: (Phrase.spread phrases ++ .dot :: tokens))
        (.closing (Phrase.forms phrases).reverse terminator contexts)

/-- What the tokens taken so far have come to. -/
def Reaches (limit : Nat) (taken : List Token) : Reading.Progress → Prop
  | .more reading => Follows limit taken reading
  | .form value => Derives limit taken value

theorem Opened.room_eq {limit room : Nat} {taken : List Token} {contexts : List Reading.Context}
    (opened : Opened limit room taken contexts) : room + contexts.length = limit := by
  induction opened with
  | start => rfl
  | quote outer ih => rw [List.length_cons]; omega
  | items outer each ih => rw [List.length_cons]; omega
  | terminator outer each nonempty ih => rw [List.length_cons]; omega

/-- A context may be opened while the limit leaves room for it. -/
theorem Opened.exists_succ {limit room : Nat} {taken : List Token}
    {contexts : List Reading.Context} (opened : Opened limit room taken contexts)
    (within : contexts.length + 1 ≤ limit) :
    ∃ inner, Opened limit (inner + 1) taken contexts := by
  have total := opened.room_eq
  obtain ⟨inner, rfl⟩ : ∃ inner, room = inner + 1 := ⟨room - 1, by omega⟩
  exact ⟨inner, opened⟩

/-- A form derived in its place is handed to the contexts around it. -/
theorem Opened.deliver {limit room : Nat} {taken tokens : List Token}
    {contexts : List Reading.Context} {value : Value}
    (opened : Opened limit room taken contexts) (derived : Derives room tokens value) :
    Reaches limit (taken ++ tokens) (Reading.deliver value contexts) := by
  induction opened generalizing tokens value with
  | start => exact derived
  | quote outer ih =>
      have whole := ih derived.quote
      rwa [List.append_assoc, List.singleton_append]
  | @items room taken contexts phrases outer each ih =>
      have all : ∀ phrase ∈ phrases ++ [⟨tokens, value⟩],
          Derives room phrase.tokens phrase.form := by
        intro phrase member
        rcases List.mem_append.mp member with earlier | last
        · exact each phrase earlier
        · cases List.mem_singleton.mp last
          exact derived
      simpa using! Follows.expecting (Opened.items outer all)
  | @terminator room taken contexts phrases outer each nonempty ih =>
      simpa using! Follows.closing outer each nonempty derived

/-- The values that parentheses make of their forms are those of the grammar. -/
theorem Derives.list {depth : Nat} {phrases : List Phrase}
    (each : ∀ phrase ∈ phrases, Derives depth phrase.tokens phrase.form) :
    Derives (depth + 1) (.parenLeft :: (Phrase.spread phrases ++ [.parenRight]))
      (.ofClosed (Phrase.forms phrases)) := by
  by_cases oneList : ∃ items terminator, Phrase.forms phrases = [.list items terminator]
  · obtain ⟨items, terminator, same⟩ := oneList
    obtain ⟨⟨tokens, form⟩, rfl, shape⟩ := List.map_eq_singleton_iff.mp same
    cases shape
    have inner := each ⟨tokens, .list items terminator⟩ List.mem_cons_self
    simpa using! Derives.collapsed inner
  · cases phrases with
    | nil => exact .empty
    | cons phrase phrases =>
        have notOneList : ∀ items terminator,
            Phrase.forms (phrase :: phrases) ≠ [.list items terminator] :=
          fun items terminator same => oneList ⟨items, terminator, same⟩
        have nonempty := List.cons_ne_nil phrase phrases
        rw [Value.ofClosed_of_not_one_list (Phrase.forms_ne_nil nonempty) notOneList]
        exact .proper each nonempty notOneList

theorem Derives.dottedList {depth : Nat} {phrases : List Phrase} {tokens : List Token}
    {terminator : Value} (each : ∀ phrase ∈ phrases, Derives depth phrase.tokens phrase.form)
    (nonempty : phrases ≠ []) (last : Derives depth tokens terminator) :
    Derives (depth + 1)
      (.parenLeft :: (Phrase.spread phrases ++ .dot :: (tokens ++ [.parenRight])))
      (.ofItems (Phrase.forms phrases) terminator) := by
  cases kind : terminator.isOf .list with
  | false =>
      rw [Value.ofItems_of_not_list (Phrase.forms_ne_nil nonempty) kind]
      exact .dotted each nonempty last kind
  | true =>
      cases terminator with
      | list items terminator =>
          rw [Value.ofItems_list]
          exact .merged each nonempty last
      | _ => cases kind

/-- A token that closes or divides a list is accepted only where the grammar has it. -/
theorem Opened.close {limit room : Nat} {taken : List Token} {contexts : List Reading.Context}
    {progress : Reading.Progress} (opened : Opened limit room taken contexts)
    (closed : Reading.close? contexts = some progress) :
    Reaches limit (taken ++ [.parenRight]) progress := by
  cases opened with
  | start => cases closed
  | quote outer => cases closed
  | terminator outer each nonempty => cases closed
  | items outer each =>
      cases closed
      have whole := outer.deliver (Derives.list each)
      simpa using whole

theorem Opened.dot {limit room : Nat} {taken : List Token} {contexts : List Reading.Context}
    {progress : Reading.Progress} (opened : Opened limit room taken contexts)
    (divided : Reading.dot? contexts = some progress) :
    Reaches limit (taken ++ [.dot]) progress := by
  cases opened with
  | start => cases divided
  | quote outer => cases divided
  | terminator outer each nonempty => cases divided
  | @items _ taken contexts phrases outer each =>
      unfold Reading.dot? at divided
      split at divided
      next item read others shape =>
          injection shape with same rest
          injection same with forms
          cases divided
          have nonempty : phrases ≠ [] := by
            rintro rfl
            cases forms
          subst rest
          rw [← forms]
          simpa using! Follows.expecting (Opened.terminator outer each nonempty)
      next => cases divided

/-- One token keeps a reading in step with the grammar. -/
theorem Follows.accept {limit : Nat} {taken : List Token} {reading : Reading} {token : Token}
    {progress : Reading.Progress} (follows : Follows limit taken reading)
    (accepted : reading.accept? token = some progress)
    (within : ∀ next, progress = .more next → next.depth ≤ limit) :
    Reaches limit (taken ++ [token]) progress := by
  cases follows with
  | @closing room taken tokens contexts phrases terminator outer each nonempty last =>
      cases token with
      | parenRight =>
          cases accepted
          have whole := outer.deliver (Derives.dottedList each nonempty last)
          simpa using whole
      | _ => cases accepted
  | @expecting room taken contexts opened =>
      have atom (denoted : token.atom?.map (Reading.deliver · contexts) = some progress) :
          Reaches limit (taken ++ [token]) progress := by
        obtain ⟨value, found, rfl⟩ := Option.map_eq_some_iff.mp denoted
        exact opened.deliver (.atom (Token.atom?_eq_some_iff.mp found))
      cases token with
      | integer number => exact atom accepted
      | float number => exact atom accepted
      | string text => exact atom accepted
      | symbol name => exact atom accepted
      | parenRight => exact opened.close accepted
      | dot => exact opened.dot accepted
      | parenLeft =>
          cases accepted
          obtain ⟨inner, outer⟩ := opened.exists_succ (within _ rfl)
          have none : ∀ phrase ∈ ([] : List Phrase),
              Derives inner phrase.tokens phrase.form :=
            fun _ member => absurd member List.not_mem_nil
          exact .expecting (.items outer none)
      | quote =>
          cases accepted
          obtain ⟨inner, outer⟩ := opened.exists_succ (within _ rfl)
          exact .expecting (.quote outer)

/-- A run that ends in a form has taken tokens that derive it. -/
theorem derives_of_readFrom {limit : Nat} {taken tokens rest : List Token} {reading : Reading}
    {value : Value} (follows : Follows limit taken reading)
    (found : readFrom limit reading tokens = (.ok value, rest)) :
    ∃ more, tokens = more ++ rest ∧ Derives limit (taken ++ more) value := by
  -- Each token moves from what is left to what is taken, and `follows` goes along.
  induction tokens generalizing taken reading with
  | nil =>
      rw [readFrom_nil] at found
      cases found
  | cons token tokens ih =>
      cases accepted : reading.accept? token with
      | none =>
          rw [readFrom] at found
          simp [TokenSource.next, Reading.feed, accepted] at found
      | some progress =>
          rw [readFrom_cons accepted] at found
          cases progress with
          | form derived =>
              cases found
              exact ⟨[token], rfl, follows.accept accepted (fun _ same => by cases same)⟩
          | more next =>
              by_cases deep : limit < next.depth
              · rw [resume, if_pos deep] at found
                cases found
              · have within := Nat.not_lt.mp deep
                rw [resume_of_depth_le within] at found
                have ahead : Follows limit (taken ++ [token]) next :=
                  follows.accept accepted (fun _ same => by cases same; exact within)
                obtain ⟨more, rfl, derived⟩ := ih ahead found
                refine ⟨token :: more, rfl, ?_⟩
                rwa [List.append_assoc, List.singleton_append] at derived

/-- Within a limit, the reader gives a form exactly when the tokens it takes derive it. -/
theorem readFrom_start_eq_ok_iff {limit : Nat} {tokens rest : List Token} {value : Value} :
    readFrom limit .start tokens = (.ok value, rest) ↔
      ∃ taken, tokens = taken ++ rest ∧ Derives limit taken value := by
  constructor
  · intro found
    exact derives_of_readFrom (.expecting .start) found
  · rintro ⟨taken, rfl, derived⟩
    exact derived.delivers limit [] rest (Nat.le_of_eq (Nat.zero_add limit))

/-! ## Room for a form -/

theorem Derives.succ {depth : Nat} {tokens : List Token} {value : Value}
    (derived : Derives depth tokens value) : Derives (depth + 1) tokens value := by
  induction derived with
  | atom denoted => exact .atom denoted
  | quote inner ih => exact .quote ih
  | empty => exact .empty
  | collapsed inner ih => exact .collapsed ih
  | proper each nonempty notOneList ih => exact .proper ih nonempty notOneList
  | merged each nonempty last ih inner => exact .merged ih nonempty inner
  | dotted each nonempty last notList ih inner => exact .dotted ih nonempty inner notList

theorem Derives.mono {depth more : Nat} {tokens : List Token} {value : Value}
    (derived : Derives depth tokens value) (within : depth ≤ more) :
    Derives more tokens value := by
  induction within with
  | refl => exact derived
  | step _ ih => exact ih.succ

theorem Phrase.length_le_spread {phrase : Phrase} {phrases : List Phrase}
    (member : phrase ∈ phrases) : phrase.tokens.length ≤ (spread phrases).length := by
  obtain ⟨before, after, rfl⟩ := List.append_of_mem member
  simp only [spread_append, spread_cons, List.length_append]
  omega

/-- No form is nested more deeply than it has tokens. -/
theorem Derives.of_length_le {depth limit : Nat} {tokens : List Token} {value : Value}
    (derived : Derives depth tokens value) (room : tokens.length ≤ limit) :
    Derives limit tokens value := by
  -- The length itself is enough, and unlike a limit it shrinks along with the tokens.
  apply Derives.mono _ room
  clear room
  induction derived with
  | atom denoted => exact .atom denoted
  | quote inner ih => exact .quote ih
  | empty => exact .empty
  | collapsed inner ih =>
      exact .collapsed (ih.mono (by simp))
  | @proper depth phrases each nonempty notOneList ih =>
      refine .proper (fun phrase member => (ih phrase member).mono ?_) nonempty notOneList
      have shorter := Phrase.length_le_spread member
      rw [List.length_append]
      omega
  | @merged depth phrases tokens items terminator each nonempty last ih inner =>
      refine .merged (fun phrase member => (ih phrase member).mono ?_) nonempty
        (inner.mono (by simp; omega))
      have shorter := Phrase.length_le_spread member
      rw [List.length_append]
      omega
  | @dotted depth phrases tokens terminator each nonempty last notList ih inner =>
      refine .dotted (fun phrase member => (ih phrase member).mono ?_) nonempty
        (inner.mono (by simp; omega)) notList
      have shorter := Phrase.length_le_spread member
      rw [List.length_append]
      omega

end Form

/-- A token can be shown again unless it is an integer with too many digits, which no lexer
gives. -/
def Token.IsWritable : Token → Prop
  | .integer number => number.natAbs < Number.unwritable
  | _ => True

theorem Token.Denotes.exists_display {token : Token} {value : Value}
    (denoted : token.Denotes value) (writable : token.IsWritable) (limit : Nat) :
    ∃ text, value.display (limit + 1) = .ok text := by
  cases denoted with
  | integer number => exact ⟨_, Value.display_integer writable limit⟩
  | _ => exact ⟨_, rfl⟩

namespace Form

/-- Whether tokens, if they are writable, make a value printable with a level for each of them. -/
def Prints (tokens : List Token) (value : Value) : Prop :=
  ∀ limit, (∀ token ∈ tokens, token.IsWritable) → tokens.length ≤ limit →
    ∃ text, value.display limit = .ok text

theorem Prints.forms {phrases : List Phrase}
    (each : ∀ phrase ∈ phrases, Prints phrase.tokens phrase.form) {limit : Nat}
    (writable : ∀ token ∈ Phrase.spread phrases, token.IsWritable)
    (room : (Phrase.spread phrases).length ≤ limit) :
    ∀ item ∈ Phrase.forms phrases, ∃ text, item.display limit = .ok text := by
  intro item member
  obtain ⟨phrase, found, rfl⟩ := List.mem_map.mp member
  have shorter := Phrase.length_le_spread found
  refine each phrase found limit (fun token inside => writable token ?_) (by omega)
  exact List.mem_flatMap_of_mem found inside

/-- A form made of writable tokens can be printed when the limit leaves a level for each token. -/
theorem Derives.prints {depth : Nat} {tokens : List Token} {value : Value}
    (derived : Derives depth tokens value) : Prints tokens value := by
  induction derived with
  | atom denoted =>
      intro limit writable room
      obtain ⟨limit, rfl⟩ := Nat.exists_eq_add_of_le' room
      exact denoted.exists_display (writable _ List.mem_cons_self) limit
  | quote inner ih =>
      intro limit writable room
      obtain ⟨limit, rfl⟩ := Nat.exists_eq_add_of_le' (Nat.le_of_add_left_le room)
      obtain ⟨text, shown⟩ := ih limit (fun token member => writable token (.tail _ member))
        (Nat.le_of_add_le_add_right room)
      exact ⟨_, Value.display_quoted_eq_ok_iff.mpr ⟨text, shown, rfl⟩⟩
  | empty =>
      intro limit _ room
      obtain ⟨limit, rfl⟩ := Nat.exists_eq_add_of_le' (Nat.le_of_add_left_le room)
      exact ⟨"NIL", rfl⟩
  | collapsed inner ih =>
      intro limit writable room
      rw [List.length_cons, List.length_append] at room
      exact ih limit (fun token member => writable token (by simp [member])) (by omega)
  | proper each nonempty notOneList ih =>
      intro limit writable room
      rw [List.length_cons, List.length_append, List.length_singleton] at room
      obtain ⟨limit, rfl⟩ := Nat.exists_eq_add_of_le' (Nat.le_of_add_left_le room)
      refine Value.exists_display_list_iff.mpr ⟨?_, fun notNil => by cases notNil⟩
      exact Prints.forms ih (fun token member => writable token (by simp [member])) (by omega)
  | merged each nonempty last ih inner =>
      intro limit writable room
      simp only [List.length_cons, List.length_append, List.length_nil] at room
      have ended := inner limit (fun token member => writable token (by simp [member])) (by omega)
      obtain ⟨limit, rfl⟩ := Nat.exists_eq_add_of_le' (Nat.le_of_add_left_le room)
      obtain ⟨others, closed⟩ := Value.exists_display_list_iff.mp ended
      refine Value.exists_display_list_iff.mpr ⟨fun item member => ?_, closed⟩
      rcases List.mem_append.mp member with own | other
      · exact Prints.forms ih (fun token inside => writable token (by simp [inside])) (by omega)
          item own
      · exact others item other
  | dotted each nonempty last notList ih inner =>
      intro limit writable room
      simp only [List.length_cons, List.length_append, List.length_nil] at room
      obtain ⟨limit, rfl⟩ := Nat.exists_eq_add_of_le' (Nat.le_of_add_left_le room)
      refine Value.exists_display_list_iff.mpr ⟨?_, fun _ => ?_⟩
      · exact Prints.forms ih (fun token member => writable token (by simp [member])) (by omega)
      · exact inner limit (fun token member => writable token (by simp [member])) (by omega)

end Form

/-! ## Lexers give writable tokens -/

theorem Token.isWritable_of_classify {word : List UInt8} {token : Token}
    (given : classify word = .ok token) : token.IsWritable := by
  cases token with
  | integer number =>
      have read : ∃ chars, Number.Literal.integer? chars = some number := by
        unfold classify at given
        grind
      obtain ⟨chars, found⟩ := read
      exact Number.lt_unwritable
        (Number.Literal.natAbs_lt_of_inRange (Number.Literal.inRange_of_integer? found))
  | _ => exact True.intro

theorem Token.isWritable_of_ofLexeme {lexeme : Lexeme UInt8} {token : Token}
    (given : ofLexeme lexeme = .ok token) : token.IsWritable := by
  cases lexeme with
  | word symbols => exact isWritable_of_classify given
  | _ =>
      cases given
      exact True.intro

/-- Printing does not fail by the grammar. -/
theorem Value.shown_ne_parse (limit : Nat) (value : Value) (fault : ParseError) :
    value.shown limit ≠ .error (.parse fault) := by
  unfold shown
  cases value.display limit with
  | ok text => simp [Except.mapError]
  | error cause => cases cause <;> simp [Except.mapError, PrintError.toError, Error.tooDeep]

namespace Form

/-! ## The reader and the grammar agree -/

theorem read_eq_ok_iff {σ : Type} [TokenSource σ] {limit : Nat} {source rest : σ} {value : Value} :
    read limit source = (.ok value, rest) ↔
      readFrom limit .start source = (.ok value, rest) ∧
        ∃ text, value.display limit = .ok text := by
  unfold read
  constructor
  · intro found
    split at found
    next form after step =>
        injection found with result same
        obtain ⟨text, shown, rfl⟩ := Result.map_eq_ok_iff.mp result
        subst same
        exact ⟨step, text, Result.mapError_eq_ok_iff.mp shown⟩
    next cause after step => cases found
  · rintro ⟨found, text, shown⟩
    simp [found, Value.shown, shown, Except.mapError, Except.map]

theorem read_eq_error_iff {σ : Type} [TokenSource σ] {limit : Nat} {source rest : σ}
    {cause : Error} :
    read limit source = (.error cause, rest) ↔
      readFrom limit .start source = (.error cause, rest) ∨
        ∃ value, readFrom limit .start source = (.ok value, rest) ∧
          value.shown limit = .error cause := by
  unfold read
  constructor
  · intro failed
    split at failed
    next value after step =>
        injection failed with result same
        subst same
        refine .inr ⟨value, step, ?_⟩
        cases shown : value.shown limit with
        | ok text => rw [shown] at result; cases result
        | error cause => rw [shown] at result; exact congrArg Except.error (Except.error.inj result)
    next other after step =>
        cases failed
        exact .inl step
  · rintro (failed | ⟨value, found, refused⟩)
    · rw [failed]
    · rw [found]
      simp only [refused]
      rfl

theorem Derives.readFrom_start {limit : Nat} {taken : List Token} {value : Value}
    (derived : Derives limit taken value) (rest : List Token) :
    readFrom limit .start (taken ++ rest) = (.ok value, rest) :=
  readFrom_start_eq_ok_iff.mpr ⟨taken, rfl, derived⟩

theorem read_eq_ok_iff_derives {limit : Nat} {tokens rest : List Token} {value : Value} :
    read limit tokens = (.ok value, rest) ↔
      ∃ taken, tokens = taken ++ rest ∧ Derives limit taken value ∧
        ∃ text, value.display limit = .ok text := by
  rw [read_eq_ok_iff, readFrom_start_eq_ok_iff]
  constructor
  · rintro ⟨⟨taken, split, derived⟩, shown⟩
    exact ⟨taken, split, derived, shown⟩
  · rintro ⟨taken, split, derived, shown⟩
    exact ⟨⟨taken, split, derived⟩, shown⟩

/-- Two forms at the front of the same tokens are the same form. -/
theorem IsForm.unique {first second left right : List Token} {form other : Value}
    (derived : IsForm first form) (derivedToo : IsForm second other)
    (same : first ++ left = second ++ right) : first = second ∧ form = other := by
  obtain ⟨depth, derived⟩ := derived
  obtain ⟨depthToo, derivedToo⟩ := derivedToo
  have found := (derived.mono (Nat.le_max_left depth depthToo)).readFrom_start left
  have foundToo := (derivedToo.mono (Nat.le_max_right depth depthToo)).readFrom_start right
  rw [same] at found
  injection found.symm.trans foundToo with results rests
  rw [rests] at same
  exact ⟨List.append_cancel_right same, Except.ok.inj results⟩

/-- The reader accepts exactly the grammar: it returns a form when the tokens it takes derive that
form, whatever follows them.  The limit bounds how deeply a form may be nested and, as every form
is also printed, what can be shown; it is out of the way once there is a level for each token, if
these can be shown again as all tokens of a lexer can.  At most one beginning of a sequence derives
a form. -/
theorem read_accepts_grammar (tokens rest : List Token) (value : Value) :
    (∀ limit, read limit tokens = (.ok value, rest) ↔
      ∃ taken, tokens = taken ++ rest ∧ Derives limit taken value ∧
        ∃ text, value.display limit = .ok text) ∧
    ((∀ token ∈ tokens, token.IsWritable) → ∀ limit, tokens.length ≤ limit →
      (read limit tokens = (.ok value, rest) ↔
        ∃ taken, tokens = taken ++ rest ∧ IsForm taken value)) ∧
    (∀ (lexer : Lexer) (token : Token), .ok token ∈ lexer.outcomes → token.IsWritable) ∧
    ∀ first second left right form other, tokens = first ++ left → tokens = second ++ right →
      IsForm first form → IsForm second other → first = second ∧ form = other := by
  refine ⟨fun limit => read_eq_ok_iff_derives, fun writable limit room => ⟨?_, ?_⟩, ?_, ?_⟩
  · intro found
    obtain ⟨taken, split, derived, _⟩ := read_eq_ok_iff_derives.mp found
    exact ⟨taken, split, limit, derived⟩
  · rintro ⟨taken, rfl, depth, derived⟩
    have short : taken.length ≤ limit := by
      rw [List.length_append] at room
      omega
    have shown := derived.prints limit
      (fun token member => writable token (List.mem_append_left rest member)) short
    exact read_eq_ok_iff_derives.mpr ⟨taken, rfl, derived.of_length_le short, shown⟩
  · exact fun lexer token given => Lexer.all_outcomes Token.isWritable_of_ofLexeme given
  · intro first second left right form other split splitToo derived derivedToo
    exact derived.unique derivedToo (split.symm.trans splitToo)

/-- `(1 . x)` and a quote after it: the list ends in a folded name and the quote is left. -/
theorem read_accepts_dotted_pair :
    read 6 [Token.parenLeft, .integer 1, .dot, .symbol "x", .parenRight, .quote] =
      (.ok (.list [.integer 1] (.symbol "X")), [.quote]) := by
  have name : Token.Denotes (.symbol "x") (.symbol "X") := .symbol (by decide) (by decide)
  have one : ∀ phrase ∈ [(⟨[.integer 1], .integer 1⟩ : Phrase)],
      Derives 4 phrase.tokens phrase.form := by
    simpa using Derives.atom (.integer 1)
  have pair := Derives.dotted one (List.cons_ne_nil _ _) (.atom name) rfl
  have writable : ∀ token ∈ [Token.parenLeft, .integer 1, .dot, .symbol "x", .parenRight, .quote],
      token.IsWritable := by
    simp [Token.IsWritable, Number.lt_unwritable]
  have agreed := (read_accepts_grammar
    [.parenLeft, .integer 1, .dot, .symbol "x", .parenRight, .quote] [.quote]
    (.list [.integer 1] (.symbol "X"))).2.1 writable 6 (Nat.le_refl 6)
  exact agreed.mpr ⟨_, rfl, 5, pair⟩

end Form

end ConsLisp
