import ConsLisp.Proofs.Form.Progress
import ConsLisp.Proofs.Token.Buffering
import ConsLisp.Proofs.Token.WholeCharacters

/-!
# Reading on demand

A lexer asks its source for more only while the bytes at hand do not complete a token, and the
reader of forms asks for no token beyond the last one of a form.  A form that ends in a closing
parenthesis or in a string is therefore there as soon as its bytes are, whatever the source would
give after them.
-/

namespace ConsLisp

/-! ## Lexemes that need nothing behind them -/

/-- Whether a lexeme is a word, which goes on until something ends it. -/
def Lexeme.isWord {α : Type} : Lexeme α → Bool
  | .word _ | .escapedWord _ => true
  | _ => false

namespace Scan

variable {α : Type} {role : α → Role} {scan : Scan α} {front rest more : List α}
  {lexeme : Lexeme α}

theorem isWord_pendingWord (scan : Scan α) : scan.pendingWord.isWord = true := by
  unfold pendingWord
  cases scan.escaped <;> rfl

/-- A scan that finds something other than a word has taken all that it looked at. -/
theorem run_of_found (closed : lexeme.isWord = false)
    (found : run role scan (front ++ rest) = .found lexeme rest) :
    run role scan front = .found lexeme [] := by
  rw [run_append] at found
  cases scanned : run role scan front with
  | found first left =>
      rw [scanned] at found
      injection found with same others
      rw [same, List.append_left_eq_self.mp others]
  | unfinished next =>
      -- Nothing of the rest was taken, so its first symbol was left to the lexeme after a word.
      rw [scanned, Progress.resume] at found
      cases rest with
      | nil => cases found
      | cons symbol rest =>
          rw [run] at found
          split at found
          next after stepped =>
              have bound := length_of_found found
              have light := after.weight_le_one
              rw [List.length_cons] at bound
              omega
          next => simp at found
          next word stepped =>
              injection found with same
              rw [← same, eq_pendingWord_of_leave stepped, isWord_pendingWord] at closed
              cases closed

/-- A scan looks at most at one symbol that it does not take, and at none unless it finds a word. -/
theorem run_append_of_found (enough : rest ≠ [] ∨ lexeme.isWord = false)
    (found : run role scan (front ++ (rest ++ more)) = .found lexeme (rest ++ more)) :
    run role scan (front ++ rest) = .found lexeme rest := by
  rcases enough with nonempty | closed
  · rw [← List.append_assoc, run_append] at found
    cases scanned : run role scan (front ++ rest) with
    | found first left =>
        rw [scanned] at found
        injection found with same others
        rw [same, List.append_cancel_right others]
    | unfinished next =>
        rw [scanned] at found
        have bound := length_of_found found
        have light := next.weight_le_one
        have some := List.length_pos_iff.mpr nonempty
        rw [List.length_append] at bound
        omega
  · rw [run_append, run_of_found closed found]
    rfl

end Scan

namespace Token

/-- Whether a token is complete with its last byte, whatever comes after that. -/
def closesItself : Token → Bool
  | .string _ | .quote | .parenLeft | .parenRight => true
  | .integer _ | .float _ | .symbol _ | .dot => false

theorem closesItself_of_classify {word : List UInt8} {token : Token}
    (given : classify word = .ok token) : token.closesItself = false := by
  unfold classify at given
  grind [closesItself]

theorem isWord_of_ofLexeme {lexeme : Lexeme UInt8} {token : Token}
    (given : ofLexeme lexeme = .ok token) (closes : token.closesItself = true) :
    lexeme.isWord = false := by
  cases lexeme with
  | word word =>
      rw [closesItself_of_classify given] at closes
      cases closes
  | escapedWord word =>
      cases given
      cases closes
  | _ => rfl

end Token

namespace Alphabet

/-- Tokens of which the last one closes itself are found one by one, with no need of an end of the
source. -/
theorem exists_found_of_lex {content : List UInt8} {token : Token} {tokens : List Token}
    (lexed : bytes.lex content = .ok token :: tokens.map .ok)
    (closes : ∀ last ∈ (token :: tokens).getLast?, last.closesItself = true) :
    ∃ lexeme rest, Scan.start.run Role.ofByte content = .found lexeme rest ∧
      Token.ofLexeme lexeme = .ok token ∧ bytes.lex rest = tokens.map .ok := by
  cases scanned : Scan.start.run Role.ofByte content with
  | found lexeme rest =>
      rw [lex_of_found scanned] at lexed
      injection lexed with first others
      exact ⟨lexeme, rest, rfl, first, others⟩
  | unfinished scan =>
      -- What the end of the source completes is a word, and it would be the last token.
      rw [lex_of_unfinished scanned, ended] at lexed
      rcases scan.ending_cases with ending | ending | ending
      · rw [ending] at lexed
        cases lexed
      · rw [ending] at lexed
        injection lexed with first others
        obtain rfl : tokens = [] := List.map_eq_nil_iff.mp others.symm
        have word := Token.isWord_of_ofLexeme first (closes token rfl)
        rw [Scan.isWord_pendingWord] at word
        cases word
      · rw [ending] at lexed
        cases lexed

/-- Tokens of which the last one closes itself are the same when what is behind their bytes is cut
off. -/
theorem lex_append_of_found {front used rest : List UInt8} {lexeme : Lexeme UInt8} {token : Token}
    {tokens : List Token}
    (found : Scan.start.run Role.ofByte (front ++ (used ++ rest)) = .found lexeme (used ++ rest))
    (own : Token.ofLexeme lexeme = .ok token) (later : bytes.lex used = tokens.map .ok)
    (closes : ∀ last ∈ (token :: tokens).getLast?, last.closesItself = true) :
    bytes.lex (front ++ used) = (token :: tokens).map .ok := by
  have enough : used ≠ [] ∨ lexeme.isWord = false := by
    cases tokens with
    | nil => exact .inr (Token.isWord_of_ofLexeme own (closes token rfl))
    | cons second tokens =>
        refine .inl ?_
        rintro rfl
        cases later
  rw [lex_of_found (Scan.run_append_of_found enough found), later]
  exact congrArg (· :: tokens.map Except.ok) own

end Alphabet

namespace Lexer

/-! ## Chunks and what comes after them -/

/-- A lexer has bytes before it, partly in its buffer and partly in deliveries that it has not read,
and behind them a continuation of which it has read nothing. -/
structure Faces (continuation : List Chunk) (deliveries : List Delivery) (lexer : Lexer)
    (content : List UInt8) : Prop where
  nonempty : ∀ delivery ∈ deliveries, delivery.bytes ≠ []
  reads : lexer.reads = deliveries.flatMap Delivery.reads ++ continuation
  content : lexer.buffer ++ deliveries.flatMap Delivery.bytes = content

variable {continuation : List Chunk} {deliveries : List Delivery} {lexer : Lexer}
  {content rest : List UInt8}

theorem refill_interrupted (scan : Scan UInt8) (interruptions : Nat) (reads : List Chunk) :
    refill scan (List.replicate interruptions .interrupted ++ reads) = refill scan reads := by
  induction interruptions with
  | zero => rfl
  | succ interruptions ih => exact ih

/-- A lexeme that the deliveries hold is found without a look at the continuation. -/
theorem refill_faces (nonempty : ∀ delivery ∈ deliveries, delivery.bytes ≠ [])
    {scan : Scan UInt8} {lexeme : Lexeme UInt8}
    (found : scan.run Role.ofByte (deliveries.flatMap Delivery.bytes) = .found lexeme rest) :
    ∃ after unread,
      refill scan (deliveries.flatMap Delivery.reads ++ continuation) =
        ((Token.ofLexeme lexeme).map some, after) ∧
      unread <:+ deliveries ∧ Faces continuation unread after rest := by
  induction deliveries generalizing scan with
  | nil => cases found
  | cons delivery deliveries ih =>
      obtain ⟨own, others⟩ := List.forall_mem_cons.mp nonempty
      have filled : ¬ delivery.bytes.isEmpty = true := by simpa using own
      rw [List.flatMap_cons, Scan.run_append] at found
      rw [List.flatMap_cons, Delivery.reads_eq, List.append_assoc, List.append_assoc,
        refill_interrupted, List.singleton_append, refill, if_neg filled]
      cases scanned : scan.run Role.ofByte delivery.bytes with
      | found first left =>
          rw [scanned] at found
          injection found with same behind
          subst same
          exact ⟨_, deliveries, rfl, List.suffix_cons delivery deliveries, others, rfl, behind⟩
      | unfinished next =>
          rw [scanned] at found
          obtain ⟨after, unread, step, left, faces⟩ := ih others found
          exact ⟨after, unread, step, left.trans (List.suffix_cons delivery deliveries), faces⟩

theorem next_faces (faces : Faces continuation deliveries lexer content) {lexeme : Lexeme UInt8}
    (found : Scan.start.run Role.ofByte content = .found lexeme rest) :
    ∃ after unread, lexer.next = ((Token.ofLexeme lexeme).map some, after) ∧
      unread <:+ deliveries ∧ Faces continuation unread after rest := by
  obtain ⟨nonempty, reads, rfl⟩ := faces
  rw [Scan.run_append] at found
  unfold next
  cases scanned : Scan.start.run Role.ofByte lexer.buffer with
  | found first left =>
      rw [scanned] at found
      injection found with same behind
      subst same
      exact ⟨_, deliveries, rfl, List.suffix_rfl, nonempty, reads, behind⟩
  | unfinished scan =>
      rw [scanned] at found
      rw [reads]
      exact refill_faces nonempty found

end Lexer

/-! ## Tokens of a source -/

/-- A source gives these tokens, one step each, and is then another one. -/
inductive Gives {σ : Type} [TokenSource σ] : σ → List Token → σ → Prop where
  | nothing (source : σ) : Gives source [] source
  | token {source next last : σ} {token : Token} {tokens : List Token}
      (step : TokenSource.next source = (.ok (some token), next)) (later : Gives next tokens last) :
      Gives source (token :: tokens) last

theorem Gives.unique {σ : Type} [TokenSource σ] {source last other : σ} {tokens : List Token}
    (gives : Gives source tokens last) (givesToo : Gives source tokens other) : last = other := by
  induction gives with
  | nothing source =>
      cases givesToo
      rfl
  | token step later ih =>
      cases givesToo with
      | token stepToo laterToo =>
          cases step.symm.trans stepToo
          exact ih laterToo

theorem Gives.ofSource {lexer after : Lexer} {tokens : List Token}
    (gives : Gives lexer tokens after) :
    Gives (TokenStream.ofSource lexer) tokens (TokenStream.ofSource after) := by
  induction gives with
  | nothing lexer => exact .nothing _
  | @token lexer next last token tokens step later ih =>
      have advanced : (TokenStream.ofSource lexer).advance =
          ((TokenSource.next lexer).1, ⟨none, (TokenSource.next lexer).2⟩) := rfl
      rw [step] at advanced
      exact .token advanced ih

namespace Form

/-- Where a reader of tokens does not run out of them, it reads a source that gives these tokens
just so, and takes no more of them. -/
theorem readFrom_of_gives {σ : Type} [TokenSource σ] {limit : Nat} {reading : Reading}
    {source last : σ} {tokens left : List Token} {result : Except Error Value}
    (gives : Gives source tokens last) (found : readFrom limit reading tokens = (result, left))
    (settled : ∀ fault, result ≠ .error (.parse fault)) :
    ∃ taken after, tokens = taken ++ left ∧ Gives source taken after ∧
      readFrom limit reading source = (result, after) := by
  induction gives generalizing reading with
  | nothing source =>
      rw [readFrom_nil] at found
      cases found
      exact absurd rfl (settled reading.endError)
  | @token source next last token tokens step later ih =>
      rw [readFrom] at found ⊢
      rw [step]
      simp only [TokenSource.next] at found ⊢
      cases fed : reading.feed token with
      | error fault =>
          rw [fed] at found
          cases found
          exact absurd rfl (settled fault)
      | ok progress =>
          rw [fed] at found
          cases progress with
          | form value =>
              cases found
              exact ⟨[token], next, rfl, .token step (.nothing next), rfl⟩
          | more following =>
              simp only at found ⊢
              split at found
              next deep =>
                  cases found
                  rw [if_pos deep]
                  exact ⟨[token], next, rfl, .token step (.nothing next), rfl⟩
              next within =>
                  obtain ⟨taken, after, rfl, given, same⟩ := ih found
                  rw [if_neg within]
                  exact ⟨token :: taken, after, rfl, .token step given, same⟩

/-- A form that is read within one limit is read within another one or is nested too deeply
for it. -/
theorem readFrom_of_limit {room : Nat} {reading : Reading} {tokens : List Token} {value : Value}
    {rest : List Token} (found : readFrom room reading tokens = (.ok value, rest)) (limit : Nat) :
    readFrom limit reading tokens = (.ok value, rest) ∨
      (readFrom limit reading tokens).1 = .error (.tooDeep .reading) := by
  induction tokens generalizing reading with
  | nil =>
      rw [readFrom_nil] at found
      cases found
  | cons token tokens ih =>
      cases accepted : reading.accept? token with
      | none =>
          rw [readFrom] at found
          simp [TokenSource.next, Reading.feed, accepted] at found
      | some progress =>
          rw [readFrom_cons accepted] at found ⊢
          cases progress with
          | form value => exact .inl found
          | more next =>
              unfold resume at found ⊢
              simp only at found ⊢
              split at found
              · cases found
              · split
                · exact .inr rfl
                · exact ih found

end Form

namespace Lexer.Faces

variable {continuation : List Chunk} {deliveries : List Delivery} {lexer : Lexer}
  {content : List UInt8}

/-- A lexer before bytes whose last token closes itself gives their tokens and has then taken no
more bytes than these are read from. -/
theorem gives {taken left : List Token} (faces : Faces continuation deliveries lexer content)
    (lexed : Alphabet.bytes.lex content = (taken ++ left).map .ok)
    (closes : ∀ last ∈ (taken ++ left).getLast?, last.closesItself = true) :
    ∃ after unread used rest, Gives lexer taken after ∧ unread <:+ deliveries ∧
      Faces continuation unread after rest ∧ content = used ++ rest ∧
      (left = [] → Alphabet.bytes.lex used = taken.map .ok) := by
  induction taken generalizing lexer deliveries content with
  | nil =>
      exact ⟨lexer, deliveries, [], content, .nothing lexer, List.suffix_rfl, faces, rfl,
        fun _ => rfl⟩
  | cons token taken ih =>
      obtain ⟨lexeme, behind, found, own, later⟩ := Alphabet.exists_found_of_lex lexed closes
      obtain ⟨next, unread, step, fewer, ahead⟩ := next_faces faces found
      rw [own] at step
      have closesLater : ∀ last ∈ (taken ++ left).getLast?, last.closesItself = true := by
        intro last member
        refine closes last ?_
        rw [List.cons_append, List.getLast?_cons, member]
        rfl
      obtain ⟨after, least, used, rest, gives, fewest, facing, rfl, whole⟩ :=
        ih ahead later closesLater
      obtain ⟨front, rfl⟩ := Scan.exists_used_of_found found
      refine ⟨after, least, front ++ used, rest, .token step gives, fewest.trans fewer, facing,
        (List.append_assoc front used rest).symm, fun none => ?_⟩
      subst none
      rw [List.append_nil] at closes
      exact Alphabet.lex_append_of_found found own (whole rfl) closes

variable {tokens : List Token} {depth : Nat} {value : Value}

/-- What a form is read from when the lexer stands before its bytes.  The limit decides whether the
form comes out or is nested too deeply. -/
theorem readFrom (faces : Faces continuation deliveries lexer content)
    (lexed : Alphabet.bytes.lex content = tokens.map .ok)
    (closes : ∀ last ∈ tokens.getLast?, last.closesItself = true)
    (derived : Form.Derives depth tokens value) (limit : Nat) :
    ∃ result after unread used rest,
      Form.readFrom limit .start (TokenStream.ofSource lexer) = (result, .ofSource after) ∧
      unread <:+ deliveries ∧ Faces continuation unread after rest ∧ content = used ++ rest ∧
      (result = .ok value ∧ Alphabet.bytes.lex used = tokens.map .ok ∨
        result = .error (.tooDeep .reading) ∧ ¬ Form.Derives limit tokens value) := by
  have all : tokens ++ [] = tokens := List.append_nil tokens
  obtain ⟨_, _, _, _, gives, -⟩ := faces.gives (all.symm ▸ lexed) (all.symm ▸ closes)
  have alone := derived.readFrom_start []
  rw [all] at alone
  have outcome := Form.readFrom_of_limit alone limit
  cases found : Form.readFrom limit .start tokens with
  | mk result left =>
      have settled : ∀ fault, result ≠ .error (.parse fault) := by
        rintro fault rfl
        rw [found] at outcome
        simp [Error.tooDeep] at outcome
      -- Of all tokens before it the reader takes some, and the lexer stands where these end.
      obtain ⟨taken, _, rfl, given, same⟩ := Form.readFrom_of_gives gives.ofSource found settled
      obtain ⟨after, unread, used, rest, gives, fewer, facing, split, whole⟩ :=
        faces.gives lexed closes
      cases given.unique gives.ofSource
      refine ⟨result, after, unread, used, rest, same, fewer, facing, split, ?_⟩
      rcases outcome with ok | deep
      · cases found.symm.trans ok
        rw [List.append_nil]
        exact .inl ⟨rfl, whole rfl⟩
      · rw [found] at deep
        refine .inr ⟨deep, fun within => ?_⟩
        have fits := within.readFrom_start []
        rw [all, found] at fits
        injection fits with ok
        cases deep.symm.trans ok

/-- Reading a form that the lexer stands before takes its bytes if it comes out, and no more of the
source than holds them in any case. -/
theorem read (faces : Faces continuation deliveries lexer content)
    (lexed : Alphabet.bytes.lex content = tokens.map .ok)
    (closes : ∀ last ∈ tokens.getLast?, last.closesItself = true)
    (derived : Form.Derives depth tokens value) (limit : Nat) :
    ∃ after unread used rest,
      (Form.read limit (TokenStream.ofSource lexer)).2 = .ofSource after ∧
      unread <:+ deliveries ∧ Faces continuation unread after rest ∧ content = used ++ rest ∧
      (Form.Derives limit tokens value → (∃ text, value.display limit = .ok text) →
        (Form.read limit (TokenStream.ofSource lexer)).1 = .ok value) ∧
      ((Form.read limit (TokenStream.ofSource lexer)).1 = .ok value →
        Alphabet.bytes.lex used = tokens.map .ok) := by
  obtain ⟨result, after, unread, used, rest, found, fewer, facing, split, outcome⟩ :=
    faces.readFrom lexed closes derived limit
  refine ⟨after, unread, used, rest, by rw [Form.read_snd, found], fewer, facing, split, ?_⟩
  rcases outcome with ⟨rfl, whole⟩ | ⟨rfl, deep⟩
  · refine ⟨fun _ shown => ?_, fun _ => whole⟩
    rw [Form.read_eq_ok_iff.mpr ⟨found, shown⟩]
  · refine ⟨fun within => absurd within deep, fun ok => ?_⟩
    rw [Form.read, found] at ok
    cases ok

theorem eq_of_nil (faces : Faces continuation deliveries lexer []) :
    lexer = ⟨[], continuation⟩ := by
  obtain ⟨nonempty, reads, content⟩ := faces
  obtain ⟨buffer, nothing⟩ := List.append_eq_nil_iff.mp content
  obtain rfl : deliveries = [] := by
    cases deliveries with
    | nil => rfl
    | cons delivery deliveries =>
        have empty := (List.append_eq_nil_iff.mp nothing).1
        exact absurd empty (nonempty delivery List.mem_cons_self)
  cases lexer
  cases buffer
  cases reads
  rfl

end Lexer.Faces

theorem Lexer.isWritable_of_outcomes {lexer : Lexer} {tokens : List Token}
    (lexed : lexer.outcomes = tokens.map .ok) : ∀ token ∈ tokens, token.IsWritable := by
  intro token member
  have given : .ok token ∈ lexer.outcomes := by
    rw [lexed]
    exact List.mem_map_of_mem member
  exact all_outcomes Token.isWritable_of_ofLexeme given

namespace Form

/-- A form is there as soon as its bytes are.  Let pieces of a stream, with any interruptions before
them, hold the tokens of one form that ends in a closing parenthesis or in a string.  Whatever the
stream has after these pieces, more of them, failing reads or its end, reading leaves all of it
unread; and the form comes out, unless it is nested too deeply to be read or shown within the limit,
which it is not when there is a level for each token.  If the last byte is the one that completes
the form, all pieces have then been read and nothing is left over from them. -/
theorem read_takes_no_more_than_form {deliveries : List Delivery} {tokens : List Token}
    {value : Value} (asked : Int)
    (nonempty : ∀ delivery ∈ deliveries, delivery.bytes ≠ [])
    (lexed : (Lexer.ofSource (Source.bufferSize asked)
      (.bytes (deliveries.flatMap Delivery.bytes))).outcomes = tokens.map .ok)
    (form : IsForm tokens value)
    (closes : tokens.getLast? = some .parenRight ∨ ∃ text, tokens.getLast? = some (.string text))
    (continuation : List Chunk) :
    let stream := TokenStream.ofSource (Lexer.ofSource (Source.bufferSize asked)
      (.stream (deliveries.flatMap Delivery.reads ++ continuation)))
    (∀ limit, ∃ lexer unread, (read limit stream).2 = .ofSource lexer ∧ unread <:+ deliveries ∧
      lexer.reads = unread.flatMap Delivery.reads ++ continuation) ∧
    (∀ limit, Derives limit tokens value → (∃ text, value.display limit = .ok text) →
      (read limit stream).1 = .ok value) ∧
    (∀ limit, tokens.length ≤ limit → (read limit stream).1 = .ok value) ∧
    ((∀ front, front <+: deliveries.flatMap Delivery.bytes →
        (Lexer.ofSource (Source.bufferSize asked) (.bytes front)).outcomes = tokens.map .ok →
        front = deliveries.flatMap Delivery.bytes) →
      ∀ limit, (read limit stream).1 = .ok value →
        (read limit stream).2 = .ofSource ⟨[], continuation⟩) := by
  intro stream
  have writable := Lexer.isWritable_of_outcomes lexed
  rw [Lexer.outcomes_ofSource_bytes] at lexed
  have closed : ∀ last ∈ tokens.getLast?, last.closesItself = true := by
    intro last member
    rcases closes with right | ⟨text, quoted⟩
    · cases member.symm.trans right
      rfl
    · cases member.symm.trans quoted
      rfl
  obtain ⟨depth, derived⟩ := form
  have faces : Lexer.Faces continuation deliveries stream.source
      (deliveries.flatMap Delivery.bytes) := ⟨nonempty, rfl, rfl⟩
  have reading := faces.read lexed closed derived
  refine ⟨fun limit => ?_, fun limit within shown => ?_, fun limit room => ?_,
    fun complete limit ok => ?_⟩
  · obtain ⟨after, unread, _, _, left, fewer, facing, -⟩ := reading limit
    exact ⟨after, unread, left, fewer, facing.reads⟩
  · obtain ⟨_, _, _, _, -, -, -, -, comes, -⟩ := reading limit
    exact comes within shown
  · obtain ⟨_, _, _, _, -, -, -, -, comes, -⟩ := reading limit
    exact comes (derived.of_length_le room) (derived.prints limit writable room)
  · obtain ⟨after, unread, used, rest, left, -, facing, split, -, whole⟩ := reading limit
    have all : used = deliveries.flatMap Delivery.bytes :=
      complete used ⟨rest, split.symm⟩ (by rw [Lexer.outcomes_ofSource_bytes, whole ok])
    rw [← all] at split
    cases List.append_right_eq_self.mp split.symm
    exact left.trans (congrArg TokenStream.ofSource facing.eq_of_nil)

/-- The form `'(a "b")` in three pieces, cut inside its string, before a read that fails. -/
theorem read_takes_no_more_than_quoted_list :
    let deliveries : List Delivery := [⟨1, .inr "'(a \"b"⟩, ⟨0, .inl [0x22]⟩, ⟨2, .inr ")"⟩]
    let tokens : List Token := [.quote, .parenLeft, .symbol "a", .string "b", .parenRight]
    let value : Value := .quoted (.list [.symbol "A", .string "b"] .nil)
    (∀ delivery ∈ deliveries, delivery.bytes ≠ []) ∧
      (Lexer.ofSource (Source.bufferSize 2)
        (.bytes (deliveries.flatMap Delivery.bytes))).outcomes = tokens.map .ok ∧
      IsForm tokens value ∧
      read 5 (TokenStream.ofSource (Lexer.ofSource (Source.bufferSize 2)
        (.stream (deliveries.flatMap Delivery.reads ++ [.failure "broken pipe"])))) =
          (.ok value, .ofSource ⟨[], [.failure "broken pipe"]⟩) := by
  intro deliveries tokens value
  have nonempty : ∀ delivery ∈ deliveries, delivery.bytes ≠ [] := by
    simp [deliveries, Delivery.bytes, Text.Utf8.encode]
  have lexed : (Lexer.ofSource (Source.bufferSize 2)
      (.bytes (deliveries.flatMap Delivery.bytes))).outcomes = tokens.map .ok :=
    (Lexer.outcomes_ofSource_bytes _ _).trans rfl
  have name : Token.Denotes (.symbol "a") (.symbol "A") := .symbol (by decide) (by decide)
  have each : ∀ phrase ∈ [(⟨[.symbol "a"], .symbol "A"⟩ : Phrase), ⟨[.string "b"], .string "b"⟩],
      Derives 0 phrase.tokens phrase.form := by
    simpa using ⟨Derives.atom name, Derives.atom (.string "b")⟩
  have form : IsForm tokens value :=
    ⟨2, .quote (.proper each (List.cons_ne_nil _ _) (by simp))⟩
  -- Without its last byte the content has four tokens only.
  have shorter : ∀ count < 8, (Alphabet.bytes.lex
      ((deliveries.flatMap Delivery.bytes).take count)).length ≠ 5 := by decide
  have complete : ∀ front, front <+: deliveries.flatMap Delivery.bytes →
      (Lexer.ofSource (Source.bufferSize 2) (.bytes front)).outcomes = tokens.map .ok →
      front = deliveries.flatMap Delivery.bytes := by
    intro front cut same
    rw [Lexer.outcomes_ofSource_bytes] at same
    have all : 8 ≤ front.length := by
      refine Nat.le_of_not_lt fun less => shorter front.length less ?_
      rw [← List.prefix_iff_eq_take.mp cut, same]
      rfl
    exact cut.eq_of_length_le all
  obtain ⟨-, -, comes, left⟩ := read_takes_no_more_than_form 2 nonempty lexed form (.inl rfl)
    [.failure "broken pipe"]
  have found := comes 5 (Nat.le_refl 5)
  exact ⟨nonempty, lexed, form, Prod.ext found (left complete 5 found)⟩

end Form

end ConsLisp
