import ConsLisp.Proofs.Result
import ConsLisp.Proofs.Token.Scan
import ConsLisp.Token.Outcomes

/-!
# Bytes delivered in pieces

How the bytes of a source are cut into reads makes no difference to what a lexer finds: it does
what it would do with all of them at hand.
-/

namespace ConsLisp

/-- What reads that do not fail deliver.  An interrupted read asks for another try, and an empty
chunk is the end, whatever may follow it. -/
inductive Chunk.Deliver : List Chunk → List UInt8 → Prop where
  | nothing : Deliver [] []
  | ended (reads : List Chunk) : Deliver (.bytes [] :: reads) []
  | interrupted {reads : List Chunk} {bytes : List UInt8} (later : Deliver reads bytes) :
      Deliver (.interrupted :: reads) bytes
  | more {chunk bytes : List UInt8} {reads : List Chunk} (nonempty : chunk ≠ [])
      (later : Deliver reads bytes) : Deliver (.bytes chunk :: reads) (chunk ++ bytes)

theorem Chunk.Deliver.whole (bytes : List UInt8) : Deliver [.bytes bytes] bytes := by
  by_cases empty : bytes = []
  · rw [empty]
    exact .ended []
  · have once := Deliver.more empty .nothing
    rwa [List.append_nil] at once

/-- A list cut into blocks is delivered whole, also if each block is first turned into bytes. -/
theorem Source.blocks_deliver {α : Type} (encoded : List α → List UInt8)
    (nonempty : ∀ items, items ≠ [] → encoded items ≠ [])
    (append : ∀ first second, encoded (first ++ second) = encoded first ++ encoded second)
    (size : Nat) (items : List α) :
    Chunk.Deliver ((blocks size items).map fun block => .bytes (encoded block))
      (encoded items) := by
  fun_induction blocks size items with
  | case1 items last => exact .whole (encoded items)
  | case2 items longer ih =>
      have begun : items.take size ≠ [] := by
        intro empty
        simp only [Bool.or_eq_true, decide_eq_true_eq, not_or] at longer
        rcases List.take_eq_nil_iff.mp empty with none | rfl
        · exact longer.2 none
        · exact longer.1 (Nat.zero_le size)
      have whole := Chunk.Deliver.more (nonempty _ begun) ih
      rwa [← append, List.take_append_drop] at whole

namespace Lexer

/-- The lexer that holds bytes and has nothing left to read. -/
def ofBytes (bytes : List UInt8) : Lexer :=
  ⟨bytes, []⟩

/-- The bytes a lexer holds together with those its reads deliver. -/
def Delivers (lexer : Lexer) (bytes : List UInt8) : Prop :=
  ∃ later, Chunk.Deliver lexer.reads later ∧ lexer.buffer ++ later = bytes

theorem delivers_ofBytes (bytes : List UInt8) : (ofBytes bytes).Delivers bytes :=
  ⟨[], .nothing, List.append_nil bytes⟩

/-- The next step of a lexer that holds all its bytes. -/
def found : Scan.Progress UInt8 → Found × Lexer
  | .found lexeme rest => ((Token.ofLexeme lexeme).map some, ofBytes rest)
  | .unfinished scan => (ending scan, ofBytes [])

theorem next_ofBytes (bytes : List UInt8) :
    (ofBytes bytes).next = found (Scan.start.run Role.ofByte bytes) := by
  cases run : Scan.run Role.ofByte Scan.start bytes <;> simp [next, ofBytes, run, found, refill]

/-- A step gives the same and leaves the same bytes. -/
def SameStep (first second : Found × Lexer) : Prop :=
  first.1 = second.1 ∧ ∃ rest, second.2 = ofBytes rest ∧ first.2.Delivers rest

theorem refill_same {reads : List Chunk} {bytes : List UInt8}
    (delivered : Chunk.Deliver reads bytes) (scan : Scan UInt8) :
    SameStep (refill scan reads) (found (scan.run Role.ofByte bytes)) := by
  induction delivered generalizing scan with
  | nothing => exact ⟨rfl, [], rfl, delivers_ofBytes []⟩
  | ended reads => exact ⟨rfl, [], rfl, delivers_ofBytes []⟩
  | interrupted later ih => exact ih scan
  | @more chunk bytes reads nonempty later ih =>
      have filled : chunk.isEmpty = false := by simpa using nonempty
      rw [refill, filled, if_neg Bool.false_ne_true, Scan.run_append]
      cases Scan.run Role.ofByte scan chunk with
      | found lexeme rest => exact ⟨rfl, rest ++ bytes, rfl, bytes, later, rfl⟩
      | unfinished next => exact ih next

/-- A lexer steps as if it had all its bytes at hand. -/
theorem next_same {lexer : Lexer} {bytes : List UInt8} (delivered : lexer.Delivers bytes) :
    SameStep lexer.next (ofBytes bytes).next := by
  obtain ⟨later, comes, rfl⟩ := delivered
  rw [next_ofBytes, Scan.run_append, next]
  cases Scan.run Role.ofByte Scan.start lexer.buffer with
  | found lexeme rest => exact ⟨rfl, rest ++ later, rfl, later, comes, rfl⟩
  | unfinished scan => exact refill_same comes scan

theorem delivers_bytes (size : Nat) (content : List UInt8) :
    (ofSource size (.bytes content)).Delivers content :=
  ⟨content, Source.blocks_deliver id (fun _ => id) (fun _ _ => rfl) size content, rfl⟩

theorem delivers_ofSource (size : Nat) (text : String) :
    (ofSource size (.text text)).Delivers (Text.Utf8.encode text) :=
  delivers_bytes size (Text.Utf8.encode text)

/-! ## All outcomes -/

theorem ofLexeme_of_map {lexeme : Lexeme UInt8} {token : Token}
    (given : (Token.ofLexeme lexeme).map some = .ok (some token)) :
    Token.ofLexeme lexeme = .ok token := by
  obtain ⟨own, same, equal⟩ := Result.map_eq_ok_iff.mp given
  cases equal
  exact same

theorem exists_lexeme_of_ending {scan : Scan UInt8} {token : Token}
    (given : ending scan = .ok (some token)) : ∃ lexeme, Token.ofLexeme lexeme = .ok token := by
  unfold ending at given
  split at given
  · cases given
  next lexeme _ => exact ⟨lexeme, ofLexeme_of_map given⟩
  · cases given

theorem exists_lexeme_of_refill {scan : Scan UInt8} {reads : List Chunk} {token : Token}
    (given : (refill scan reads).1 = .ok (some token)) :
    ∃ lexeme, Token.ofLexeme lexeme = .ok token := by
  fun_induction refill scan reads with
  | case1 => exact exists_lexeme_of_ending given
  | case2 scan reads ih => exact ih given
  | case3 => cases given
  | case4 => exact exists_lexeme_of_ending given
  | case5 scan bytes reads nonempty lexeme rest found =>
      exact ⟨lexeme, ofLexeme_of_map given⟩
  | case6 scan bytes reads nonempty next unfinished ih => exact ih given

/-- Every token of a lexer comes from a lexeme. -/
theorem exists_lexeme_of_next {lexer : Lexer} {token : Token}
    (given : lexer.next.1 = .ok (some token)) : ∃ lexeme, Token.ofLexeme lexeme = .ok token := by
  unfold next at given
  split at given
  next lexeme rest _ => exact ⟨lexeme, ofLexeme_of_map given⟩
  next => exact exists_lexeme_of_refill given

theorem outcomes_token {lexer rest : Lexer} {token : Token}
    (step : lexer.next = (.ok (some token), rest)) :
    lexer.outcomes = .ok token :: rest.outcomes := by
  rw [outcomes, step]

theorem outcomes_end {lexer rest : Lexer} (step : lexer.next = (.ok none, rest)) :
    lexer.outcomes = [] := by
  rw [outcomes, step]

theorem outcomes_error {lexer rest : Lexer} {cause : LexicalError}
    (step : lexer.next = (.error cause, rest)) :
    lexer.outcomes = .error cause :: rest.outcomes := by
  rw [outcomes, step]

/-- A lexer with nothing left gives nothing. -/
theorem outcomes_of_remaining_zero {lexer : Lexer} (nothing : lexer.remaining = 0) :
    lexer.outcomes = [] := by
  by_cases ended : lexer.next.1 = .ok none
  · exact outcomes_end (Prod.ext ended rfl)
  · have progress := lexer.next_remaining ended
    omega

/-- How bytes are delivered does not change the tokens and errors they give. -/
theorem outcomes_same {lexer : Lexer} {bytes : List UInt8} (delivered : lexer.Delivers bytes) :
    lexer.outcomes = (ofBytes bytes).outcomes := by
  obtain ⟨equal, rest, same, still⟩ := next_same delivered
  have whole : (ofBytes bytes).next = (lexer.next.1, ofBytes rest) := Prod.ext equal.symm same
  have progress := lexer.next_remaining
  -- The two lexers take the same step; whatever is not the end leaves less to read.
  cases step : lexer.next with
  | mk result after =>
      rw [step] at whole still progress
      rcases result with cause | found
      · have smaller := progress (by simp)
        rw [outcomes_error step, outcomes_error whole, outcomes_same still]
      rcases found with none | token
      · rw [outcomes_end step, outcomes_end whole]
      · have smaller := progress (by simp)
        rw [outcomes_token step, outcomes_token whole, outcomes_same still]
termination_by lexer.remaining

/-- A property of the tokens of all lexemes holds of all tokens of a lexer. -/
theorem all_outcomes {holds : Token → Prop}
    (each : ∀ {lexeme token}, Token.ofLexeme lexeme = .ok token → holds token) {lexer : Lexer}
    {token : Token} (given : .ok token ∈ lexer.outcomes) : holds token := by
  fun_induction outcomes lexer with
  | case1 => cases given
  | case2 lexer first rest step ih =>
      rcases List.mem_cons.mp given with same | later
      · cases same
        obtain ⟨lexeme, own⟩ := exists_lexeme_of_next (congrArg Prod.fst step)
        exact each own
      · exact ih later
  | case3 lexer cause rest step ih =>
      rcases List.mem_cons.mp given with same | later
      · cases same
      · exact ih later

end Lexer

end ConsLisp
