import ConsLisp.Proofs.Token.Delivery

/-!
# Lexing in one pass

A lexer starts a new scan for every lexeme.  The same lexemes come out of a single pass over the
symbols, in which the scan in progress is all that is remembered; so what stands before a point of
the source matters to what comes after it only through that scan.  At the end of a line outside
strings nothing is remembered.
-/

namespace ConsLisp

namespace Scan

variable {α : Type}

/-- The lexeme a step completes, if any, and the scan after it. -/
def Step.emitted : Step α → List (Lexeme α) × Scan α
  | .more next => ([], next)
  | .take lexeme => ([lexeme], start)
  | .leave lexeme => ([lexeme], start)

/-- Takes one symbol.  One that is left for the next lexeme is looked at once more. -/
def advance (scan : Scan α) (role : Role) (symbol : α) : List (Lexeme α) × Scan α :=
  match scan.step role symbol with
  | .leave lexeme =>
      let again := (start.step role symbol).emitted
      (lexeme :: again.1, again.2)
  | step => step.emitted

/-- The lexemes completed by symbols, and the scan in progress when they run out. -/
def lexemes (role : α → Role) : Scan α → List α → List (Lexeme α) × Scan α
  | scan, [] => ([], scan)
  | scan, symbol :: rest =>
      let now := scan.advance (role symbol) symbol
      let later := lexemes role now.2 rest
      (now.1 ++ later.1, later.2)

variable {role : α → Role} {scan next : Scan α} {symbols rest : List α} {lexeme : Lexeme α}

theorem lexemes_append (scan : Scan α) (symbols more : List α) :
    lexemes role scan (symbols ++ more) =
      ((lexemes role scan symbols).1 ++ (lexemes role (lexemes role scan symbols).2 more).1,
        (lexemes role (lexemes role scan symbols).2 more).2) := by
  induction symbols generalizing scan with
  | nil => rfl
  | cons symbol symbols ih => simp [lexemes, ih]

/-- The first symbol of a lexeme is never left for the next one. -/
theorem start_step_ne_leave (own : Role) (symbol : α) (lexeme : Lexeme α) :
    start.step own symbol ≠ .leave lexeme := by
  intro left
  have weight := weight_of_leave left
  cases weight

theorem advance_start (own : Role) (symbol : α) :
    start.advance own symbol = (start.step own symbol).emitted := by
  unfold advance
  split
  next lexeme left => exact absurd left (start_step_ne_leave own symbol lexeme)
  next => rfl

theorem lexemes_of_unfinished (unfinished : run role scan symbols = .unfinished next) :
    lexemes role scan symbols = ([], next) := by
  induction symbols generalizing scan with
  | nil =>
      cases unfinished
      rfl
  | cons symbol symbols ih =>
      rw [run] at unfinished
      split at unfinished
      next after stepped => simp [lexemes, advance, stepped, Step.emitted, ih unfinished]
      next => cases unfinished
      next => cases unfinished

theorem lexemes_of_found (found : run role scan symbols = .found lexeme rest) :
    lexemes role scan symbols =
      (lexeme :: (lexemes role start rest).1, (lexemes role start rest).2) := by
  induction symbols generalizing scan with
  | nil => cases found
  | cons symbol symbols ih =>
      rw [run] at found
      split at found
      next after stepped => simp [lexemes, advance, stepped, Step.emitted, ih found]
      next stepped =>
          cases found
          simp [lexemes, advance, stepped, Step.emitted]
      next stepped =>
          cases found
          rw [lexemes, lexemes, advance_start]
          simp [advance, stepped]

/-! ## The end of a line -/

/-- Whatever was escaped is pending, unless it is still to come. -/
def Settled (scan : Scan α) : Prop :=
  scan.pending = [] → scan.escaped = scan.escaping

theorem settled_start : (start : Scan α).Settled :=
  fun _ => rfl

theorem settled_of_more {own : Role} {symbol : α} (settled : scan.Settled)
    (stepped : scan.step own symbol = .more next) : next.Settled := by
  obtain ⟨mode, pending, escaping, escaped⟩ := scan
  unfold Settled at *
  cases mode with
  | comment =>
      simp only [step] at stepped
      grind
  | code =>
      simp only [step, stepCode, push] at stepped
      cases own <;> grind
  | string alone =>
      simp only [step, push] at stepped
      grind

theorem settled_emitted {own : Role} {symbol : α} (settled : scan.Settled) :
    (scan.step own symbol).emitted.2.Settled := by
  cases stepped : scan.step own symbol with
  | more next => exact settled_of_more settled stepped
  | take lexeme => exact settled_start
  | leave lexeme => exact settled_start

theorem settled_lexemes (settled : scan.Settled) (symbols : List α) :
    (lexemes role scan symbols).2.Settled := by
  induction symbols generalizing scan with
  | nil => exact settled
  | cons symbol symbols ih =>
      refine ih ?_
      unfold advance
      split
      next => exact settled_emitted settled_start
      next => exact settled_emitted settled

/-- A scan that the end of a line completes: it is outside strings, and no backslash waits for the
symbol it escapes. -/
structure AtLineEnd (scan : Scan α) : Prop where
  outside : ∀ alone, scan.mode ≠ .string alone
  plain : scan.escaping = false

/-- What is pending outside of strings. -/
def pendingLexemes (scan : Scan α) : List (Lexeme α) :=
  if scan.pending.isEmpty then [] else [scan.pendingWord]

/-- The end of a line completes what is pending, and nothing is remembered. -/
theorem advance_newline (atEnd : scan.AtLineEnd) (settled : scan.Settled) (symbol : α) :
    scan.advance .newline symbol = (scan.pendingLexemes, start) := by
  obtain ⟨mode, pending, escaping, escaped⟩ := scan
  obtain ⟨outside, plain⟩ := atEnd
  simp only at outside plain
  subst plain
  cases pending with
  | nil =>
      obtain rfl : escaped = false := settled rfl
      cases mode with
      | string alone => exact absurd rfl (outside alone)
      | code => rfl
      | comment => rfl
  | cons first others =>
      cases mode with
      | string alone => exact absurd rfl (outside alone)
      | code => rfl
      | comment => rfl

theorem ending_of_atLineEnd (atEnd : scan.AtLineEnd) :
    scan.ending = .nothing ∧ scan.pendingLexemes = [] ∨
      scan.ending = .lexeme scan.pendingWord ∧ scan.pendingLexemes = [scan.pendingWord] := by
  unfold ending pendingLexemes
  cases mode : scan.mode with
  | string alone => exact absurd mode (atEnd.outside alone)
  | code => cases scan.pending.isEmpty <;> simp
  | comment => cases scan.pending.isEmpty <;> simp

end Scan

/-! ## Tokens and errors of lexemes -/

/-- What the symbols of an alphabet do and what they mean. -/
structure Alphabet (α : Type) where
  role : α → Role
  token : Lexeme α → Except LexicalError Token
  /-- What symbols are called in a message. -/
  text : List α → String

namespace Alphabet

def bytes : Alphabet UInt8 :=
  ⟨Role.ofByte, Token.ofLexeme, Text.Utf8.decode⟩

variable {α : Type} (alphabet : Alphabet α)

/-- The token or error that a scan amounts to when the source has ended. -/
def ended (scan : Scan α) : List (Except LexicalError Token) :=
  match scan.ending with
  | .nothing => []
  | .lexeme lexeme => [alphabet.token lexeme]
  | .unterminated pending => [.error (.unterminatedString (alphabet.text pending))]

/-- The tokens and errors of a source that is lexed in one pass. -/
def lex (symbols : List α) : List (Except LexicalError Token) :=
  let passed := Scan.start.lexemes alphabet.role symbols
  passed.1.map alphabet.token ++ alphabet.ended passed.2

variable {alphabet} {symbols rest : List α}

theorem lex_of_unfinished {scan : Scan α}
    (unfinished : Scan.start.run alphabet.role symbols = .unfinished scan) :
    alphabet.lex symbols = alphabet.ended scan := by
  rw [lex, Scan.lexemes_of_unfinished unfinished]
  rfl

theorem lex_of_found {lexeme : Lexeme α}
    (found : Scan.start.run alphabet.role symbols = .found lexeme rest) :
    alphabet.lex symbols = alphabet.token lexeme :: alphabet.lex rest := by
  rw [lex, Scan.lexemes_of_found found]
  rfl

/-- Lines are lexed one after the other: where a line ends outside strings and with no escape
pending, what comes after it is lexed as if it stood alone. -/
theorem lex_append_newline {newline : α} (ends : alphabet.role newline = .newline)
    (atEnd : (Scan.start.lexemes alphabet.role symbols).2.AtLineEnd) (more : List α) :
    alphabet.lex (symbols ++ newline :: more) = alphabet.lex symbols ++ alphabet.lex more := by
  have settled : (Scan.start.lexemes alphabet.role symbols).2.Settled :=
    Scan.settled_lexemes Scan.settled_start symbols
  have word : (Scan.start.lexemes alphabet.role symbols).2.pendingLexemes.map alphabet.token =
      alphabet.ended (Scan.start.lexemes alphabet.role symbols).2 := by
    unfold ended
    rcases Scan.ending_of_atLineEnd atEnd with ⟨ending, none⟩ | ⟨ending, one⟩
    · rw [ending, none]
      rfl
    · rw [ending, one]
      rfl
  simp only [lex, Scan.lexemes_append, Scan.lexemes, ends, Scan.advance_newline atEnd settled,
    List.map_append, word, List.append_assoc]

end Alphabet

namespace Lexer

theorem outcomes_of_map {lexer rest : Lexer} {result : Except LexicalError Token}
    (step : lexer.next = (result.map some, rest)) : lexer.outcomes = result :: rest.outcomes := by
  cases result with
  | ok token => exact outcomes_token step
  | error cause => exact outcomes_error step

/-- What is left when a lexer that holds all its bytes has scanned them to their end. -/
theorem outcomes_of_ending {bytes : List UInt8} {scan : Scan UInt8}
    (step : (ofBytes bytes).next = (ending scan, ofBytes [])) :
    (ofBytes bytes).outcomes = Alphabet.bytes.ended scan := by
  have nothing : (ofBytes []).outcomes = [] := outcomes_of_remaining_zero rfl
  unfold Alphabet.ended
  unfold ending at step
  cases ended : scan.ending with
  | nothing =>
      rw [ended] at step
      exact outcomes_end step
  | lexeme lexeme =>
      rw [ended] at step
      rw [outcomes_of_map step, nothing]
      rfl
  | unterminated pending =>
      rw [ended] at step
      rw [outcomes_error step, nothing]
      rfl

/-- A lexer gives the tokens and errors of a single pass over its bytes. -/
theorem outcomes_ofBytes (bytes : List UInt8) :
    (ofBytes bytes).outcomes = Alphabet.bytes.lex bytes := by
  have step := next_ofBytes bytes
  cases scanned : Scan.start.run Role.ofByte bytes with
  | unfinished scan =>
      rw [scanned] at step
      rw [Alphabet.lex_of_unfinished scanned]
      exact outcomes_of_ending step
  | found lexeme rest =>
      rw [scanned] at step
      have shorter := Scan.length_of_found scanned
      rw [Alphabet.lex_of_found scanned, ← outcomes_ofBytes rest]
      exact outcomes_of_map step
termination_by bytes.length
decreasing_by
  have fresh : (Scan.start : Scan UInt8).weight = 0 := rfl
  omega

theorem outcomes_ofSource_bytes (size : Nat) (bytes : List UInt8) :
    (ofSource size (.bytes bytes)).outcomes = Alphabet.bytes.lex bytes := by
  rw [outcomes_same (delivers_bytes size bytes), outcomes_ofBytes]

end Lexer

end ConsLisp
