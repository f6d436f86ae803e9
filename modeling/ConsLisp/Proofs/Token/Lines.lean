import ConsLisp.Proofs.Token.Lexemes

/-!
# Lines and comments

At the end of a line outside of strings a lexer starts afresh, whatever was pending: lines can be
lexed one by one.  A comment runs to the end of its line and leaves pending what was pending before
it, so it makes no difference to the tokens and errors.
-/

namespace ConsLisp

namespace Scan

variable {α : Type} {role : α → Role} {scan : Scan α}

/-- The same scan inside a comment. -/
def commented (scan : Scan α) : Scan α :=
  { scan with mode := .comment }

/-- A semicolon outside of strings starts a comment, if it does not stand in one already. -/
theorem advance_semicolon (atEnd : scan.AtLineEnd) (symbol : α) :
    scan.advance .semicolon symbol = ([], scan.commented) := by
  obtain ⟨mode, pending, escaping, escaped⟩ := scan
  obtain ⟨outside, plain⟩ := atEnd
  simp only at outside plain
  subst plain
  cases mode with
  | string alone => exact absurd rfl (outside alone)
  | code => rfl
  | comment => rfl

/-- A comment takes everything up to the end of its line. -/
theorem lexemes_commented {comment : List α} (sameLine : ∀ symbol ∈ comment, role symbol ≠ .newline)
    (scan : Scan α) : lexemes role scan.commented comment = ([], scan.commented) := by
  induction comment with
  | nil => rfl
  | cons symbol comment ih =>
      have skipped : scan.commented.advance (role symbol) symbol = ([], scan.commented) := by
        have inside : scan.commented.step (role symbol) symbol = .more scan.commented := by
          simp only [step, commented, sameLine symbol List.mem_cons_self, if_false]
        rw [advance, inside]
        rfl
      have later := ih fun other member => sameLine other (List.mem_cons_of_mem symbol member)
      rw [lexemes, skipped, later]
      rfl

theorem AtLineEnd.commented (atEnd : scan.AtLineEnd) : scan.commented.AtLineEnd :=
  ⟨fun _ => Mode.noConfusion, atEnd.plain⟩

/-- At the end of its line a comment has changed nothing. -/
theorem lexemes_comment {semicolon newline : α} {comment : List α}
    (starts : role semicolon = .semicolon) (ends : role newline = .newline)
    (sameLine : ∀ symbol ∈ comment, role symbol ≠ .newline) (atEnd : scan.AtLineEnd)
    (settled : scan.Settled) (more : List α) :
    lexemes role scan (semicolon :: (comment ++ newline :: more)) =
      lexemes role scan (newline :: more) := by
  have commentEnds : scan.commented.advance .newline newline = (scan.pendingLexemes, start) :=
    advance_newline atEnd.commented settled newline
  rw [lexemes, starts, advance_semicolon atEnd, lexemes_append, lexemes_commented sameLine, lexemes,
    lexemes, ends, commentEnds, advance_newline atEnd settled]
  rfl

end Scan

namespace Alphabet

variable {α : Type} {alphabet : Alphabet α} {symbols : List α}

/-- Whether symbols end in a backslash that still waits for the symbol it escapes. -/
def endsEscaping (alphabet : Alphabet α) (symbols : List α) : Bool :=
  (Scan.start.lexemes alphabet.role symbols).2.escaping

/-- Symbols after which a line may end: they do not end inside a string, and no backslash waits. -/
theorem atLineEnd_of_lex
    (closed : ∀ pending,
      (alphabet.lex symbols).getLast? ≠ some (.error (.unterminatedString pending)))
    (plain : alphabet.endsEscaping symbols = false) :
    (Scan.start.lexemes alphabet.role symbols).2.AtLineEnd := by
  refine ⟨fun alone inside => ?_, plain⟩
  refine closed (alphabet.text (Scan.start.lexemes alphabet.role symbols).2.pending.reverse) ?_
  simp only [lex, ended, Scan.ending, inside, List.getLast?_concat]

/-- A comment is not seen. -/
theorem lex_append_comment {semicolon newline : α} {comment : List α}
    (starts : alphabet.role semicolon = .semicolon) (ends : alphabet.role newline = .newline)
    (sameLine : ∀ symbol ∈ comment, alphabet.role symbol ≠ .newline)
    (atEnd : (Scan.start.lexemes alphabet.role symbols).2.AtLineEnd) (more : List α) :
    alphabet.lex (symbols ++ semicolon :: (comment ++ newline :: more)) =
      alphabet.lex (symbols ++ newline :: more) := by
  have settled : (Scan.start.lexemes alphabet.role symbols).2.Settled :=
    Scan.settled_lexemes Scan.settled_start symbols
  simp only [lex, Scan.lexemes_append, Scan.lexemes_comment starts ends sameLine atEnd settled]

end Alphabet

namespace Lexer

theorem role_ne_newline {comment : List UInt8} (sameLine : 0x0A ∉ comment) :
    ∀ byte ∈ comment, Alphabet.bytes.role byte ≠ .newline := by
  intro byte member ends
  have code : byte.toNat = 0x0A := by
    simp only [Alphabet.bytes, Role.ofByte, Role.ofCode] at ends
    grind
  obtain rfl : byte = 0x0A := UInt8.toNat_inj.mp code
  exact sameLine member

/-- Lexing goes line by line and does not see comments.  If bytes do not leave a string open and do
not end in a backslash that waits for the byte it escapes, then at the end of a line their tokens
and errors, also where they stop inside a comment or a word, are followed by those of the bytes
after it as if these stood alone; and before the end of the line there may be a semicolon with
anything behind it. -/
theorem outcomes_line_by_line (asked : Int) (line comment more : List UInt8) :
    let lex := fun bytes => (ofSource (Source.bufferSize asked) (.bytes bytes)).outcomes
    (∀ pending, (lex line).getLast? ≠ some (.error (.unterminatedString pending))) →
    Alphabet.bytes.endsEscaping line = false →
    0x0A ∉ comment →
      lex (line ++ 0x0A :: more) = lex line ++ lex more ∧
        lex (line ++ 0x3B :: (comment ++ 0x0A :: more)) = lex (line ++ 0x0A :: more) := by
  intro lex closed plain sameLine
  have passed : lex = Alphabet.bytes.lex := funext fun bytes => outcomes_ofSource_bytes _ bytes
  rw [passed] at closed ⊢
  have atEnd := Alphabet.atLineEnd_of_lex closed plain
  exact ⟨Alphabet.lex_append_newline rfl atEnd more,
    Alphabet.lex_append_comment rfl rfl (role_ne_newline sameLine) atEnd more⟩

/-- A word with an escaped semicolon stands before the comment `;"(`, and a malformed number before
that. -/
theorem outcomes_line_by_line_escaped_semicolon :
    let lex := fun bytes => (ofSource (Source.bufferSize 1) (.bytes bytes)).outcomes
    let line := Text.Utf8.encode "1-2 'b\\;"
    let comment := Text.Utf8.encode "\"("
    let more := Text.Utf8.encode "c) \""
    (∀ pending, (lex line).getLast? ≠ some (.error (.unterminatedString pending))) ∧
      Alphabet.bytes.endsEscaping line = false ∧ 0x0A ∉ comment ∧
      lex (line ++ 0x3B :: (comment ++ 0x0A :: more)) = lex line ++ lex more := by
  intro lex line comment more
  have lexed : lex line =
      [.error (.malformedNumber "1-2"), .ok .quote, .ok (.symbol "b;")] :=
    (outcomes_ofSource_bytes _ line).trans rfl
  have closed : ∀ pending, (lex line).getLast? ≠ some (.error (.unterminatedString pending)) := by
    simp [lexed]
  have plain : Alphabet.bytes.endsEscaping line = false := rfl
  have sameLine : 0x0A ∉ comment := by decide
  obtain ⟨lines, unseen⟩ := outcomes_line_by_line 1 line comment more closed plain sameLine
  exact ⟨closed, plain, sameLine, unseen.trans lines⟩

end Lexer

end ConsLisp
