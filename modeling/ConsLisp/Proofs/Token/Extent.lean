import ConsLisp.Proofs.Token.Names

/-!
# How much of a text a lexeme takes

A lexeme holds no more characters than it takes from the text, and a string takes as many as it is
printed with.  A text that a single lexeme holds all of has no other lexemes.
-/

namespace ConsLisp

namespace Scan

variable {scan next : Scan Char} {char : Char} {chars : List Char} {lexeme : Lexeme Char}

/-- Induction along the lexemes of a text. -/
@[elab_as_elim]
theorem lexing_induction {motive : List Char → Prop}
    (unfinished : ∀ chars next, start.run Role.ofChar chars = .unfinished next → motive chars)
    (found : ∀ chars lexeme rest, start.run Role.ofChar chars = .found lexeme rest →
      rest.length < chars.length → motive rest → motive chars)
    (chars : List Char) : motive chars := by
  cases scanned : start.run Role.ofChar chars with
  | unfinished next => exact unfinished chars next scanned
  | found lexeme rest =>
      have shorter : rest.length < chars.length := by
        have progress := length_of_found scanned
        have fresh : (start : Scan Char).weight = 0 := rfl
        omega
      exact found chars lexeme rest scanned shorter (lexing_induction unfinished found rest)
termination_by chars.length

/-! ## Words -/

/-- A lexeme of a text that holds as many characters as the text has is all there is to it. -/
theorem lex_of_mem_lexemes (member : lexeme ∈ (start.lexemes Role.ofChar chars).1) :
    lexeme.length ≤ chars.length ∧
      (lexeme.length = chars.length →
        Alphabet.characters.lex chars = [Token.ofCharacters lexeme]) := by
  induction chars using lexing_induction with
  | unfinished chars next scanned =>
      rw [lexemes_of_unfinished scanned] at member
      cases member
  | found chars first rest scanned shorter ih =>
      rw [lexemes_of_found scanned] at member
      rcases List.mem_cons.mp member with rfl | later
      · have bound := within_start.found scanned
        refine ⟨by omega, fun whole => ?_⟩
        obtain rfl : rest = [] := List.eq_nil_of_length_eq_zero (by omega)
        exact @Alphabet.lex_of_found _ Alphabet.characters _ _ _ scanned
      · have bound := (ih later).1
        exact ⟨by omega, fun whole => by omega⟩

/-- What is pending behind a text is all there is to the text if it holds as many characters. -/
theorem lex_of_pending (chars : List Char) :
    (start.lexemes Role.ofChar chars).2.Within chars.length ∧
      ((start.lexemes Role.ofChar chars).2.pending.length = chars.length →
        Alphabet.characters.lex chars =
          Alphabet.characters.ended (start.lexemes Role.ofChar chars).2) := by
  induction chars using lexing_induction with
  | unfinished chars next scanned =>
      have within := within_start.unfinished scanned
      rw [Nat.zero_add] at within
      rw [lexemes_of_unfinished scanned]
      exact ⟨within, fun _ => @Alphabet.lex_of_unfinished _ Alphabet.characters _ _ scanned⟩
  | found chars first rest scanned shorter ih =>
      have bound := ih.1.length_le
      rw [lexemes_of_found scanned]
      refine ⟨⟨?_, fun _ => ?_⟩, fun whole => ?_⟩ <;> dsimp only at * <;> omega

/-! ## Strings -/

/-- The length of the characters as they are printed in a string. -/
def printedLength (chars : List Char) : Nat :=
  (chars.flatMap escapedString.escape).length

theorem printedLength_cons (char : Char) (chars : List Char) :
    printedLength (char :: chars) = printedLength [char] + printedLength chars := by
  simp [printedLength]

theorem printedLength_reverse (chars : List Char) :
    printedLength chars.reverse = printedLength chars :=
  (List.reverse_perm chars).flatMap_right _ |>.length_eq

/-- A scan inside a string has taken as many characters as it is printed with, apart from the
opening quote, which is not escaped. -/
def Paid (scan : Scan Char) (taken : Nat) : Prop :=
  scan.mode = .string true →
    printedLength scan.pending + (if scan.escaping then 1 else 0) ≤ taken + 1

theorem printedLength_singleton_le (char : Char) : printedLength [char] ≤ 2 := by
  unfold printedLength escapedString.escape
  grind

theorem printedLength_plain (notQuote : Role.ofChar char ≠ .doubleQuote)
    (notEscape : Role.ofChar char ≠ .backslash) : printedLength [char] = 1 := by
  have quote : char ≠ '"' := by
    rintro rfl
    exact notQuote rfl
  have escape : char ≠ '\\' := by
    rintro rfl
    exact notEscape rfl
  simp [printedLength, escapedString.escape, quote, escape]

theorem Paid.more {taken : Nat} (paid : scan.Paid taken)
    (stepped : scan.step (Role.ofChar char) char = .more next) : next.Paid (taken + 1) := by
  obtain ⟨mode, pending, escaping, escaped⟩ := scan
  have pushed := printedLength_cons char pending
  have small := printedLength_singleton_le char
  intro inside
  cases mode with
  | comment =>
      simp only [step] at stepped
      grind
  | code =>
      simp only [step, stepCode, push] at stepped
      cases role : Role.ofChar char <;> grind [printedLength]
  | string alone =>
      have plain := @printedLength_plain char
      unfold Paid at paid
      simp only [step, push] at stepped
      grind

theorem pendingWord_ne_string (scan : Scan Char) (content : List Char) :
    scan.pendingWord ≠ .string content := by
  unfold pendingWord
  split <;> simp

/-- The quotes of a string that is closed are not part of it. -/
theorem closed_of_quoted {inner : List Char} (opened : scan.pending.reverse = '"' :: inner)
    (char : Char) : (scan.push char).closed true = .string inner := by
  simp [closed, push, opened]

theorem Paid.found {taken : Nat} (paid : scan.Paid taken) (quoted : scan.Quoted)
    {content rest : List Char}
    (finished : scan.run Role.ofChar chars = .found (.string content) rest) :
    printedLength content + 2 + rest.length ≤ taken + chars.length := by
  induction chars generalizing scan taken with
  | nil => cases finished
  | cons char chars ih =>
      rw [run] at finished
      rw [List.length_cons]
      split at finished
      next next stepped =>
          have bound := ih (paid.more stepped) (quoted_of_more quoted stepped) finished
          omega
      next lexeme stepped =>
          cases finished
          rcases take_cases stepped with same | same | same | ⟨same, _⟩ | ⟨alone, inside, _, same⟩
          · cases same
          · cases same
          · cases same
          · exact absurd same.symm (pendingWord_ne_string scan content)
          · cases alone with
            | false => exact absurd same.symm (pendingWord_ne_string _ content)
            | true =>
                obtain ⟨inner, opened⟩ := quoted inside
                obtain rfl : content = inner := by
                  rw [closed_of_quoted opened] at same
                  cases same
                  rfl
                have whole := printedLength_reverse scan.pending
                have quote : printedLength ['"'] = 2 := rfl
                rw [opened, printedLength_cons, quote] at whole
                have bound := paid inside
                omega
      next lexeme stepped =>
          cases finished
          exact absurd (leave_cases stepped).1.symm (pendingWord_ne_string scan content)

/-- A string takes as much of the text as it is printed with. -/
theorem printedLength_of_mem_lexemes {content : List Char}
    (member : .string content ∈ (start.lexemes Role.ofChar chars).1) :
    printedLength content + 2 ≤ chars.length := by
  have unpaid : start.Paid 0 := by
    intro inside
    cases inside
  induction chars using lexing_induction with
  | unfinished chars next scanned =>
      rw [lexemes_of_unfinished scanned] at member
      cases member
  | found chars first rest scanned shorter ih =>
      rw [lexemes_of_found scanned] at member
      rcases List.mem_cons.mp member with rfl | later
      · have bound := unpaid.found quoted_start scanned
        omega
      · have bound := ih later
        omega

/-! ## Escapes -/

/-- No backslash waits for its character inside a comment. -/
def Waits (scan : Scan Char) : Prop :=
  scan.escaping = true → scan.mode ≠ .comment

theorem waits_start : (start : Scan Char).Waits := by
  intro escaping
  cases escaping

theorem Waits.emitted (waits : scan.Waits) (own : Role) (char : Char) :
    (scan.step own char).emitted.2.Waits ∧
      ((scan.step own char).emitted.2.escaping = true → own = .backslash) := by
  obtain ⟨mode, pending, escaping, escaped⟩ := scan
  unfold Waits at *
  cases mode with
  | comment => grind [step, Step.emitted, start]
  | code => cases own <;> grind [step, stepCode, push, Step.emitted, start]
  | string alone => grind [step, push, Step.emitted, start]

theorem Waits.advance (waits : scan.Waits) (own : Role) (char : Char) :
    (scan.advance own char).2.Waits ∧
      ((scan.advance own char).2.escaping = true → own = .backslash) := by
  unfold Scan.advance
  split
  next => exact waits_start.emitted own char
  next => exact waits.emitted own char

theorem Waits.lexemes (waits : scan.Waits) (chars : List Char) :
    (scan.lexemes Role.ofChar chars).2.Waits := by
  induction chars generalizing scan with
  | nil => exact waits
  | cons char chars ih => exact ih (waits.advance (Role.ofChar char) char).1

/-- Only a backslash at the end of a text waits for a character. -/
theorem getLast?_of_escaping (escaping : (start.lexemes Role.ofChar chars).2.escaping = true) :
    chars.getLast? = some '\\' := by
  rcases List.eq_nil_or_concat chars with rfl | ⟨before, char, rfl⟩
  · cases escaping
  · rw [List.concat_eq_append, lexemes_append] at escaping
    have backslash := ((waits_start.lexemes before).advance (Role.ofChar char) char).2 escaping
    rw [Role.eq_of_ofChar_backslash backslash, List.concat_eq_append, List.getLast?_concat]

/-! ## One character -/

theorem role_of_leave {own : Role} (stepped : scan.step own char = .leave lexeme) :
    own = .parenLeft ∨ own = .parenRight := by
  unfold step at stepped
  cases mode : scan.mode with
  | comment => grind
  | code =>
      simp only [mode, stepCode] at stepped
      cases own <;> grind
  | string alone => grind

/-- A character goes on with the lexeme or completes it.  A parenthesis that completes a word is a
lexeme as well. -/
theorem advance_cases (scan : Scan Char) (own : Role) (char : Char) :
    (∃ next, scan.advance own char = ([], next)) ∨
      own ≠ .ordinary ∧ ∃ lexeme, scan.advance own char = ([lexeme], start) ∨
        scan.advance own char = ([lexeme, .parenLeft], start) ∨
        scan.advance own char = ([lexeme, .parenRight], start) := by
  have ordinary := step_ordinary scan char
  unfold advance
  cases stepped : scan.step own char with
  | more next => exact .inl ⟨next, rfl⟩
  | take lexeme =>
      refine .inr ⟨?_, lexeme, .inl rfl⟩
      rintro rfl
      cases ordinary.symm.trans stepped
  | leave lexeme =>
      refine .inr ⟨?_, lexeme, .inr ?_⟩
      · rintro rfl
        cases ordinary.symm.trans stepped
      · rcases role_of_leave stepped with rfl | rfl
        · exact .inl rfl
        · exact .inr rfl

end Scan

end ConsLisp
