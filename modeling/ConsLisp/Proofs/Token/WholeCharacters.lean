import ConsLisp.Proofs.Token.Lexemes
import ConsLisp.Proofs.Token.Spelling

/-!
# No character is split

The rules of the lexer make sense for characters as well, with no bytes and nothing to decode.  The
bytes of a text give the same tokens and errors as its characters, and whatever a token or message
says of the source stands in it.
-/

namespace ConsLisp

open Text.Utf8

namespace Token

/-- The token of a word of characters without escapes. -/
def ofWord (word : List Char) : Except LexicalError Token :=
  if word = ['.'] then .ok .dot
  else if word.all isNumeric && word.any Number.isDigit then
    let malformed := Except.error (.malformedNumber (String.ofList word))
    if word.contains '.' then
      match Number.Literal.float? word with
      | some number => .ok (.float number)
      | none => malformed
    else
      match Number.Literal.integer? word with
      | some number => .ok (.integer number)
      | none => malformed
  else .ok (.symbol (String.ofList word))

/-- The token of a lexeme of characters. -/
def ofCharacters : Lexeme Char → Except LexicalError Token
  | .parenLeft => .ok .parenLeft
  | .parenRight => .ok .parenRight
  | .tick => .ok .quote
  | .string content => .ok (.string (String.ofList content))
  | .escapedWord word => .ok (.symbol (String.ofList word))
  | .word word => ofWord word

/-! ## Bytes and characters -/

/-- A byte of a character beyond ASCII occurs in no number. -/
theorem isNumeric_of_mem_encodeChar {char : Char} (beyond : 0x80 ≤ char.toNat) {byte : UInt8}
    (member : byte ∈ String.utf8EncodeChar char) : isNumeric (Char.ofNat byte.toNat) = false := by
  have above := le_of_mem_encodeChar beyond byte member
  have small := byte.toNat_lt
  have code : (Char.ofNat byte.toNat).toNat = byte.toNat := by
    rw [Char.ofNat, dif_pos (.inl (by omega))]
    rfl
  cases numeric : isNumeric (Char.ofNat byte.toNat) with
  | false => rfl
  | true =>
      have bound := (code_of_isNumeric numeric).2
      omega

/-- A word with a character beyond ASCII is a symbol, of which each byte is looked at. -/
theorem all_isNumeric_encodeList {word : List Char} {char : Char} (member : char ∈ word)
    (beyond : 0x80 ≤ char.toNat) :
    ((encodeList word).map fun byte => Char.ofNat byte.toNat).all isNumeric = false ∧
      word.all isNumeric = false := by
  constructor
  · obtain ⟨byte, bytes, encoded⟩ := List.exists_cons_of_ne_nil
      (String.utf8EncodeChar_ne_nil (c := char))
    have first : byte ∈ String.utf8EncodeChar char := encoded ▸ List.mem_cons_self
    have among : byte ∈ encodeList word := List.mem_flatMap.mpr ⟨char, member, first⟩
    refine List.all_eq_false.mpr ⟨_, List.mem_map_of_mem among, ?_⟩
    simp [isNumeric_of_mem_encodeChar beyond first]
  · refine List.all_eq_false.mpr ⟨char, member, fun numeric => ?_⟩
    have bound := (code_of_isNumeric numeric).2
    omega

theorem classify_encodeList (word : List Char) : classify (encodeList word) = ofWord word := by
  by_cases ascii : ∀ char ∈ word, char.toNat < 0x80
  · rw [classify, map_ofNat_encodeList ascii, decode_encodeList]
    rfl
  · simp only [not_forall, Nat.not_lt] at ascii
    obtain ⟨char, member, beyond⟩ := ascii
    obtain ⟨bytes, chars⟩ := all_isNumeric_encodeList member beyond
    have noDot : ∀ letters : List Char, letters.all isNumeric = false → letters ≠ ['.'] := by
      rintro letters plain rfl
      cases plain
    simp only [classify, ofWord, if_neg (noDot _ bytes), if_neg (noDot _ chars), bytes, chars,
      Bool.false_and, decode_encodeList]
    rfl

theorem ofLexeme_encode (lexeme : Lexeme Char) :
    ofLexeme lexeme.encode = ofCharacters lexeme := by
  cases lexeme with
  | string content => simp only [Lexeme.encode, ofLexeme, ofCharacters, decode_encodeList]
  | escapedWord word => simp only [Lexeme.encode, ofLexeme, ofCharacters, decode_encodeList]
  | word word => exact classify_encodeList word
  | parenLeft => rfl
  | parenRight => rfl
  | tick => rfl

end Token

namespace Alphabet

/-- The alphabet in which each character is one symbol and stands for itself. -/
def characters : Alphabet Char :=
  ⟨Role.ofChar, Token.ofCharacters, String.ofList⟩

theorem ended_encode (scan : Scan Char) : bytes.ended scan.encode = characters.ended scan := by
  have empty := Scan.encode_pending_isEmpty scan
  have word := Scan.encode_pendingWord scan
  have mode : scan.encode.mode = scan.mode := rfl
  have pending : scan.encode.pending.reverse = encodeList scan.pending.reverse := by
    simp [Scan.encode]
  unfold ended Scan.ending
  rw [mode, empty, word, pending]
  cases scan.mode with
  | string alone => simp [bytes, characters, decode_encodeList]
  | code => cases scan.pending.isEmpty <;> simp [bytes, characters, Token.ofLexeme_encode]
  | comment => cases scan.pending.isEmpty <;> simp [bytes, characters, Token.ofLexeme_encode]

/-- Lexing the bytes of characters is lexing the characters. -/
theorem lex_encodeList (chars : List Char) : bytes.lex (encodeList chars) = characters.lex chars := by
  have scanned : Scan.start.run bytes.role (encodeList chars) =
      (Scan.start.run characters.role chars).encode :=
    Scan.run_encode Scan.quoted_start chars
  cases run : Scan.start.run characters.role chars with
  | unfinished scan =>
      rw [run] at scanned
      rw [lex_of_unfinished scanned, lex_of_unfinished run, ended_encode]
  | found lexeme rest =>
      rw [run] at scanned
      have shorter := Scan.length_of_found run
      have token : bytes.token lexeme.encode = characters.token lexeme :=
        Token.ofLexeme_encode lexeme
      rw [lex_of_found scanned, lex_of_found run, token, lex_encodeList rest]
termination_by chars.length
decreasing_by
  have fresh : (Scan.start : Scan Char).weight = 0 := rfl
  omega

end Alphabet

/-! ## What is said of the source -/

/-- The symbols that a lexeme holds. -/
def Lexeme.symbols {α : Type} : Lexeme α → List α
  | .parenLeft | .parenRight | .tick => []
  | .string content => content
  | .escapedWord symbols => symbols
  | .word symbols => symbols

namespace Scan

variable {α : Type} {role : α → Role} {scan : Scan α} {own : Role} {symbol : α}

theorem symbols_pendingWord (scan : Scan α) : scan.pendingWord.symbols = scan.pending.reverse := by
  unfold pendingWord
  cases scan.escaped <;> rfl

theorem ending_cases (scan : Scan α) :
    scan.ending = .nothing ∨ scan.ending = .lexeme scan.pendingWord ∨
      scan.ending = .unterminated scan.pending.reverse := by
  unfold ending
  cases scan.mode <;> cases scan.pending.isEmpty <;> simp

theorem symbols_closed_subset (scan : Scan α) (alone : Bool) :
    (scan.closed alone).symbols ⊆ scan.pending := by
  intro held member
  cases alone with
  | false =>
      have word : held ∈ scan.pendingWord.symbols := member
      rw [symbols_pendingWord] at word
      exact List.mem_reverse.mp word
  | true =>
      exact List.mem_reverse.mp (List.mem_of_mem_drop (List.dropLast_subset _ member))

theorem symbols_subset_of_take {lexeme : Lexeme α}
    (stepped : scan.step own symbol = .take lexeme) :
    lexeme.symbols ⊆ symbol :: scan.pending := by
  have word : scan.pendingWord.symbols ⊆ symbol :: scan.pending := by
    rw [symbols_pendingWord]
    exact fun held member => List.mem_cons_of_mem _ (List.mem_reverse.mp member)
  have closed := symbols_closed_subset (scan.push symbol)
  unfold step at stepped
  cases mode : scan.mode with
  | comment => grind
  | code =>
      simp only [mode, stepCode] at stepped
      cases own <;> grind [Lexeme.symbols]
  | string alone => grind [push]

theorem eq_pendingWord_of_leave {lexeme : Lexeme α}
    (stepped : scan.step own symbol = .leave lexeme) : lexeme = scan.pendingWord := by
  unfold step at stepped
  cases mode : scan.mode with
  | comment => grind
  | code =>
      simp only [mode, stepCode] at stepped
      cases own <;> grind
  | string alone => grind

/-- A step keeps what is pending and the symbol, or gives them in its lexeme. -/
theorem emitted_subset (scan : Scan α) (own : Role) (symbol : α) :
    (∀ lexeme ∈ (scan.step own symbol).emitted.1, lexeme.symbols ⊆ symbol :: scan.pending) ∧
      (scan.step own symbol).emitted.2.pending ⊆ symbol :: scan.pending := by
  cases stepped : scan.step own symbol with
  | more next =>
      refine ⟨nofun, ?_⟩
      rcases pending_of_more stepped with ⟨kept, _⟩ | skipped
      · exact kept ▸ List.Subset.refl _
      · exact skipped ▸ List.subset_cons_self symbol next.pending
  | take lexeme =>
      refine ⟨?_, List.nil_subset _⟩
      rintro given (_ | ⟨_, ⟨⟩⟩)
      exact symbols_subset_of_take stepped
  | leave lexeme =>
      refine ⟨?_, List.nil_subset _⟩
      rintro given (_ | ⟨_, ⟨⟩⟩)
      rw [eq_pendingWord_of_leave stepped, symbols_pendingWord]
      exact fun held member => List.mem_cons_of_mem _ (List.mem_reverse.mp member)

theorem advance_subset (scan : Scan α) (own : Role) (symbol : α) :
    (∀ lexeme ∈ (scan.advance own symbol).1, lexeme.symbols ⊆ symbol :: scan.pending) ∧
      (scan.advance own symbol).2.pending ⊆ symbol :: scan.pending := by
  have now := emitted_subset scan own symbol
  obtain ⟨later, left⟩ := emitted_subset start own symbol
  have fresh : [symbol] ⊆ symbol :: scan.pending := by simp
  unfold advance
  split
  next lexeme stepped =>
      rw [stepped] at now
      refine ⟨?_, List.Subset.trans left fresh⟩
      rintro given (_ | ⟨_, member⟩)
      · exact now.1 lexeme List.mem_cons_self
      · exact List.Subset.trans (later given member) fresh
  next => exact now

/-- Whatever comes out of a pass over symbols is one of them or was pending before. -/
theorem lexemes_subset (scan : Scan α) (symbols : List α) :
    (∀ lexeme ∈ (scan.lexemes role symbols).1, lexeme.symbols ⊆ scan.pending ++ symbols) ∧
      (scan.lexemes role symbols).2.pending ⊆ scan.pending ++ symbols := by
  induction symbols generalizing scan with
  | nil => exact ⟨nofun, List.subset_append_left _ _⟩
  | cons symbol symbols ih =>
      obtain ⟨now, pending⟩ := advance_subset scan (role symbol) symbol
      obtain ⟨later, left⟩ := ih (scan.advance (role symbol) symbol).2
      have kept : symbol :: scan.pending ⊆ scan.pending ++ symbol :: symbols := by simp
      have rest : (scan.advance (role symbol) symbol).2.pending ++ symbols ⊆
          scan.pending ++ symbol :: symbols :=
        List.append_subset.mpr ⟨List.Subset.trans pending kept, by simp⟩
      refine ⟨fun lexeme member => ?_, List.Subset.trans left rest⟩
      rcases List.mem_append.mp member with first | other
      · exact List.Subset.trans (now lexeme first) kept
      · exact List.Subset.trans (later lexeme other) rest

end Scan

/-- The text that a token holds. -/
def Token.letters : Token → List Char
  | .symbol name => name.toList
  | .string text => text.toList
  | _ => []

/-- The text that an error of the lexer is about. -/
def LexicalError.letters : LexicalError → List Char
  | .malformedNumber literal => literal.toList
  | .unterminatedString pending => pending.toList
  | .readFailure reason => reason.toList

/-- The text that a token or an error of the lexer is about. -/
def Lexer.letters : Except LexicalError Token → List Char
  | .ok token => token.letters
  | .error cause => cause.letters

/-- An error that a text held in memory can give. -/
inductive LexicalError.IsOfText : LexicalError → Prop where
  | number {literal : String} (numeric : ∀ char ∈ literal.toList, Token.isNumeric char = true) :
      IsOfText (.malformedNumber literal)
  | string {pending : String} : IsOfText (.unterminatedString pending)

namespace Token

/-- A word is an atom or the dot, or it is refused as a number that it does not spell. -/
theorem ofWord_cases (word : List Char) :
    (∃ token, ofWord word = .ok token ∧ token.letters = []) ∨
      ofWord word = .ok (.symbol (String.ofList word)) ∨
      ofWord word = .error (.malformedNumber (String.ofList word)) ∧ word.all isNumeric = true := by
  unfold ofWord
  split
  next => exact .inl ⟨_, rfl, rfl⟩
  next =>
      split
      next numeric =>
          have all := (Bool.and_eq_true_iff.mp numeric).1
          split
          next => split <;> simp [letters, all]
          next => split <;> simp [letters, all]
      next => exact .inr (.inl rfl)

theorem letters_ofCharacters_subset (lexeme : Lexeme Char) :
    Lexer.letters (ofCharacters lexeme) ⊆ lexeme.symbols := by
  cases lexeme with
  | word word =>
      have same : ofCharacters (.word word) = ofWord word := rfl
      rcases ofWord_cases word with ⟨token, given, none⟩ | given | ⟨given, _⟩
      · simp [same, given, Lexer.letters, none]
      · simp [same, given, Lexer.letters, letters, Lexeme.symbols]
      · simp [same, given, Lexer.letters, LexicalError.letters, Lexeme.symbols]
  | string content => simp [ofCharacters, Lexer.letters, letters, Lexeme.symbols]
  | escapedWord word => simp [ofCharacters, Lexer.letters, letters, Lexeme.symbols]
  | parenLeft => exact List.nil_subset _
  | parenRight => exact List.nil_subset _
  | tick => exact List.nil_subset _

theorem error_of_ofCharacters {lexeme : Lexeme Char} {cause : LexicalError}
    (refused : ofCharacters lexeme = .error cause) : cause.IsOfText := by
  cases lexeme with
  | word word =>
      rcases ofWord_cases word with ⟨token, given, _⟩ | given | ⟨given, numeric⟩
      · cases refused.symm.trans given
      · cases refused.symm.trans given
      · cases refused.symm.trans given
        exact .number (by simpa using numeric)
  | _ => cases refused

end Token

/-- Digits, signs and points are quoted as they are. -/
theorem Text.toList_quoted {literal : String}
    (numeric : ∀ char ∈ literal.toList, Token.isNumeric char = true) :
    (quoted literal).toList = '\'' :: literal.toList ++ ['\''] := by
  have plain : ∀ char ∈ literal.toList, Quoted.escape '\'' char = [char] := by
    intro char member
    obtain ⟨above, below⟩ := Token.code_of_isNumeric (numeric char member)
    have apart : ∀ other : Char, other.toNat < 0x2D ∨ 0x39 < other.toNat → char ≠ other := by
      rintro other outside rfl
      omega
    have printable : Printable.isPrintable char = true := by
      rw [Printable.isPrintable, if_pos (by omega), Bool.and_eq_true_iff, decide_eq_true_eq,
        decide_eq_true_eq]
      omega
    simp [Quoted.escape, apart, printable]
  have mark : Quoted.mark literal = '\'' := by
    have none : ¬ literal.contains '\'' = true := by
      intro holds
      have member : '\'' ∈ literal.toList := by simpa using holds
      cases numeric _ member
    simp [Quoted.mark, none]
  rw [quoted, mark, String.toList_ofList, List.flatMap_congr plain]
  simp

/-- A character beyond ASCII stands in a message only if what the message is about holds it. -/
theorem LexicalError.IsOfText.mem_letters {cause : LexicalError} (ofText : cause.IsOfText)
    {char : Char} (beyond : 0x80 ≤ char.toNat) (member : char ∈ cause.message.toList) :
    char ∈ cause.letters := by
  have foreign (words : List Char) (ascii : words.all (·.toNat < 0x80) = true) : char ∉ words := by
    intro among
    have small := List.all_eq_true.mp ascii char among
    simp only [decide_eq_true_eq] at small
    omega
  cases ofText with
  | @number literal numeric =>
      have parts : char ∈ "Malformed number ".toList ++ ('\'' :: literal.toList ++ ['\'']) := by
        rw [← Text.toList_quoted numeric, ← String.toList_append]
        exact member
      rcases List.mem_append.mp parts with words | quoted
      · exact absurd words (foreign _ (by decide))
      rcases List.mem_append.mp quoted with (_ | ⟨_, own⟩) | ends
      · exact absurd beyond (by decide)
      · exact own
      · exact absurd ends (foreign _ (by decide))
  | @string pending =>
      have parts : char ∈ "Unterminated string ".toList ++ pending.toList := by
        rw [← String.toList_append]
        exact member
      rcases List.mem_append.mp parts with words | own
      · exact absurd words (foreign _ (by decide))
      · exact own

namespace Alphabet

/-- Whatever a token or an error of characters is about stands among them. -/
theorem of_mem_lex {chars : List Char} {outcome : Except LexicalError Token}
    (member : outcome ∈ characters.lex chars) :
    Lexer.letters outcome ⊆ chars ∧ ∀ cause, outcome = .error cause → cause.IsOfText := by
  have passed : (∀ lexeme ∈ (Scan.start.lexemes characters.role chars).1,
      lexeme.symbols ⊆ chars) ∧ (Scan.start.lexemes characters.role chars).2.pending ⊆ chars :=
    Scan.start.lexemes_subset chars
  have given (lexeme : Lexeme Char) (held : lexeme.symbols ⊆ chars) :
      Lexer.letters (Token.ofCharacters lexeme) ⊆ chars ∧
        ∀ cause, Token.ofCharacters lexeme = .error cause → cause.IsOfText :=
    ⟨List.Subset.trans (Token.letters_ofCharacters_subset lexeme) held,
      fun cause refused => Token.error_of_ofCharacters refused⟩
  have left : (Scan.start.lexemes characters.role chars).2.pending.reverse ⊆ chars :=
    fun held among => passed.2 (List.mem_reverse.mp among)
  rcases List.mem_append.mp member with early | late
  · obtain ⟨lexeme, found, rfl⟩ := List.mem_map.mp early
    exact given lexeme (passed.1 lexeme found)
  · unfold ended at late
    rcases Scan.ending_cases (Scan.start.lexemes characters.role chars).2 with
      ending | ending | ending
    · rw [ending] at late
      cases late
    · rw [ending] at late
      rw [List.mem_singleton.mp late]
      exact given _ (Scan.symbols_pendingWord _ ▸ left)
    · rw [ending] at late
      rw [List.mem_singleton.mp late]
      refine ⟨by simpa [Lexer.letters, LexicalError.letters, characters] using left, ?_⟩
      rintro cause ⟨⟩
      exact .string

end Alphabet

namespace Lexer

theorem outcomes_bytes (size : Nat) (text : String) :
    (ofSource size (.bytes (encode text))).outcomes = Alphabet.characters.lex text.toList := by
  rw [outcomes_ofSource_bytes]
  exact Alphabet.lex_encodeList text.toList

theorem outcomes_text (size : Nat) (text : String) :
    (ofSource size (.text text)).outcomes = Alphabet.characters.lex text.toList := by
  rw [outcomes_same (delivers_ofSource size text), outcomes_ofBytes]
  exact Alphabet.lex_encodeList text.toList

/-- Lexing a text as bytes, whatever their number in a read, gives what the same rules give for its
characters.  Texts that tokens and errors hold are made of characters of the source, and no message
has a replacement character that does not stand in it. -/
theorem outcomes_eq_lex_characters (size : Nat) (text : String) :
    (ofSource size (.bytes (encode text))).outcomes = Alphabet.characters.lex text.toList ∧
      (ofSource size (.text text)).outcomes = Alphabet.characters.lex text.toList ∧
      ∀ outcome ∈ (ofSource size (.bytes (encode text))).outcomes,
        letters outcome ⊆ text.toList ∧
          ∀ cause, outcome = .error cause →
            replacement ∈ cause.message.toList → replacement ∈ text.toList := by
  refine ⟨outcomes_bytes size text, outcomes_text size text, fun outcome member => ?_⟩
  rw [outcomes_bytes] at member
  obtain ⟨held, ofText⟩ := Alphabet.of_mem_lex member
  refine ⟨held, ?_⟩
  rintro cause rfl shown
  exact held ((ofText cause rfl).mem_letters (by decide) shown)

theorem outcomes_eq_lex_characters_unterminated :
    (.error (.unterminatedString "\"�") : Except LexicalError Token) ∈
        (ofSource 1 (.bytes (encode "\\é \"�"))).outcomes ∧
      replacement ∈ (LexicalError.unterminatedString "\"�").message.toList ∧
      replacement ∈ "\\é \"�".toList := by
  obtain ⟨same, _, held⟩ := outcomes_eq_lex_characters 1 "\\é \"�"
  have lexed : Alphabet.characters.lex "\\é \"�".toList =
      [.ok (.symbol "é"), .error (.unterminatedString "\"�")] := rfl
  have member : (.error (.unterminatedString "\"�") : Except LexicalError Token) ∈
      (ofSource 1 (.bytes (encode "\\é \"�"))).outcomes := by
    rw [same, lexed]
    exact List.mem_cons_of_mem _ List.mem_cons_self
  have shown : replacement ∈ (LexicalError.unterminatedString "\"�").message.toList := by
    decide
  exact ⟨member, shown, (held _ member).2 _ rfl shown⟩

end Lexer

end ConsLisp
