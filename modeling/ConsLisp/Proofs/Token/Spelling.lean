import ConsLisp.Proofs.Number.Integer
import ConsLisp.Proofs.Result
import ConsLisp.Proofs.Token.Characters
import ConsLisp.Proofs.Token.Delivery
import ConsLisp.Value.Printer

/-!
# Texts that spell tokens

A text spells tokens when lexing gives just them wherever the text stands before a blank, a
parenthesis or the end.
-/

namespace ConsLisp

open Text.Utf8

/-- Whether a symbol ends the word before it. -/
def Role.endsWord : Role → Bool
  | .parenLeft | .parenRight | .newline | .blank => true
  | _ => false

/-- Whether a symbol between words is skipped. -/
def Role.separates : Role → Bool
  | .newline | .blank => true
  | _ => false

/-- Nothing, or a character that ends the word before it. -/
def EndsWord (rest : List Char) : Prop :=
  ∀ char ∈ rest.head?, (Role.ofChar char).endsWord = true

/-- A word is pending that the next separator, parenthesis or end completes. -/
structure Scan.HasWord (scan : Scan Char) : Prop where
  code : scan.mode = .code
  plain : scan.escaping = false
  filled : scan.pending.isEmpty = false

namespace Scan.HasWord

variable {scan : Scan Char} {role : Role} {char : Char}

theorem step_separator (pending : scan.HasWord) (skipped : role.separates = true) :
    scan.step role char = .take scan.pendingWord := by
  obtain ⟨code, plain, filled⟩ := pending
  cases role <;> simp [Role.separates] at skipped <;> simp [step, stepCode, code, plain, filled]

theorem step_paren (pending : scan.HasWord) (ends : role.endsWord = true)
    (kept : ¬role.separates = true) : scan.step role char = .leave scan.pendingWord := by
  obtain ⟨code, plain, filled⟩ := pending
  cases role <;> simp [Role.endsWord, Role.separates] at ends kept <;>
    simp [step, stepCode, code, plain, filled]

theorem ending (pending : scan.HasWord) {token : Token}
    (given : Token.ofLexeme scan.pendingWord.encode = .ok token) :
    Lexer.ending scan.encode = .ok (some token) := by
  have code : scan.encode.mode = .code := pending.code
  have filled : scan.encode.pending.isEmpty = false := by
    rw [encode_pending_isEmpty, pending.filled]
  simp [Lexer.ending, Scan.ending, code, filled, encode_pendingWord, given, Except.map]

end Scan.HasWord

namespace Lexer

/-- The lexer that holds the bytes of characters. -/
def ofChars (chars : List Char) : Lexer :=
  ofBytes (encodeList chars)

theorem next_ofChars (chars : List Char) :
    (ofChars chars).next = found (Scan.start.run Role.ofChar chars).encode := by
  rw [ofChars, next_ofBytes, ← Scan.run_encode Scan.quoted_start]
  rfl

/-- A text is lexed the same however it is cut into reads. -/
theorem outcomes_ofSource (size : Nat) (text : String) :
    (ofSource size (.text text)).outcomes = (ofChars text.toList).outcomes :=
  outcomes_same (delivers_ofSource size text)

theorem outcomes_nil : (ofChars []).outcomes = [] :=
  outcomes_end (show (ofChars []).next = (.ok none, ofBytes []) from rfl)

theorem outcomes_lexeme {chars rest : List Char} {lexeme : Lexeme Char} {token : Token}
    (scanned : Scan.start.run Role.ofChar chars = .found lexeme rest)
    (given : Token.ofLexeme lexeme.encode = .ok token) :
    (ofChars chars).outcomes = .ok token :: (ofChars rest).outcomes := by
  apply outcomes_token
  rw [next_ofChars, scanned]
  simp only [Scan.Progress.encode, found, given]
  rfl

/-- What separates words is skipped. -/
theorem outcomes_separator {char : Char} (separates : (Role.ofChar char).separates = true)
    (rest : List Char) : (ofChars (char :: rest)).outcomes = (ofChars rest).outcomes := by
  have skipped : Scan.start.run Role.ofChar (char :: rest) = Scan.start.run Role.ofChar rest := by
    rw [Scan.run]
    cases role : Role.ofChar char <;> simp [role, Role.separates] at separates <;> rfl
  rw [outcomes, outcomes, next_ofChars, next_ofChars, skipped]

/-- A word that a scan has come to the end of is the next token. -/
theorem outcomes_word {chars rest : List Char} {scan : Scan Char} {token : Token}
    (scanned : Scan.start.run Role.ofChar chars = .unfinished scan) (pending : scan.HasWord)
    (given : Token.ofLexeme scan.pendingWord.encode = .ok token) (ends : EndsWord rest) :
    (ofChars (chars ++ rest)).outcomes = .ok token :: (ofChars rest).outcomes := by
  have resumed : Scan.start.run Role.ofChar (chars ++ rest) = scan.run Role.ofChar rest := by
    rw [Scan.run_append, scanned]
    rfl
  cases rest with
  | nil =>
      apply outcomes_token
      rw [next_ofChars, resumed]
      exact Prod.ext (pending.ending given) rfl
  | cons char rest =>
      by_cases skipped : (Role.ofChar char).separates = true
      · rw [Scan.run, pending.step_separator skipped] at resumed
        rw [outcomes_lexeme resumed given, outcomes_separator skipped]
      · rw [Scan.run, pending.step_paren (ends char rfl) skipped] at resumed
        exact outcomes_lexeme resumed given

end Lexer

/-- Lexing a text gives tokens and then goes on with whatever follows. -/
def Spells (text : List Char) (tokens : List Token) : Prop :=
  ∀ rest, EndsWord rest →
    (Lexer.ofChars (text ++ rest)).outcomes = tokens.map .ok ++ (Lexer.ofChars rest).outcomes

namespace Spells

/-- A word without any symbol of a special role. -/
theorem plain {word : List Char} {token : Token} (nonempty : word ≠ [])
    (ordinary : ∀ char ∈ word, Role.ofChar char = .ordinary)
    (given : Token.classify (encodeList word) = .ok token) : Spells word [token] := by
  intro rest ends
  have scanned := Scan.run_receive ordinary Scan.start []
  rw [List.append_nil] at scanned
  have pending : (Scan.start.receive word).pendingWord = .word word := by
    simp [Scan.receive, Scan.start, Scan.pendingWord]
  refine Lexer.outcomes_word scanned ⟨rfl, rfl, ?_⟩ ?_ ends
  · simpa [Scan.receive, Scan.start] using nonempty
  · rw [pending]
    exact given

theorem word {text : String} {token : Token} (nonempty : text.toList ≠ [])
    (ordinary : text.toList.all (Role.ofChar · = .ordinary) = true)
    (given : Token.classify (encode text) = .ok token) : Spells text.toList [token] :=
  plain nonempty (by simpa using ordinary) given

end Spells

/-! ## Numbers -/

theorem Token.code_of_isNumeric {char : Char} (numeric : isNumeric char = true) :
    0x2D ≤ char.toNat ∧ char.toNat ≤ 0x39 := by
  simp only [isNumeric, Number.isDigit, Bool.or_eq_true, Bool.and_eq_true, decide_eq_true_eq]
    at numeric
  rcases numeric with (⟨above, below⟩ | rfl) | rfl
  · have low : 0x30 ≤ char.toNat := UInt32.le_iff_toNat_le.mp above
    have high : char.toNat ≤ 0x39 := UInt32.le_iff_toNat_le.mp below
    omega
  · decide
  · decide

theorem Role.ofChar_of_isNumeric {char : Char} (numeric : Token.isNumeric char = true) :
    Role.ofChar char = .ordinary := by
  obtain ⟨above, below⟩ := Token.code_of_isNumeric numeric
  unfold ofChar ofCode
  have apart : ∀ code, code < 0x2D ∨ 0x39 < code → char.toNat ≠ code := fun code outside same => by
    omega
  simp [apart]

namespace Spells

/-- A word of digits, signs and points. -/
theorem numeric {word : List Char} {token : Token}
    (numeric : ∀ char ∈ word, Token.isNumeric char = true) (nonempty : word ≠ [])
    (given : Token.classify (encodeList word) = .ok token) : Spells word [token] :=
  plain nonempty (fun char member => Role.ofChar_of_isNumeric (numeric char member)) given

end Spells

theorem Spells.float {text : String} {number : Float}
    (digits : ∀ char ∈ text.toList, Token.isNumeric char = true)
    (given : Token.classify (encode text) = .ok (.float number)) :
    Spells text.toList [.float number] := by
  refine numeric digits ?_ given
  intro empty
  rw [encode, empty] at given
  cases given

namespace Token

theorem isNumeric_of_mem_toString {number : Int} {char : Char}
    (member : char ∈ (toString number).toList) : isNumeric char = true ∧ char ≠ '.' := by
  rw [Number.toList_toString] at member
  rcases List.mem_append.mp member with sign | digit
  · split at sign
    · rw [List.mem_singleton.mp sign]
      decide
    · cases sign
  · have isDigit := Number.isDigit_of_mem_toDigits digit
    refine ⟨by simp [isNumeric, isDigit], ?_⟩
    rintro rfl
    cases isDigit

theorem any_isDigit_toString (number : Int) :
    (toString number).toList.any Number.isDigit = true := by
  obtain ⟨digit, digits, same⟩ := List.exists_cons_of_ne_nil
    (Nat.toDigits_ne_nil (n := number.natAbs) (b := 10))
  have first : digit ∈ Nat.toDigits 10 number.natAbs := same ▸ List.mem_cons_self
  rw [List.any_eq_true]
  refine ⟨digit, ?_, Number.isDigit_of_mem_toDigits first⟩
  rw [Number.toList_toString]
  exact List.mem_append_right _ first

theorem classify_toString {number : Int} (fits : Number.Literal.inRange number = true) :
    classify (encodeList (toString number).toList) = .ok (.integer number) := by
  have ascii : ∀ char ∈ (toString number).toList, char.toNat < 0x80 := fun char member =>
    Nat.lt_of_le_of_lt (code_of_isNumeric (isNumeric_of_mem_toString member).1).2 (by decide)
  have all : (toString number).toList.all isNumeric = true :=
    List.all_eq_true.mpr fun char member => (isNumeric_of_mem_toString member).1
  have noPoint : (toString number).toList.contains '.' = false := by
    rw [List.contains_eq_mem, decide_eq_false_iff_not]
    exact fun member => (isNumeric_of_mem_toString member).2 rfl
  have notDot : (toString number).toList ≠ ['.'] := by
    intro same
    rw [same] at noPoint
    cases noPoint
  simp only [classify, map_ofNat_encodeList ascii, if_neg notDot, all, any_isDigit_toString,
    noPoint, Number.Literal.integer?_toString fits]
  rfl

end Token

theorem Spells.integer {number : Int} (fits : Number.Literal.inRange number = true) :
    Spells (toString number).toList [.integer number] := by
  apply numeric (fun char member => (Token.isNumeric_of_mem_toString member).1)
  · intro empty
    have digit := Token.any_isDigit_toString number
    rw [empty] at digit
    cases digit
  · exact Token.classify_toString fits

/-! ## Strings -/

/-- Inside a string whose content so far is known. -/
def Scan.inside (content : List Char) (escaped : Bool) : Scan Char :=
  { mode := .string true, pending := content.reverse ++ ['"'], escaped := escaped }

/-- One escaped character adds that character to the content. -/
theorem Scan.run_escape (content : List Char) (escaped : Bool) (char : Char) (rest : List Char) :
    ∃ after, run Role.ofChar (inside content escaped) (escapedString.escape char ++ rest) =
      run Role.ofChar (inside (content ++ [char]) after) rest := by
  by_cases special : (char = '"' || char = '\\') = true
  · refine ⟨true, ?_⟩
    have pushed : inside (content ++ [char]) true = (inside content true).push char := by
      simp [inside, push]
    rw [escapedString.escape, if_pos special, pushed]
    rfl
  · refine ⟨escaped, ?_⟩
    have pushed : inside (content ++ [char]) escaped = (inside content escaped).push char := by
      simp [inside, push]
    simp only [Bool.or_eq_true, decide_eq_true_eq, not_or] at special
    have noQuote : Role.ofChar char ≠ .doubleQuote := fun quotes =>
      special.1 (Role.eq_of_ofChar_doubleQuote quotes)
    have noEscape : Role.ofChar char ≠ .backslash := fun escapes =>
      special.2 (Role.eq_of_ofChar_backslash escapes)
    rw [escapedString.escape, if_neg (by simp [special]), List.singleton_append, run, pushed]
    simp [step, inside, noQuote, noEscape]

theorem Scan.run_escaped (content : List Char) (escaped : Bool) (text rest : List Char) :
    ∃ after, run Role.ofChar (inside content escaped)
        (text.flatMap escapedString.escape ++ rest) =
      run Role.ofChar (inside (content ++ text) after) rest := by
  induction text generalizing content escaped with
  | nil => exact ⟨escaped, by simp⟩
  | cons char text ih =>
      obtain ⟨next, first⟩ := run_escape content escaped char
        (text.flatMap escapedString.escape ++ rest)
      obtain ⟨after, others⟩ := ih (content ++ [char]) next
      refine ⟨after, ?_⟩
      rw [List.flatMap_cons, List.append_assoc, first, others, List.append_assoc,
        List.singleton_append]

theorem Spells.string (text : String) : Spells (escapedString text).toList [.string text] := by
  intro rest _
  obtain ⟨after, scanned⟩ := Scan.run_escaped [] false text.toList ('"' :: rest)
  have quotes : Role.ofChar '"' = .doubleQuote := rfl
  have chars : (escapedString text).toList ++ rest =
      '"' :: (text.toList.flatMap escapedString.escape ++ '"' :: rest) := by
    simp [escapedString]
  have found : Scan.start.run Role.ofChar ((escapedString text).toList ++ rest) =
      .found (.string text.toList) rest := by
    rw [chars]
    refine scanned.trans ?_
    simp [Scan.run, Scan.step, Scan.inside, Scan.push, Scan.closed, quotes]
  exact Lexer.outcomes_lexeme found (by simp [Lexeme.encode, Token.ofLexeme, decode_encodeList])

/-! ## Names -/

theorem Token.eq_of_classify_symbol {word : List UInt8} {name : String}
    (given : classify word = .ok (.symbol name)) : decode word = name := by
  unfold classify at given
  grind

/-- The lexeme of a name is as long as the name. -/
theorem Token.length_of_symbol {lexeme : Lexeme Char} {name : String}
    (given : ofLexeme lexeme.encode = .ok (.symbol name)) :
    lexeme.length = name.toList.length := by
  have decoded : ∀ chars : List Char, decode (encodeList chars) = name →
      chars.length = name.toList.length := by
    rintro chars rfl
    rw [decode_encodeList, String.toList_ofList]
  cases lexeme with
  | parenLeft => cases given
  | parenRight => cases given
  | tick => cases given
  | string content => cases given
  | escapedWord chars =>
      injection given with same
      injection same with same
      exact decoded chars same
  | word chars => exact decoded chars (eq_of_classify_symbol given)

namespace Lexer

/-- What the first step of a lexer must have been when it gives one token and then ends. -/
theorem next_of_outcomes {lexer : Lexer} {token : Token} (alone : lexer.outcomes = [.ok token]) :
    lexer.next.1 = .ok (some token) := by
  cases step : lexer.next with
  | mk result rest =>
      rcases result with cause | found
      · rw [outcomes_error step] at alone
        cases alone
      rcases found with none | other
      · rw [outcomes_end step] at alone
        cases alone
      · rw [outcomes_token step] at alone
        injection alone with same
        cases same
        rfl

end Lexer

theorem Scan.of_ending {scan : Scan Char} {token : Token}
    (given : Lexer.ending scan.encode = .ok (some token)) :
    (∀ alone, scan.mode ≠ .string alone) ∧ scan.pending.isEmpty = false ∧
      Token.ofLexeme scan.pendingWord.encode = .ok token := by
  have mode : scan.encode.mode = scan.mode := rfl
  unfold Lexer.ending Scan.ending at given
  rw [mode, encode_pending_isEmpty, encode_pendingWord] at given
  cases inside : scan.mode with
  | string alone =>
      rw [inside] at given
      cases given
  | _ =>
      cases filled : scan.pending.isEmpty with
      | true =>
          rw [inside, filled] at given
          cases given
      | false =>
          rw [inside, filled] at given
          exact ⟨by simp, rfl, Lexer.ofLexeme_of_map given⟩

/-- A name that is a token when it stands alone is one before whatever ends words. -/
theorem Spells.name {name : String}
    (alone : (Lexer.ofChars name.toList).outcomes = [.ok (.symbol name)]) :
    Spells name.toList [.symbol name] := by
  intro rest ends
  have given := Lexer.next_of_outcomes alone
  rw [Lexer.next_ofChars] at given
  cases scanned : Scan.start.run Role.ofChar name.toList with
  | found lexeme left =>
      rw [scanned] at given
      have own := Lexer.ofLexeme_of_map given
      have bound := Scan.within_start.found scanned
      have nothing : left = [] := List.eq_nil_of_length_eq_zero (by
        rw [Token.length_of_symbol own] at bound
        omega)
      have resumed : Scan.start.run Role.ofChar (name.toList ++ rest) = .found lexeme rest := by
        rw [Scan.run_append, scanned, nothing]
        rfl
      exact Lexer.outcomes_lexeme resumed own
  | unfinished scan =>
      rw [scanned] at given
      obtain ⟨outside, filled, own⟩ := Scan.of_ending given
      have within := Scan.within_start.unfinished scanned
      have full : scan.pending.length = name.toList.length := by
        rw [← Scan.pendingWord_length, Token.length_of_symbol own]
      -- A comment or an escape at the end would have cost a character of the name.
      have kept : ¬(scan.mode = .comment ∨ scan.escaping = true) := fun skipped => by
        have lt := within.length_lt skipped
        omega
      have code : scan.mode = .code := by
        cases mode : scan.mode with
        | code => rfl
        | comment => exact absurd (.inl mode) kept
        | string inside => exact absurd mode (outside inside)
      have plain : scan.escaping = false := by simpa using fun escaping => kept (.inr escaping)
      exact Lexer.outcomes_word scanned ⟨code, plain, filled⟩ own ends

/-! ## Compound texts -/

namespace Spells

variable {text more : List Char} {tokens others : List Token}

theorem tick (inner : Spells text tokens) : Spells ('\'' :: text) (.quote :: tokens) := by
  intro rest ends
  have scanned : Scan.start.run Role.ofChar ('\'' :: (text ++ rest)) =
      .found .tick (text ++ rest) := rfl
  rw [List.cons_append, Lexer.outcomes_lexeme scanned rfl, inner rest ends]
  rfl

theorem parens (inner : Spells text tokens) :
    Spells ('(' :: (text ++ [')'])) (.parenLeft :: (tokens ++ [.parenRight])) := by
  intro rest _
  have opened : Scan.start.run Role.ofChar ('(' :: (text ++ [')'] ++ rest)) =
      .found .parenLeft (text ++ [')'] ++ rest) := rfl
  have closed : Scan.start.run Role.ofChar (')' :: rest) = .found .parenRight rest := rfl
  have ends : EndsWord (')' :: rest) := by
    rintro char ⟨⟩
    rfl
  rw [List.cons_append, Lexer.outcomes_lexeme opened rfl, List.append_assoc,
    List.singleton_append, inner _ ends, Lexer.outcomes_lexeme closed rfl]
  simp

theorem separated (first : Spells text tokens) (second : Spells more others) :
    Spells (text ++ ' ' :: more) (tokens ++ others) := by
  intro rest ends
  have between : EndsWord (' ' :: (more ++ rest)) := by
    rintro char ⟨⟩
    rfl
  rw [List.append_assoc, List.cons_append, first _ between, Lexer.outcomes_separator rfl,
    second rest ends, List.map_append, List.append_assoc]

/-- Texts with a blank between each two of them. -/
theorem intercalate {texts : List (List Char)} {phrases : List (List Token)}
    (each : List.Forall₂ Spells texts phrases) (nonempty : texts ≠ []) :
    Spells ([' '].intercalate texts) phrases.flatten := by
  induction each with
  | nil => exact absurd rfl nonempty
  | @cons text tokens texts phrases first others ih =>
      cases others with
      | nil => simpa using first
      | cons second more =>
          have later := first.separated (ih (List.cons_ne_nil _ _))
          simpa [List.intercalate_cons_cons] using later

theorem dot : Spells ['.'] [.dot] :=
  plain (List.cons_ne_nil _ _) (by rintro char (_ | ⟨_, ⟨⟩⟩); rfl) rfl

end Spells

end ConsLisp
