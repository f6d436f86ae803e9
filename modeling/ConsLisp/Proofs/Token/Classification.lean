import Mathlib.Data.Nat.Digits.Defs
import ConsLisp.Proofs.Number.Literal
import ConsLisp.Token.Lexer

/-!
# The grammar of numbers

A word without escapes is the dot, a number, a malformed number or a symbol.  The grammar says which
of these it is by its bytes alone: how a number is put together and what it denotes.  Every word is
classified as its only reading in the grammar.
-/

namespace ConsLisp.Token

open Number

/-! ## The grammar -/

/-- The bytes of the decimal digits. -/
def IsDigit (byte : UInt8) : Prop :=
  0x30 ≤ byte ∧ byte ≤ 0x39

instance (byte : UInt8) : Decidable (IsDigit byte) :=
  inferInstanceAs (Decidable (0x30 ≤ byte ∧ byte ≤ 0x39))

/-- The minus sign of a negative number. -/
def minus (negative : Bool) : List UInt8 :=
  if negative then [0x2D] else []

/-- The number that digits denote, the most significant of them first. -/
def decimal (digits : List UInt8) : Nat :=
  Nat.ofDigits 10 (digits.reverse.map fun digit => digit.toNat - 0x30)

/-- An integer is written with digits behind at most one minus sign.  Of digits there may be 4300,
leading zeros included, and the number lies in the range of 64-bit words. -/
def WritesInteger (word : List UInt8) (number : Int) : Prop :=
  ∃ negative digits, word = minus negative ++ digits ∧ digits ≠ [] ∧
    (∀ byte ∈ digits, IsDigit byte) ∧ digits.length ≤ 4300 ∧
    number = (if negative then -(decimal digits : Int) else decimal digits) ∧
    -2 ^ 63 ≤ number ∧ number ≤ 2 ^ 63 - 1

/-- A float is written with a point and digits on at least one side of it, behind at most one minus
sign.  It is the one nearest to the number that is written. -/
def WritesFloat (word : List UInt8) (number : Float) : Prop :=
  ∃ negative whole fraction, word = minus negative ++ (whole ++ 0x2E :: fraction) ∧
    (whole ≠ [] ∨ fraction ≠ []) ∧ (∀ byte ∈ whole ++ fraction, IsDigit byte) ∧
    number = Binary.nearest negative (decimal (whole ++ fraction)) (10 ^ fraction.length)

/-- Digits, minus signs and points, of which one at least is a digit. -/
def IsNumeral (word : List UInt8) : Prop :=
  (∀ byte ∈ word, IsDigit byte ∨ byte = 0x2D ∨ byte = 0x2E) ∧ ∃ byte ∈ word, IsDigit byte

/-- A word made like a number that is none. -/
def IsMalformed (word : List UInt8) : Prop :=
  IsNumeral word ∧ word ≠ [0x2E] ∧ (∀ number, ¬ WritesInteger word number) ∧
    ∀ number, ¬ WritesFloat word number

/-! ## Bytes as characters -/

/-- The characters that the bytes of a word are compared with. -/
def chars (word : List UInt8) : List Char :=
  word.map fun byte => Char.ofNat byte.toNat

theorem toNat_char (byte : UInt8) : (Char.ofNat byte.toNat).toNat = byte.toNat := by
  have small := byte.toNat_lt
  rw [Char.ofNat, dif_pos (.inl (by omega))]
  rfl

theorem char_eq_iff {byte other : UInt8} :
    Char.ofNat byte.toNat = Char.ofNat other.toNat ↔ byte = other := by
  rw [← Char.toNat_inj, toNat_char, toNat_char, UInt8.toNat_inj]

theorem chars_inj {word other : List UInt8} : chars word = chars other ↔ word = other :=
  List.map_inj_right fun _ _ => char_eq_iff.mp

theorem length_chars (word : List UInt8) : (chars word).length = word.length :=
  List.length_map _

theorem isDigit_char {byte : UInt8} : isDigit (Char.ofNat byte.toNat) = true ↔ IsDigit byte := by
  have code : (Char.ofNat byte.toNat).val.toNat = byte.toNat := toNat_char byte
  have low : '0'.val.toNat = 0x30 := rfl
  have high : '9'.val.toNat = 0x39 := rfl
  simp only [isDigit, IsDigit, Bool.and_eq_true, decide_eq_true_eq, Char.le_def,
    UInt32.le_iff_toNat_le, UInt8.le_iff_toNat_le, code, low, high]
  rfl

theorem isNumeric_char {byte : UInt8} :
    isNumeric (Char.ofNat byte.toNat) = true ↔ IsDigit byte ∨ byte = 0x2D ∨ byte = 0x2E := by
  have minus : Char.ofNat byte.toNat = '-' ↔ byte = 0x2D := @char_eq_iff byte 0x2D
  have point : Char.ofNat byte.toNat = '.' ↔ byte = 0x2E := @char_eq_iff byte 0x2E
  simp [isNumeric, isDigit_char, minus, point, or_assoc]

theorem forall_isDigit_chars {digits : List UInt8} :
    (∀ char ∈ chars digits, isDigit char = true) ↔ ∀ byte ∈ digits, IsDigit byte := by
  simp [chars, isDigit_char]

theorem isUnsigned_chars {digits : List UInt8} :
    Literal.isUnsigned (chars digits) = true ↔ digits ≠ [] ∧ ∀ byte ∈ digits, IsDigit byte := by
  rw [Literal.isUnsigned_iff, forall_isDigit_chars]
  simp [chars]

theorem digitsValue_chars (digits : List UInt8) : digitsValue (chars digits) = decimal digits := by
  simp only [digitsValue, decimal, chars, Nat.ofDigits_eq_foldr, List.foldl_map, List.foldr_map,
    List.foldr_reverse, toNat_char, Nat.cast_id, Nat.mul_comm 10, Nat.add_comm]
  rfl

theorem chars_eq_minus_append {word : List UInt8} {negative : Bool} {rest : List Char} :
    chars word = Literal.minus negative ++ rest ↔
      ∃ bytes, word = minus negative ++ bytes ∧ chars bytes = rest := by
  have sign : chars (minus negative) = Literal.minus negative := by
    cases negative <;> rfl
  constructor
  · intro same
    obtain ⟨front, bytes, rfl, first, rest⟩ := List.map_eq_append_iff.mp same
    rw [← sign] at first
    exact ⟨bytes, by rw [chars_inj.mp first], rest⟩
  · rintro ⟨bytes, rfl, rfl⟩
    rw [← sign]
    exact List.map_append

theorem chars_eq_append_point {bytes : List UInt8} {whole fraction : List Char} :
    chars bytes = whole ++ '.' :: fraction ↔
      ∃ before behind, bytes = before ++ 0x2E :: behind ∧ chars before = whole ∧
        chars behind = fraction := by
  constructor
  · intro same
    obtain ⟨before, later, rfl, first, rest⟩ := List.map_eq_append_iff.mp same
    obtain ⟨point, behind, rfl, isPoint, last⟩ := List.map_eq_cons_iff.mp rest
    obtain rfl : point = 0x2E := char_eq_iff.mp isPoint
    exact ⟨before, behind, rfl, first, last⟩
  · rintro ⟨before, behind, rfl, rfl, rfl⟩
    exact List.map_append

/-! ## Readers of literals -/

theorem inRange_iff {number : Int} :
    Literal.inRange number = true ↔ -2 ^ 63 ≤ number ∧ number ≤ 2 ^ 63 - 1 := by
  simp only [Literal.inRange, Bool.and_eq_true, decide_eq_true_eq]
  norm_num
  omega

theorem integer?_chars {word : List UInt8} {number : Int} :
    Literal.integer? (chars word) = some number ↔ WritesInteger word number := by
  rw [Literal.integer?_eq_some_iff]
  constructor
  · rintro ⟨negative, _, same, unsigned, short, value, fits⟩
    obtain ⟨digits, rfl, rfl⟩ := chars_eq_minus_append.mp same
    obtain ⟨nonempty, each⟩ := isUnsigned_chars.mp unsigned
    rw [length_chars] at short
    rw [digitsValue_chars] at value
    exact ⟨negative, digits, rfl, nonempty, each, short, value, inRange_iff.mp fits⟩
  · rintro ⟨negative, digits, rfl, nonempty, each, short, value, fits⟩
    refine ⟨negative, chars digits, chars_eq_minus_append.mpr ⟨digits, rfl, rfl⟩,
      isUnsigned_chars.mpr ⟨nonempty, each⟩, ?_, ?_, inRange_iff.mpr fits⟩
    · rw [length_chars]
      exact short
    · rw [digitsValue_chars]
      exact value

theorem float?_chars {word : List UInt8} {number : Float} :
    Literal.float? (chars word) = some number ↔ WritesFloat word number := by
  have joined (whole fraction : List UInt8) :
      chars whole ++ chars fraction = chars (whole ++ fraction) :=
    List.map_append.symm
  have some (whole fraction : List UInt8) :
      whole ++ fraction ≠ [] ↔ whole ≠ [] ∨ fraction ≠ [] := by
    rw [ne_eq, List.append_eq_nil_iff, not_and_or]
  rw [Literal.float?_eq_some_iff]
  constructor
  · rintro ⟨negative, _, _, same, unsigned, value⟩
    obtain ⟨bytes, rfl, rest⟩ := chars_eq_minus_append.mp same
    obtain ⟨whole, fraction, rfl, rfl, rfl⟩ := chars_eq_append_point.mp rest
    rw [joined] at unsigned value
    obtain ⟨nonempty, each⟩ := isUnsigned_chars.mp unsigned
    rw [digitsValue_chars, length_chars] at value
    exact ⟨negative, whole, fraction, rfl, (some whole fraction).mp nonempty, each, value⟩
  · rintro ⟨negative, whole, fraction, rfl, nonempty, each, value⟩
    refine ⟨negative, chars whole, chars fraction, chars_eq_minus_append.mpr ⟨_, rfl, ?_⟩, ?_, ?_⟩
    · exact chars_eq_append_point.mpr ⟨whole, fraction, rfl, rfl, rfl⟩
    · rw [joined]
      exact isUnsigned_chars.mpr ⟨(some whole fraction).mpr nonempty, each⟩
    · rw [joined, digitsValue_chars, length_chars]
      exact value

/-! ## Numerals -/

theorem isNumeral_chars {word : List UInt8} :
    ((chars word).all isNumeric && (chars word).any isDigit) = true ↔ IsNumeral word := by
  simp [chars, IsNumeral, isNumeric_char, isDigit_char]

theorem contains_point_chars {word : List UInt8} :
    (chars word).contains '.' = true ↔ 0x2E ∈ word := by
  have point : ∀ byte : UInt8, Char.ofNat byte.toNat = '.' ↔ byte = 0x2E :=
    fun byte => @char_eq_iff byte 0x2E
  simp [chars, point]

theorem decodeFrom_of_ascii {word : List UInt8} (ascii : ∀ byte ∈ word, byte.toNat < 0x80) :
    Text.Utf8.decodeFrom none word = chars word := by
  induction word with
  | nil => rfl
  | cons byte word ih =>
      have later := ih fun other member => ascii other (List.mem_cons_of_mem byte member)
      simp only [Text.Utf8.decodeFrom, Text.Utf8.opening, ascii byte List.mem_cons_self, if_true,
        later]
      rfl

/-- The text of a numeral is that of its bytes one by one. -/
theorem IsNumeral.decode_eq {word : List UInt8} (numeral : IsNumeral word) :
    Text.Utf8.decode word = String.ofList (chars word) := by
  have ascii : ∀ byte ∈ word, byte.toNat < 0x80 := by
    intro byte member
    rcases numeral.1 byte member with ⟨_, high⟩ | rfl | rfl
    · exact Nat.lt_of_le_of_lt (UInt8.le_iff_toNat_le.mp high) (by decide)
    · decide
    · decide
  rw [Text.Utf8.decode, decodeFrom_of_ascii ascii]

theorem eq_of_mem_minus {negative : Bool} {byte : UInt8} (member : byte ∈ minus negative) :
    byte = 0x2D := by
  cases negative with
  | true => exact List.mem_singleton.mp member
  | false => cases member

theorem isNumeral_minus_append {negative : Bool} {rest : List UInt8}
    (each : ∀ byte ∈ rest, IsDigit byte ∨ byte = 0x2E) (some : ∃ byte ∈ rest, IsDigit byte) :
    IsNumeral (minus negative ++ rest) := by
  refine ⟨fun byte member => ?_, ?_⟩
  · rcases List.mem_append.mp member with sign | later
    · exact .inr (.inl (eq_of_mem_minus sign))
    · exact (each byte later).imp_right .inr
  · obtain ⟨byte, member, digit⟩ := some
    exact ⟨byte, List.mem_append_right _ member, digit⟩

theorem WritesInteger.isNumeral {word : List UInt8} {number : Int}
    (written : WritesInteger word number) : IsNumeral word ∧ 0x2E ∉ word := by
  obtain ⟨negative, digits, rfl, nonempty, each, -⟩ := written
  obtain ⟨first, member⟩ := List.exists_mem_of_ne_nil digits nonempty
  refine ⟨isNumeral_minus_append (fun byte member => .inl (each byte member))
    ⟨first, member, each first member⟩, fun point => ?_⟩
  rcases List.mem_append.mp point with sign | digit
  · cases eq_of_mem_minus sign
  · exact absurd (each 0x2E digit) (by decide)

theorem WritesFloat.isNumeral {word : List UInt8} {number : Float}
    (written : WritesFloat word number) : IsNumeral word ∧ 0x2E ∈ word := by
  obtain ⟨negative, whole, fraction, rfl, nonempty, each, -⟩ := written
  have some : whole ++ fraction ≠ [] := by
    rwa [ne_eq, List.append_eq_nil_iff, not_and_or]
  obtain ⟨first, member⟩ := List.exists_mem_of_ne_nil _ some
  refine ⟨isNumeral_minus_append (fun byte inside => ?_) ⟨first, ?_, each first member⟩, by simp⟩
  · have parts := each byte
    grind
  · grind

theorem not_isNumeral_point : ¬ IsNumeral [0x2E] := by
  rintro ⟨-, byte, member, digit⟩
  rw [List.mem_singleton.mp member] at digit
  exact absurd digit (by decide)

/-- A numeral is an integer, a float or malformed. -/
theorem isNumeral_iff {word : List UInt8} :
    IsNumeral word ↔ (∃ number, WritesInteger word number) ∨
      (∃ number, WritesFloat word number) ∨ IsMalformed word := by
  constructor
  · intro numeral
    by_cases integer : ∃ number, WritesInteger word number
    · exact .inl integer
    by_cases float : ∃ number, WritesFloat word number
    · exact .inr (.inl float)
    have notDot : word ≠ [0x2E] := by
      rintro rfl
      exact not_isNumeral_point numeral
    exact .inr (.inr ⟨numeral, notDot, not_exists.mp integer, not_exists.mp float⟩)
  · rintro (⟨number, written⟩ | ⟨number, written⟩ | none)
    · exact written.isNumeral.1
    · exact written.isNumeral.1
    · exact none.1

/-! ## Classification -/

/-- What the grammar makes of a word. -/
inductive Classified (word : List UInt8) : Except LexicalError Token → Prop where
  | dot (same : word = [0x2E]) : Classified word (.ok .dot)
  | integer {number : Int} (written : WritesInteger word number) :
      Classified word (.ok (.integer number))
  | float {number : Float} (written : WritesFloat word number) :
      Classified word (.ok (.float number))
  | malformed (none : IsMalformed word) :
      Classified word (.error (.malformedNumber (Text.Utf8.decode word)))
  | symbol (notDot : word ≠ [0x2E]) (other : ¬ IsNumeral word) :
      Classified word (.ok (.symbol (Text.Utf8.decode word)))

section

variable {word : List UInt8}

theorem chars_ne_point (notDot : word ≠ [0x2E]) : chars word ≠ ['.'] :=
  fun same => notDot (chars_inj.mp same)

/-- A numeral with a point is a float or malformed. -/
theorem classify_of_point (notDot : word ≠ [0x2E]) (numeral : IsNumeral word)
    (point : 0x2E ∈ word) :
    classify word =
      match Literal.float? (chars word) with
      | some number => .ok (.float number)
      | none => .error (.malformedNumber (Text.Utf8.decode word)) := by
  rw [classify, ← chars, if_neg (chars_ne_point notDot), if_pos (isNumeral_chars.mpr numeral),
    numeral.decode_eq]
  exact if_pos (contains_point_chars.mpr point)

/-- A numeral without a point is an integer or malformed. -/
theorem classify_of_no_point (numeral : IsNumeral word) (noPoint : 0x2E ∉ word) :
    classify word =
      match Literal.integer? (chars word) with
      | some number => .ok (.integer number)
      | none => .error (.malformedNumber (Text.Utf8.decode word)) := by
  have notDot : word ≠ [0x2E] := by
    rintro rfl
    exact noPoint List.mem_cons_self
  rw [classify, ← chars, if_neg (chars_ne_point notDot), if_pos (isNumeral_chars.mpr numeral),
    numeral.decode_eq]
  exact if_neg fun point => noPoint (contains_point_chars.mp point)

theorem classify_of_not_isNumeral (notDot : word ≠ [0x2E]) (other : ¬ IsNumeral word) :
    classify word = .ok (.symbol (Text.Utf8.decode word)) := by
  rw [classify, ← chars, if_neg (chars_ne_point notDot),
    if_neg fun numeral => other (isNumeral_chars.mp numeral)]

/-- Every word is classified as the grammar says. -/
theorem classified_classify (word : List UInt8) : Classified word (classify word) := by
  by_cases isDot : word = [0x2E]
  · rw [isDot]
    exact .dot rfl
  by_cases numeral : IsNumeral word
  · by_cases point : 0x2E ∈ word
    · rw [classify_of_point isDot numeral point]
      cases found : Literal.float? (chars word) with
      | some number => exact .float (float?_chars.mp found)
      | none =>
          refine .malformed ⟨numeral, isDot, fun number written => written.isNumeral.2 point,
            fun number written => ?_⟩
          cases found.symm.trans (float?_chars.mpr written)
    · rw [classify_of_no_point numeral point]
      cases found : Literal.integer? (chars word) with
      | some number => exact .integer (integer?_chars.mp found)
      | none =>
          refine .malformed ⟨numeral, isDot, fun number written => ?_,
            fun number written => point written.isNumeral.2⟩
          cases found.symm.trans (integer?_chars.mpr written)
  · rw [classify_of_not_isNumeral isDot numeral]
    exact .symbol isDot numeral

/-- Whatever the grammar makes of a word, the word is classified so. -/
theorem Classified.classify_eq {result : Except LexicalError Token}
    (classified : Classified word result) : classify word = result := by
  cases classified with
  | dot same =>
      subst same
      rfl
  | integer written =>
      rw [classify_of_no_point written.isNumeral.1 written.isNumeral.2, integer?_chars.mpr written]
  | float written =>
      have notDot : word ≠ [0x2E] := by
        rintro rfl
        exact not_isNumeral_point written.isNumeral.1
      rw [classify_of_point notDot written.isNumeral.1 written.isNumeral.2,
        float?_chars.mpr written]
  | malformed none =>
      obtain ⟨numeral, notDot, noInteger, noFloat⟩ := none
      by_cases point : 0x2E ∈ word
      · have refused : Literal.float? (chars word) = none :=
          Option.eq_none_iff_forall_ne_some.mpr fun number found =>
            noFloat number (float?_chars.mp found)
        rw [classify_of_point notDot numeral point, refused]
      · have refused : Literal.integer? (chars word) = none :=
          Option.eq_none_iff_forall_ne_some.mpr fun number found =>
            noInteger number (integer?_chars.mp found)
        rw [classify_of_no_point numeral point, refused]
  | symbol notDot other => exact classify_of_not_isNumeral notDot other

theorem classify_eq_iff {result : Except LexicalError Token} :
    classify word = result ↔ Classified word result :=
  ⟨fun same => same ▸ classified_classify word, Classified.classify_eq⟩

end

/-- Classification decides the grammar of numbers.  A word is the dot if it is a point alone, an
integer or a float if it is written as one, and then with the number it denotes; it is refused, with
its text, if it is made of digits, minus signs and points, holds a digit and is none of these; and
in every other case it is a symbol with its text as the name. -/
theorem classify_decides_grammar (word : List UInt8) :
    (classify word = .ok .dot ↔ word = [0x2E]) ∧
    (∀ number, classify word = .ok (.integer number) ↔ WritesInteger word number) ∧
    (∀ number, classify word = .ok (.float number) ↔ WritesFloat word number) ∧
    (∀ cause, classify word = .error cause ↔
      IsMalformed word ∧ cause = .malformedNumber (Text.Utf8.decode word)) ∧
    ∀ name, classify word = .ok (.symbol name) ↔
      ¬ (word = [0x2E] ∨ (∃ number, WritesInteger word number) ∨
        (∃ number, WritesFloat word number) ∨ IsMalformed word) ∧
      name = Text.Utf8.decode word := by
  simp only [classify_eq_iff, ← isNumeral_iff, not_or]
  refine ⟨⟨fun classified => ?_, .dot⟩, fun number => ⟨fun classified => ?_, .integer⟩,
    fun number => ⟨fun classified => ?_, .float⟩, fun cause => ⟨fun classified => ?_, ?_⟩,
    fun name => ⟨fun classified => ?_, ?_⟩⟩
  · cases classified with
    | dot same => exact same
  · cases classified with
    | integer written => exact written
  · cases classified with
    | float written => exact written
  · cases classified with
    | malformed none => exact ⟨none, rfl⟩
  · rintro ⟨none, rfl⟩
    exact .malformed none
  · cases classified with
    | symbol notDot other => exact ⟨⟨notDot, other⟩, rfl⟩
  · rintro ⟨⟨notDot, other⟩, rfl⟩
    exact .symbol notDot other

end ConsLisp.Token
