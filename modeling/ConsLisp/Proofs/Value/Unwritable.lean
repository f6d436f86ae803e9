import ConsLisp.Proofs.Form.Atoms
import ConsLisp.Proofs.Number.Numeral
import ConsLisp.Proofs.RoundTrip
import ConsLisp.Proofs.Token.Names

/-!
# Atoms whose text is not read back

The printer writes a symbol by its name alone, with no backslashes, and a float that is not finite
by a word.  So a symbol can be read back if its name is a single token, and a float if it is finite.
-/

namespace ConsLisp

def Number.Binary.isFinite : Number.Binary → Bool
  | .finite _ _ _ => true
  | .nan | .infinite _ => false

theorem Number.Binary.exists_of_isFinite {binary : Binary} (finite : binary.isFinite = true) :
    ∃ negative mantissa exponent, binary = .finite negative mantissa exponent := by
  cases binary with
  | finite negative mantissa exponent => exact ⟨negative, mantissa, exponent, rfl⟩
  | _ => cases finite

namespace Number.Numeral.IsPositional

variable {numeral : Numeral} (positional : numeral.IsPositional)

include positional

theorem isNumeric_render : ∀ char ∈ numeral.render.toList, Token.isNumeric char = true := by
  intro char member
  have digit (own : isDigit char = true) : Token.isNumeric char = true := by
    simp [Token.isNumeric, own]
  rw [positional.toList_render, List.mem_append, List.mem_append, List.mem_cons] at member
  rcases member with sign | whole | rfl | fraction
  · split at sign
    · rw [List.mem_singleton.mp sign]
      rfl
    · cases sign
  · exact digit (positional.wholeDigits char whole)
  · rfl
  · exact digit (positional.fractionDigits char fraction)

theorem ofWord_render {number : Float} (read : Literal.float? numeral.render.toList = some number) :
    Token.ofWord numeral.render.toList = .ok (.float number) := by
  have numeric := List.all_eq_true.mpr positional.isNumeric_render
  have point : '.' ∈ numeral.render.toList := by
    simp [positional.toList_render]
  have digit : numeral.render.toList.any isDigit = true := by
    obtain ⟨char, others, whole⟩ := List.exists_cons_of_ne_nil positional.whole
    have member : char ∈ numeral.whole := whole ▸ List.mem_cons_self
    refine List.any_eq_true.mpr ⟨char, ?_, positional.wholeDigits char member⟩
    simp [positional.toList_render, member]
  have notDot : numeral.render.toList ≠ ['.'] := by
    intro dot
    rw [dot] at digit
    cases digit
  rw [Token.ofWord, if_neg notDot, if_pos (Bool.and_eq_true_iff.mpr ⟨numeric, digit⟩),
    if_pos (List.contains_iff_mem.mpr point), read]

end Number.Numeral.IsPositional

namespace Number

theorem positionalFloatText_of_not_finite {number : Float}
    (notFinite : (Binary.ofFloat number).isFinite = false) :
    positionalFloatText number ∈ ["nan", "inf", "-inf"] := by
  rw [positionalFloatText, floatTextWith]
  cases parts : Binary.ofFloat number with
  | finite negative mantissa exponent =>
      rw [parts] at notFinite
      cases notFinite
  | nan => exact List.mem_cons_self
  | infinite negative => cases negative <;> simp

theorem ordinary_positionalFloatText (number : Float) :
    ∀ char ∈ (positionalFloatText number).toList, Role.ofChar char = .ordinary := by
  cases finite : (Binary.ofFloat number).isFinite with
  | true =>
      obtain ⟨negative, mantissa, exponent, parts⟩ := Binary.exists_of_isFinite finite
      obtain ⟨numeral, positional, text, _⟩ := float?_positionalFloatText parts
      rw [text]
      exact fun char member => Role.ofChar_of_isNumeric (positional.isNumeric_render char member)
  | false =>
      have words : ["nan", "inf", "-inf"].all
          (fun text => text.toList.all (Role.ofChar · = .ordinary)) = true := rfl
      have own := List.all_eq_true.mp words _ (positionalFloatText_of_not_finite finite)
      simpa using own

end Number

namespace Value

/-- Atoms whose printed text is not read back as the one token that denotes them. -/
inductive Unwritable : Value → Prop where
  /-- The text is the name, which alone is another token, several or none. -/
  | symbol {name : String} (notName : ¬ Token.IsName name) : Unwritable (.symbol name)
  /-- The text is a word, which is read as a symbol. -/
  | float {number : Float} (notFinite : (Number.Binary.ofFloat number).isFinite = false) :
      Unwritable (.float number)

theorem Readable.float_of_isFinite {number : Float}
    (finite : (Number.Binary.ofFloat number).isFinite = true) : Readable (.float number) := by
  obtain ⟨negative, mantissa, exponent, parts⟩ := Number.Binary.exists_of_isFinite finite
  obtain ⟨numeral, positional, text, read⟩ := Number.float?_positionalFloatText parts
  have classified : Token.classify (Text.Utf8.encodeList numeral.render.toList) =
      .ok (.float number) := by
    rw [Token.classify_encodeList, positional.ofWord_render read]
  exact .float (text ▸ positional.isNumeric_render) (text ▸ classified)

/-- The other atoms that tokens denote are readable. -/
theorem Readable.of_denotes {token : Token} {value : Value} (denoted : token.Denotes value)
    (fits : token.IsLiteral) (writable : ¬ value.Unwritable) : value.Readable := by
  cases denoted with
  | integer number =>
      have bounds : Number.Literal.inRange number = true := fits
      simp only [Number.Literal.inRange, Bool.and_eq_true, decide_eq_true_eq] at bounds
      exact .integer (by omega) (by omega)
  | float number =>
      cases finite : (Number.Binary.ofFloat number).isFinite with
      | true => exact .float_of_isFinite finite
      | false => exact absurd (.float finite) writable
  | string text => exact .string text
  | truth folded => exact .truth
  | nil folded => exact .nil
  | symbol notTruth notNil =>
      refine .symbol (Text.fold_fold _) notTruth notNil ?_
      by_contra notName
      exact writable (.symbol notName)

end Value

end ConsLisp
