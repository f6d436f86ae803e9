import Mathlib.Data.List.Induction
import ConsLisp.Number.Numeral
import ConsLisp.Proofs.Number.Integer
import ConsLisp.Proofs.Number.Shortest

/-!
# Floats written and read

A finite float is written with the digits of a decimal that rounds to it, so it is read back from
its text as itself.
-/

namespace ConsLisp.Number

/-! ## Digits -/

theorem digitsValue_append (digits more : List Char) :
    digitsValue (digits ++ more) =
      digitsValue digits * Nat.pow 10 more.length + digitsValue more := by
  induction more using List.reverseRecOn with
  | nil => simp [digitsValue]
  | append_singleton more digit ih =>
      have step (front : List Char) :
          digitsValue (front ++ [digit]) =
            digitsValue front * 10 + (digit.toNat - '0'.toNat) := by
        simp [digitsValue]
      rw [← List.append_assoc, step, step, ih]
      simp only [List.length_append, List.length_singleton, Nat.pow_eq, Nat.pow_succ]
      ring

namespace Numeral

@[simp] theorem length_zeros (count : Nat) : (zeros count).length = count :=
  List.length_replicate

@[simp] theorem digitsValue_zeros (count : Nat) : digitsValue (zeros count) = 0 := by
  induction count with
  | zero => rfl
  | succ count ih => simpa [zeros, List.replicate_succ, digitsValue] using ih

/-- Zeros are all that is dropped. -/
theorem dropTrailingZeros_append (digits : List Char) :
    dropTrailingZeros digits ++ zeros (digits.length - (dropTrailingZeros digits).length) =
      digits := by
  have parts := congrArg List.reverse
    (List.takeWhile_append_dropWhile (p := (· = '0')) (l := digits.reverse))
  rw [List.reverse_append, List.reverse_reverse] at parts
  have same : (digits.reverse.takeWhile (· = '0')).reverse =
      zeros (digits.length - (dropTrailingZeros digits).length) := by
    rw [zeros, List.eq_replicate_iff]
    have lengths := congrArg List.length parts
    rw [List.length_append] at lengths
    refine ⟨?_, fun char member => ?_⟩
    · unfold dropTrailingZeros
      omega
    · simpa using List.all_eq_true.mp List.all_takeWhile char (List.mem_reverse.mp member)
  rw [← same]
  exact parts

/-! ## Positional numerals -/

/-- Digits on both sides of the point and no exponent. -/
structure IsPositional (numeral : Numeral) : Prop where
  whole : numeral.whole ≠ []
  wholeDigits : ∀ char ∈ numeral.whole, isDigit char = true
  fraction : numeral.fraction ≠ []
  fractionDigits : ∀ char ∈ numeral.fraction, isDigit char = true
  exponent : numeral.exponent = none

theorem isDigit_zero {count : Nat} : ∀ char ∈ zeros count, isDigit char = true := by
  intro char member
  rw [List.eq_of_mem_replicate member]
  rfl

/-- The value of a numeral without an exponent. -/
def toRat (numeral : Numeral) : ℚ :=
  digitsValue (numeral.whole ++ numeral.fraction) / 10 ^ numeral.fraction.length

section

variable {digits : List Char} (negative : Bool) (point : Int)

theorem isPositional_layOut (nonempty : digits ≠ [])
    (each : ∀ char ∈ digits, isDigit char = true) :
    (layOut negative digits point).IsPositional := by
  have zero : ∀ char ∈ ['0'], isDigit char = true := List.forall_mem_singleton.mpr rfl
  simp only [layOut]
  split
  next small =>
      exact ⟨List.cons_ne_nil _ _, zero, List.append_ne_nil_of_right_ne_nil _ nonempty,
        List.forall_mem_append.mpr ⟨isDigit_zero, each⟩, rfl⟩
  next large =>
      split
      next long =>
          exact ⟨List.append_ne_nil_of_left_ne_nil nonempty _,
            List.forall_mem_append.mpr ⟨each, isDigit_zero⟩, List.cons_ne_nil _ _, zero, rfl⟩
      next short =>
          refine ⟨?_, fun char member => each char (List.mem_of_mem_take member), ?_,
            fun char member => each char (List.mem_of_mem_drop member), rfl⟩
          · rw [Ne, List.take_eq_nil_iff]
            simp only [nonempty, or_false]
            omega
          · rw [Ne, List.drop_eq_nil_iff]
            exact short

theorem negative_layOut : (layOut negative digits point).negative = negative := by
  simp only [layOut]
  split
  · rfl
  · split <;> rfl

/-- The point stands after so many of the digits. -/
theorem toRat_layOut :
    (layOut negative digits point).toRat =
      digitsValue digits * 10 ^ (point - (digits.length : Int)) := by
  have zero : digitsValue ['0'] = 0 := rfl
  simp only [layOut]
  split
  next small =>
      have places : point - (digits.length : Int) =
          -((point.natAbs + digits.length : Nat) : Int) := by
        omega
      have value : digitsValue (['0'] ++ (zeros point.natAbs ++ digits)) = digitsValue digits := by
        simp only [digitsValue_append, zero, digitsValue_zeros, Nat.zero_mul, Nat.zero_add]
      rw [places, zpow_neg, zpow_natCast, ← div_eq_mul_inv, toRat, value, List.length_append,
        length_zeros]
  next large =>
      split
      next long =>
          have places : point - (digits.length : Int) =
              ((point.toNat - digits.length : Nat) : Int) := by
            omega
          rw [places, zpow_natCast, toRat]
          simp only [digitsValue_append, zero, digitsValue_zeros, length_zeros,
            List.length_singleton, Nat.pow_eq]
          push_cast
          ring
      next short =>
          have places : point - (digits.length : Int) =
              -((digits.length - point.toNat : Nat) : Int) := by
            omega
          rw [places, zpow_neg, zpow_natCast, ← div_eq_mul_inv, toRat, List.take_append_drop,
            List.length_drop]

end

/-- Without its exponent, a numeral is its digits laid out. -/
theorem positional_ofDigits {digits : List Char} (nonempty : digits ≠ [])
    (each : ∀ char ∈ digits, isDigit char = true) (negative : Bool) (point : Int) :
    (ofDigits negative digits point).positional = layOut negative digits point := by
  unfold ofDigits
  split
  next => rw [positional, (isPositional_layOut negative point nonempty each).exponent]
  next =>
      obtain ⟨first, others, rfl⟩ := List.exists_cons_of_ne_nil nonempty
      simp [positional]

theorem IsPositional.toList_render {numeral : Numeral} (positional : numeral.IsPositional) :
    numeral.render.toList =
      (if numeral.negative then ['-'] else []) ++ (numeral.whole ++ '.' :: numeral.fraction) := by
  simp [render, positional.fraction, positional.exponent]

/-- A positional numeral is read as the float nearest to it. -/
theorem IsPositional.float?_render {numeral : Numeral} (positional : numeral.IsPositional) :
    Literal.float? numeral.render.toList =
      some (Binary.nearest numeral.negative (digitsValue (numeral.whole ++ numeral.fraction))
        (Nat.pow 10 numeral.fraction.length)) := by
  have unsigned : Literal.isUnsigned (numeral.whole ++ numeral.fraction) = true :=
    Literal.isUnsigned_iff.mpr ⟨List.append_ne_nil_of_left_ne_nil positional.whole _,
      List.forall_mem_append.mpr ⟨positional.wholeDigits, positional.fractionDigits⟩⟩
  exact Literal.float?_eq_some_iff.mpr ⟨_, _, _, positional.toList_render, unsigned, rfl⟩

/-! ## The text of a finite float -/

section

open Binary Shortest

variable {mantissa : Nat} {exponent : Int}

theorem number_ofBinary_pos (canonical : Canonical mantissa exponent) (some : 0 < mantissa) :
    0 < (ofBinary mantissa exponent).number := by
  have product := (surrounds_ofBinary canonical some).pos some
  rw [mul_pos_iff_of_pos_right (ten_zpow_pos _)] at product
  exact_mod_cast product

/-- A positive float is written with the digits of its shortest decimal. -/
theorem positional_ofFinite (canonical : Canonical mantissa exponent) (some : 0 < mantissa)
    (negative : Bool) :
    ∃ digits point,
      (ofFinite negative mantissa exponent).positional = layOut negative digits point ∧
      digits ≠ [] ∧ (∀ char ∈ digits, isDigit char = true) ∧
      Surrounds mantissa exponent (layOut negative digits point).toRat := by
  have surrounds := surrounds_ofBinary canonical some
  have positive := number_ofBinary_pos canonical some
  rw [ofFinite, if_neg (Nat.ne_of_gt some)]
  generalize ofBinary mantissa exponent = decimal at *
  have each (char : Char) (member : char ∈ Nat.toDigits 10 decimal.number) :
      isDigit char = true := isDigit_of_mem_toDigits member
  have number := digitsValue_toDigits decimal.number
  have parts := dropTrailingZeros_append (Nat.toDigits 10 decimal.number)
  simp only
  generalize Nat.toDigits 10 decimal.number = digits at *
  generalize dropTrailingZeros digits = kept at *
  have nonempty : kept ≠ [] := by
    rintro rfl
    rw [← parts, List.nil_append, digitsValue_zeros] at number
    omega
  have keptDigits (char : Char) (member : char ∈ kept) : isDigit char = true :=
    each char (parts ▸ List.mem_append_left _ member)
  refine ⟨kept, _, positional_ofDigits nonempty keptDigits negative _, nonempty, keptDigits, ?_⟩
  have places : (digits.length : Int) + decimal.power - kept.length =
      (digits.length - kept.length : Nat) + decimal.power := by
    have lengths := congrArg List.length parts
    rw [List.length_append] at lengths
    omega
  have value := calc
    decimal.number = digitsValue digits := number.symm
    _ = digitsValue (kept ++ zeros (digits.length - kept.length)) := by rw [parts]
    _ = digitsValue kept * Nat.pow 10 (digits.length - kept.length) := by
      rw [digitsValue_append, digitsValue_zeros, length_zeros, Nat.add_zero]
  rw [value, Nat.pow_eq] at surrounds
  push_cast at surrounds
  rwa [toRat_layOut, places, zpow_add₀ (by norm_num), zpow_natCast, ← mul_assoc]

/-- The digits of a finite float are read as the float. -/
theorem float?_render_ofFinite (canonical : Canonical mantissa exponent) (negative : Bool) :
    (ofFinite negative mantissa exponent).positional.IsPositional ∧
      Literal.float? (ofFinite negative mantissa exponent).positional.render.toList =
        some (pack negative mantissa exponent) := by
  rcases Nat.eq_zero_or_pos mantissa with rfl | some
  · have digit : ∀ char ∈ ['0'], isDigit char = true := List.forall_mem_singleton.mpr rfl
    have positional : (Numeral.mk negative ['0'] ['0'] none).IsPositional :=
      ⟨List.cons_ne_nil _ _, digit, List.cons_ne_nil _ _, digit, rfl⟩
    obtain rfl : exponent = leastExponent := canonical.full.resolve_left (by decide)
    have written :
        (ofFinite negative 0 leastExponent).positional = ⟨negative, ['0'], ['0'], none⟩ := rfl
    have zero : digitsValue (['0'] ++ ['0']) = 0 := rfl
    rw [written, positional.float?_render, nearest, if_pos zero]
    exact ⟨positional, rfl⟩
  · obtain ⟨digits, point, same, nonempty, each, surrounds⟩ :=
      positional_ofFinite canonical some negative
    have positional := isPositional_layOut negative point nonempty each
    rw [same, positional.float?_render, negative_layOut]
    generalize layOut negative digits point = numeral at *
    have positive : 0 < digitsValue (numeral.whole ++ numeral.fraction) := by
      have ratio := surrounds.pos some
      rw [toRat, div_pos_iff_of_pos_right (by positivity)] at ratio
      exact_mod_cast ratio
    refine ⟨positional, congrArg _ ?_⟩
    apply nearest_of_surrounds canonical positive (Nat.pow_pos (by decide))
    push_cast
    exact surrounds

end

end Numeral

/-- The text of a finite float is digits with a point between them, after a sign if it is negative,
and it is read back as the float. -/
theorem float?_positionalFloatText {float : Float} {negative : Bool} {mantissa : Nat}
    {exponent : Int} (parts : Binary.ofFloat float = .finite negative mantissa exponent) :
    ∃ numeral : Numeral, numeral.IsPositional ∧ positionalFloatText float = numeral.render ∧
      Literal.float? numeral.render.toList = some float := by
  obtain ⟨canonical, same⟩ := Binary.pack_of_ofFloat parts
  obtain ⟨positional, read⟩ := Numeral.float?_render_ofFinite canonical negative
  rw [same] at read
  refine ⟨_, positional, ?_, read⟩
  rw [positionalFloatText, floatTextWith, parts]

end ConsLisp.Number
