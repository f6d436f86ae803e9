import Mathlib
import ConsLisp.Number.Binary

/-!
# Floats and their bits

A finite float is determined by the sign, the mantissa and the exponent that are read off its bits.
-/

namespace ConsLisp.Number

namespace Binary

/-- The mantissa has at most 53 bits, all of which are used unless the exponent is the least one. -/
structure Canonical (mantissa : Nat) (exponent : Int) : Prop where
  short : mantissa < Nat.pow 2 53
  least : leastExponent ≤ exponent
  full : Nat.pow 2 52 ≤ mantissa ∨ exponent = leastExponent

/-- Nothing is lost where the exponent is not too large. -/
theorem pack_eq {float : Float} {negative : Bool} {mantissa : Nat} {exponent : Int}
    (within : (exponent - leastExponent).toNat * Nat.pow 2 52 + mantissa < 2047 * Nat.pow 2 52)
    (same : signBits negative + ((exponent - leastExponent).toNat * Nat.pow 2 52 + mantissa) =
      float.toBits.toNat) : pack negative mantissa exponent = float := by
  rw [pack, if_neg (Nat.not_le.mpr within), same, UInt64.ofNat_toNat, Float.ofBits_toBits]

/-- A finite float is put together again from its parts. -/
theorem pack_of_ofFloat {float : Float} {negative : Bool} {mantissa : Nat} {exponent : Int}
    (parts : ofFloat float = .finite negative mantissa exponent) :
    Canonical mantissa exponent ∧ pack negative mantissa exponent = float := by
  have word := float.toBits.toNat_lt
  have sign : signBits (decide (Nat.pow 2 63 ≤ float.toBits.toNat)) =
      float.toBits.toNat / Nat.pow 2 63 * Nat.pow 2 63 := by
    simp only [signBits, decide_eq_true_eq, Nat.pow_eq]
    split <;> omega
  simp only [ofFloat] at parts
  split at parts
  next => split at parts <;> cases parts
  next finite =>
      split at parts
      next least =>
          cases parts
          have steps : (leastExponent - leastExponent).toNat = 0 := rfl
          simp only [Nat.pow_eq] at least
          refine ⟨⟨?_, Int.le_refl _, .inr rfl⟩, pack_eq ?_ ?_⟩
          · simp only [Nat.pow_eq]
            omega
          · simp only [steps, Nat.pow_eq]
            omega
          · simp only [steps, sign, Nat.pow_eq]
            omega
      next normal =>
          cases parts
          have steps : (leastExponent +
              (float.toBits.toNat / Nat.pow 2 52 % Nat.pow 2 11 - 1 : Nat) - leastExponent).toNat =
              float.toBits.toNat / Nat.pow 2 52 % Nat.pow 2 11 - 1 := by
            omega
          simp only [Nat.pow_eq] at finite normal
          refine ⟨⟨?_, Int.le_add_of_nonneg_right (Int.natCast_nonneg _),
            .inl (Nat.le_add_right _ _)⟩, pack_eq ?_ ?_⟩
          · simp only [Nat.pow_eq]
            omega
          · simp only [steps, Nat.pow_eq]
            omega
          · simp only [steps, sign, Nat.pow_eq]
            omega

end Binary

end ConsLisp.Number
