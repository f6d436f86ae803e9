import ConsLisp.Number.Shortest
import ConsLisp.Proofs.Number.Nearest

/-!
# The shortest decimal of a float

The decimal that is found for a float rounds to it: whatever is found on a grid of decimals lies in
the interval around the float, and on a grid of seventeen digits something is always found.
-/

namespace ConsLisp.Number.Shortest

open Binary

/-! ## Ratios as numbers -/

def Ratio.toRat (ratio : Ratio) : ℚ :=
  ratio.numerator / ratio.denominator

theorem toRat_dyadic (number : Nat) (exponent : Int) :
    (dyadic number exponent).toRat = number * 2 ^ exponent := by
  cases exponent with
  | ofNat power => simp [dyadic, Ratio.toRat]
  | negSucc power => simp [dyadic, Ratio.toRat, zpow_negSucc, div_eq_mul_inv]

theorem dyadic_pos (number : Nat) (exponent : Int) : 0 < (dyadic number exponent).denominator := by
  cases exponent with
  | ofNat power => exact Nat.one_pos
  | negSucc power => exact Nat.pow_pos (by decide)

section

variable {ratio : Ratio} (positive : 0 < ratio.denominator)
include positive

theorem Ratio.scaleDown_pos (power : Int) : 0 < (ratio.scaleDown power).denominator := by
  cases power with
  | ofNat power => exact Nat.mul_pos positive (Nat.pow_pos (by decide))
  | negSucc power => exact positive

omit positive in
theorem Ratio.toRat_scaleDown (power : Int) :
    (ratio.scaleDown power).toRat = ratio.toRat / 10 ^ power := by
  cases power with
  | ofNat power => simp [scaleDown, toRat, div_div]
  | negSucc power => simp [scaleDown, toRat, zpow_negSucc, mul_div_right_comm]

theorem Ratio.admitsAbove_iff {closed : Bool} {number : Nat} :
    ratio.admitsAbove closed number = true ↔
      ratio.toRat ≤ number ∧ (closed = false → ratio.toRat < number) := by
  have scale : (0 : ℚ) < ratio.denominator := Nat.cast_pos.mpr positive
  have weak : ratio.toRat ≤ number ↔ ratio.numerator ≤ number * ratio.denominator := by
    rw [toRat, div_le_iff₀ scale]
    norm_cast
  have strict : ratio.toRat < number ↔ ratio.numerator < number * ratio.denominator := by
    rw [toRat, div_lt_iff₀ scale]
    norm_cast
  rw [weak, strict]
  cases closed with
  | true => simp [admitsAbove]
  | false => simpa [admitsAbove] using Nat.le_of_lt

theorem Ratio.admitsBelow_iff {closed : Bool} {number : Nat} :
    ratio.admitsBelow closed number = true ↔
      number ≤ ratio.toRat ∧ (closed = false → number < ratio.toRat) := by
  have scale : (0 : ℚ) < ratio.denominator := Nat.cast_pos.mpr positive
  have weak : number ≤ ratio.toRat ↔ number * ratio.denominator ≤ ratio.numerator := by
    rw [toRat, le_div_iff₀ scale]
    norm_cast
  have strict : number < ratio.toRat ↔ number * ratio.denominator < ratio.numerator := by
    rw [toRat, lt_div_iff₀ scale]
    norm_cast
  rw [weak, strict]
  cases closed with
  | true => simp [admitsBelow]
  | false => simpa [admitsBelow] using Nat.le_of_lt

/-- The whole part of a ratio. -/
theorem Ratio.floor_bounds :
    ((ratio.numerator / ratio.denominator : Nat) : ℚ) ≤ ratio.toRat ∧
      ratio.toRat < (ratio.numerator / ratio.denominator : Nat) + 1 := by
  have scale : (0 : ℚ) < ratio.denominator := Nat.cast_pos.mpr positive
  rw [toRat, le_div_iff₀ scale, div_lt_iff₀ scale]
  constructor
  · exact_mod_cast Nat.div_mul_le_self ratio.numerator ratio.denominator
  · rw [add_mul, one_mul]
    exact_mod_cast Nat.lt_div_mul_add positive

end

/-! ## The interval around a float -/

section

variable {mantissa : Nat} {exponent power : Int} {number : Nat}

theorem toRat_quarters (number : Nat) (exponent : Int) :
    (dyadic number (exponent - 2)).toRat = number / 4 * 2 ^ exponent := by
  rw [toRat_dyadic, zpow_sub₀ two_ne_zero]
  norm_num
  ring

theorem toRat_low (some : 0 < mantissa) :
    (interval mantissa exponent).low.toRat =
      (mantissa - reachBelow mantissa exponent) * 2 ^ exponent := by
  simp only [interval, toRat_quarters, reachBelow, Bool.and_eq_true, decide_eq_true_eq]
  split
  · rw [Nat.cast_sub (by omega)]
    push_cast
    ring
  · rw [Nat.cast_sub (by omega)]
    push_cast
    ring

theorem toRat_value : (interval mantissa exponent).value.toRat = mantissa * 2 ^ exponent := by
  simp only [interval, toRat_quarters]
  push_cast
  ring

theorem toRat_high :
    (interval mantissa exponent).high.toRat = (mantissa + 1 / 2) * 2 ^ exponent := by
  simp only [interval, toRat_quarters]
  push_cast
  ring

theorem closed_eq_false : (interval mantissa exponent).closed = false ↔ mantissa % 2 = 1 := by
  simp only [interval, decide_eq_false_iff_not]
  omega

theorem ten_zpow_pos (power : Int) : (0 : ℚ) < 10 ^ power :=
  zpow_pos (by norm_num) power

/-- A multiple of a power of ten is not too far below the float. -/
theorem admitsAbove_low_iff (some : 0 < mantissa) :
    ((interval mantissa exponent).low.scaleDown power).admitsAbove
        (interval mantissa exponent).closed number = true ↔
      (mantissa - reachBelow mantissa exponent) * 2 ^ exponent ≤ number * 10 ^ power ∧
        (mantissa % 2 = 1 →
          (mantissa - reachBelow mantissa exponent) * 2 ^ exponent < number * 10 ^ power) := by
  have positive : 0 < (interval mantissa exponent).low.denominator := dyadic_pos _ _
  rw [Ratio.admitsAbove_iff (Ratio.scaleDown_pos positive power), Ratio.toRat_scaleDown,
    toRat_low some, div_le_iff₀ (ten_zpow_pos power), div_lt_iff₀ (ten_zpow_pos power),
    closed_eq_false]

/-- A multiple of a power of ten is not too far above the float. -/
theorem admitsBelow_high_iff :
    ((interval mantissa exponent).high.scaleDown power).admitsBelow
        (interval mantissa exponent).closed number = true ↔
      (number : ℚ) * 10 ^ power ≤ (mantissa + 1 / 2) * 2 ^ exponent ∧
        (mantissa % 2 = 1 → (number : ℚ) * 10 ^ power < (mantissa + 1 / 2) * 2 ^ exponent) := by
  have positive : 0 < (interval mantissa exponent).high.denominator := dyadic_pos _ _
  rw [Ratio.admitsBelow_iff (Ratio.scaleDown_pos positive power), Ratio.toRat_scaleDown,
    toRat_high, le_div_iff₀ (ten_zpow_pos power), lt_div_iff₀ (ten_zpow_pos power),
    closed_eq_false]

end

/-! ## Decimals on a grid -/

/-- The multiple of ten to a power next below the value. -/
def Interval.floor (around : Interval) (power : Int) : Nat :=
  (around.value.scaleDown power).numerator / (around.value.scaleDown power).denominator

theorem of_onGrid? {around : Interval} {power : Int} {number : Nat}
    (found : onGrid? around power = some number) :
    number = around.floor power ∧
        (around.low.scaleDown power).admitsAbove around.closed number = true ∨
      number = around.floor power + 1 ∧
        (around.high.scaleDown power).admitsBelow around.closed number = true := by
  unfold onGrid? at found
  unfold Interval.floor
  grind

theorem of_onGrid?_eq_none {around : Interval} {power : Int}
    (nothing : onGrid? around power = none) :
    (around.low.scaleDown power).admitsAbove around.closed (around.floor power) = false ∧
      (around.high.scaleDown power).admitsBelow around.closed (around.floor power + 1) = false := by
  unfold onGrid? at nothing
  unfold Interval.floor
  grind

section

variable {mantissa : Nat} {exponent power : Int}

/-- The float lies between neighbouring multiples of a power of ten. -/
theorem floor_bounds :
    ((interval mantissa exponent).floor power : ℚ) * 10 ^ power ≤ mantissa * 2 ^ exponent ∧
      (mantissa : ℚ) * 2 ^ exponent <
        ((interval mantissa exponent).floor power + 1 : Nat) * 10 ^ power := by
  have positive : 0 < (interval mantissa exponent).value.denominator := dyadic_pos _ _
  have bounds := Ratio.floor_bounds (Ratio.scaleDown_pos positive power)
  rw [Nat.cast_succ]
  rwa [Ratio.toRat_scaleDown, toRat_value, le_div_iff₀ (ten_zpow_pos power),
    div_lt_iff₀ (ten_zpow_pos power)] at bounds

/-- What is found on a grid rounds to the float. -/
theorem surrounds_of_onGrid? (some : 0 < mantissa) {number : Nat}
    (found : onGrid? (interval mantissa exponent) power = .some number) :
    Surrounds mantissa exponent (number * 10 ^ power) := by
  obtain ⟨least, most⟩ := @floor_bounds mantissa exponent power
  have unit : (0 : ℚ) < 2 ^ exponent := zpow_pos two_pos exponent
  have reach : 0 < reachBelow mantissa exponent * 2 ^ exponent := by
    refine mul_pos ?_ unit
    unfold reachBelow
    split <;> norm_num
  rcases of_onGrid? found with ⟨rfl, fits⟩ | ⟨rfl, fits⟩
  · obtain ⟨above, inside⟩ := (admitsAbove_low_iff some).mp fits
    exact ⟨above, by linarith, fun odd => ⟨inside odd, by linarith⟩⟩
  · obtain ⟨below, inside⟩ := admitsBelow_high_iff.mp fits
    exact ⟨by linarith, below, fun odd => ⟨by linarith, inside odd⟩⟩

/-- The interval is wider than the steps of a grid on which the float has seventeen digits. -/
theorem lt_reach (canonical : Canonical mantissa exponent) :
    (mantissa : ℚ) < 10 ^ 16 * (reachBelow mantissa exponent + 1 / 2) := by
  unfold reachBelow
  split
  next power =>
      rw [power.1]
      norm_num
  next =>
      have short : (mantissa : ℚ) < 2 ^ 53 := by exact_mod_cast canonical.short
      linarith

/-- Such a grid has a decimal in the interval. -/
theorem exists_onGrid? (canonical : Canonical mantissa exponent) (some : 0 < mantissa)
    (fine : (10 : ℚ) ^ 16 * 10 ^ power ≤ mantissa * 2 ^ exponent) :
    ∃ number, onGrid? (interval mantissa exponent) power = .some number := by
  rw [← Option.isSome_iff_exists, ← Option.ne_none_iff_isSome]
  intro nothing
  obtain ⟨notAbove, notBelow⟩ := of_onGrid?_eq_none nothing
  have low : ((interval mantissa exponent).floor power : ℚ) * 10 ^ power ≤
      (mantissa - reachBelow mantissa exponent) * 2 ^ exponent := by
    by_contra more
    rw [not_le] at more
    rw [(admitsAbove_low_iff some).mpr ⟨le_of_lt more, fun _ => more⟩] at notAbove
    cases notAbove
  have high : ((mantissa : ℚ) + 1 / 2) * 2 ^ exponent ≤
      ((interval mantissa exponent).floor power + 1 : Nat) * 10 ^ power := by
    by_contra less
    rw [not_le] at less
    rw [admitsBelow_high_iff.mpr ⟨le_of_lt less, fun _ => less⟩] at notBelow
    cases notBelow
  have step : (reachBelow mantissa exponent + 1 / 2) * 2 ^ exponent ≤ 10 ^ power := by
    push_cast at high
    linarith
  have wide := mul_lt_mul_of_pos_right (lt_reach canonical) (zpow_pos two_pos exponent)
  linarith

end

/-! ## The place of the point -/

/-- A number lies between the powers of ten that its digits tell. -/
theorem length_toDigits_bounds {number : Nat} (positive : 0 < number) :
    Nat.pow 10 ((Nat.toDigits 10 number).length - 1) ≤ number ∧
      number < Nat.pow 10 (Nat.toDigits 10 number).length := by
  constructor
  · rcases Nat.eq_zero_or_pos ((Nat.toDigits 10 number).length - 1) with one | more
    · rw [one]
      exact positive
    · have fewer : ¬ (Nat.toDigits 10 number).length ≤ (Nat.toDigits 10 number).length - 1 := by
        omega
      rw [Nat.length_toDigits_le_iff (by decide) more] at fewer
      exact Nat.not_lt.mp fewer
  · exact (Nat.length_toDigits_le_iff (by decide) Nat.length_toDigits_pos).mp (Nat.le_refl _)

theorem ten_zpow_magnitude_le {ratio : Ratio} (some : 0 < ratio.numerator)
    (positive : 0 < ratio.denominator) : (10 : ℚ) ^ (magnitude ratio - 1) ≤ ratio.toRat := by
  have scale : (0 : ℚ) < ratio.denominator := Nat.cast_pos.mpr positive
  unfold magnitude
  split
  next whole =>
      have digits := (length_toDigits_bounds (Nat.div_pos whole positive)).1
      refine le_trans ?_ (Ratio.floor_bounds positive).1
      have length := @Nat.length_toDigits_pos 10 (ratio.numerator / ratio.denominator)
      rw [← Int.natCast_pred_of_pos length, zpow_natCast]
      exact_mod_cast digits
  next part =>
      have digits := (length_toDigits_bounds (Nat.div_pos (Nat.le_of_not_le part) some)).2
      rw [sub_sub_cancel_left, zpow_neg, zpow_natCast, Ratio.toRat, le_div_iff₀ scale,
        inv_mul_le_iff₀ (by positivity)]
      rw [Nat.div_lt_iff_lt_mul some] at digits
      exact_mod_cast Nat.le_of_lt digits

/-! ## The decimal that is found -/

section

variable {mantissa : Nat} {exponent : Int}

theorem numerator_pos (some : 0 < mantissa) : 0 < (interval mantissa exponent).value.numerator := by
  simp only [interval]
  cases exponent - 2 with
  | ofNat power => exact Nat.mul_pos (Nat.mul_pos (by decide) some) (Nat.pow_pos (by decide))
  | negSucc power => exact Nat.mul_pos (by decide) some

/-- Seventeen digits are enough. -/
theorem exists_onGrid?_limit (canonical : Canonical mantissa exponent) (some : 0 < mantissa) :
    ∃ number, onGrid? (interval mantissa exponent)
      (magnitude (interval mantissa exponent).value - (16 + 1 : Nat)) = .some number := by
  apply exists_onGrid? canonical some
  have least := ten_zpow_magnitude_le (numerator_pos some) (dyadic_pos _ (exponent - 2))
  rw [← toRat_value]
  refine le_trans (le_of_eq ?_) least
  rw [← zpow_natCast, ← zpow_add₀ (by norm_num)]
  congr 1
  omega

/-- The decimal that is found for a float rounds to it. -/
theorem surrounds_ofBinary (canonical : Canonical mantissa exponent) (some : 0 < mantissa) :
    Surrounds mantissa exponent
      ((ofBinary mantissa exponent).number * 10 ^ (ofBinary mantissa exponent).power) := by
  unfold ofBinary
  cases found : (List.range digitLimit).findSome? fun count =>
      (onGrid? (interval mantissa exponent)
        (magnitude (interval mantissa exponent).value - (count + 1 : Nat))).map fun number =>
          Decimal.mk number (magnitude (interval mantissa exponent).value - (count + 1 : Nat)) with
  | none =>
      obtain ⟨number, last⟩ := @exists_onGrid?_limit mantissa exponent canonical some
      have nothing := List.findSome?_eq_none_iff.mp found 16 (by decide)
      rw [last] at nothing
      cases nothing
  | some decimal =>
      obtain ⟨count, _, given⟩ := List.exists_of_findSome?_eq_some found
      obtain ⟨number, hit, rfl⟩ := Option.map_eq_some_iff.mp given
      simp only [found]
      exact surrounds_of_onGrid? some hit

end

end ConsLisp.Number.Shortest
