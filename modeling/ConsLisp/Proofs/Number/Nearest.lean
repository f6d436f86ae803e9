import ConsLisp.Proofs.Number.Bits

/-!
# The float nearest to a ratio

The ratios that round to a float reach from half way to the float below it to half way to the float
above it, with both ends if its mantissa is even.  Each of them has that float as its nearest one.
-/

namespace ConsLisp.Number.Binary

/-! ## Rounding to whole numbers -/

/-- A whole number at most half away from a quotient, and less than that if it is odd. -/
theorem roundQuotient_eq {numerator denominator mantissa : Nat} (positive : 0 < denominator)
    (above : 2 * (mantissa * denominator) ≤ 2 * numerator + denominator)
    (below : 2 * numerator ≤ 2 * (mantissa * denominator) + denominator)
    (inside : mantissa % 2 = 1 → 2 * (mantissa * denominator) < 2 * numerator + denominator ∧
      2 * numerator < 2 * (mantissa * denominator) + denominator) :
    roundQuotient numerator denominator = mantissa := by
  have parts := Nat.div_add_mod' numerator denominator
  have small := Nat.mod_lt numerator positive
  unfold roundQuotient
  generalize numerator / denominator = quotient at *
  generalize numerator % denominator = rest at *
  have least : quotient ≤ mantissa := by
    by_contra less
    have more := Nat.mul_le_mul_right denominator (Nat.not_le.mp less)
    rw [Nat.succ_mul] at more
    omega
  have most : mantissa ≤ quotient + 1 := by
    by_contra more
    have less := Nat.mul_le_mul_right denominator (Nat.not_le.mp more)
    rw [Nat.succ_mul, Nat.succ_mul] at less
    omega
  obtain rfl | rfl : mantissa = quotient ∨ mantissa = quotient + 1 := by omega
  · refine if_neg ?_
    simp only [Bool.or_eq_true, Bool.and_eq_true, decide_eq_true_eq]
    omega
  · refine if_pos ?_
    have next : (quotient + 1) * denominator = quotient * denominator + denominator :=
      Nat.succ_mul quotient denominator
    simp only [Bool.or_eq_true, Bool.and_eq_true, decide_eq_true_eq]
    omega

/-- The same with the quotient as a ratio. -/
theorem roundQuotient_of_near {numerator denominator mantissa : Nat} (positive : 0 < denominator)
    (above : (mantissa : ℚ) - 1 / 2 ≤ numerator / denominator)
    (below : (numerator : ℚ) / denominator ≤ mantissa + 1 / 2)
    (inside : mantissa % 2 = 1 → (mantissa : ℚ) - 1 / 2 < numerator / denominator ∧
      (numerator : ℚ) / denominator < mantissa + 1 / 2) :
    roundQuotient numerator denominator = mantissa := by
  have scale : (0 : ℚ) < denominator := Nat.cast_pos.mpr positive
  rw [le_div_iff₀ scale] at above
  rw [div_le_iff₀ scale] at below
  rw [lt_div_iff₀ scale, div_lt_iff₀ scale] at inside
  apply roundQuotient_eq positive
  · qify
    linarith
  · qify
    linarith
  · intro odd
    obtain ⟨more, less⟩ := inside odd
    qify
    constructor <;> linarith

/-! ## Scaling -/

theorem scaleDown_eq (numerator denominator : Nat) (exponent : Int) :
    ((scaleDown numerator denominator exponent).1 : ℚ) /
      (scaleDown numerator denominator exponent).2 = numerator / denominator / 2 ^ exponent := by
  cases exponent with
  | ofNat power => simp [scaleDown, div_div]
  | negSucc power => simp [scaleDown, zpow_negSucc, mul_div_right_comm]

theorem scaleDown_pos {numerator denominator : Nat} (positive : 0 < denominator)
    (exponent : Int) : 0 < (scaleDown numerator denominator exponent).2 := by
  cases exponent with
  | ofNat power => exact Nat.mul_pos positive (Nat.pow_pos (by decide))
  | negSucc power => exact positive

/-! ## The exponent of a ratio -/

/-- The exponent at which a ratio has a mantissa of 53 bits before the point, or of fewer if that
exponent is the least one. -/
structure IsExponent (ratio : ℚ) (exponent : Int) : Prop where
  least : leastExponent ≤ exponent
  short : ratio < 2 ^ 53 * 2 ^ exponent
  full : 2 ^ 52 * 2 ^ exponent ≤ ratio ∨ exponent = leastExponent

theorem two_zpow_succ (exponent : Int) : (2 : ℚ) ^ (exponent + 1) = 2 * 2 ^ exponent := by
  rw [zpow_add_one₀ two_ne_zero, mul_comm]

theorem IsExponent.unique {ratio : ℚ} {exponent other : Int} (own : IsExponent ratio exponent)
    (others : IsExponent ratio other) : exponent = other := by
  have least {low high : Int} (first : IsExponent ratio low) (second : IsExponent ratio high) :
      high ≤ low := by
    by_contra more
    have step : (2 : ℚ) ^ (low + 1) ≤ 2 ^ high := zpow_le_zpow_right₀ one_le_two (by omega)
    rw [two_zpow_succ] at step
    rcases second.full with full | same
    · linarith [first.short]
    · have bound := first.least
      omega
  exact Int.le_antisymm (least others own) (least own others)

theorem log2_bounds {number : Nat} (positive : 0 < number) :
    (2 : ℚ) ^ (number.log2 : Int) ≤ number ∧ (number : ℚ) < 2 ^ ((number.log2 : Int) + 1) := by
  constructor
  · rw [zpow_natCast]
    exact_mod_cast Nat.log2_self_le (Nat.ne_of_gt positive)
  · rw [← Nat.cast_succ, zpow_natCast]
    exact_mod_cast Nat.lt_log2_self

/-- A ratio of whole numbers lies between powers of two that are two apart. -/
theorem ratio_bounds {numerator denominator : Nat} (some : 0 < numerator)
    (positive : 0 < denominator) {guess : Int}
    (guessed : guess = numerator.log2 - denominator.log2 - 53) :
    (2 : ℚ) ^ 52 * 2 ^ guess < numerator / denominator ∧
      (numerator : ℚ) / denominator < 2 ^ 53 * 2 ^ (guess + 1) := by
  obtain ⟨above, below⟩ := log2_bounds some
  obtain ⟨least, most⟩ := log2_bounds positive
  have scale : (0 : ℚ) < denominator := Nat.cast_pos.mpr positive
  have power (count : Nat) (exponent : Int) :
      (2 : ℚ) ^ count * 2 ^ exponent = 2 ^ (count + exponent) := by
    rw [zpow_add₀ two_ne_zero, zpow_natCast]
  rw [power, power, lt_div_iff₀ scale, div_lt_iff₀ scale]
  constructor
  · calc
      (2 : ℚ) ^ ((52 : Nat) + guess) * denominator
          < 2 ^ ((52 : Nat) + guess) * 2 ^ ((denominator.log2 : Int) + 1) :=
        mul_lt_mul_of_pos_left most (zpow_pos two_pos _)
      _ = 2 ^ (numerator.log2 : Int) := by
        rw [← zpow_add₀ two_ne_zero]
        congr 1
        omega
      _ ≤ numerator := above
  · calc
      (numerator : ℚ) < 2 ^ ((numerator.log2 : Int) + 1) := below
      _ = 2 ^ ((53 : Nat) + (guess + 1)) * 2 ^ (denominator.log2 : Int) := by
        rw [← zpow_add₀ two_ne_zero]
        congr 1
        omega
      _ ≤ 2 ^ ((53 : Nat) + (guess + 1)) * denominator :=
        mul_le_mul_of_nonneg_left least (zpow_nonneg zero_le_two _)

/-- The exponent that is guessed from such powers is right or one too low. -/
theorem isExponent_of_bounds {ratio : ℚ} {guess : Int} (above : 2 ^ 52 * 2 ^ guess < ratio)
    (below : ratio < 2 ^ 53 * 2 ^ (guess + 1)) :
    IsExponent ratio (if ratio < 2 ^ 53 * 2 ^ max guess leastExponent then max guess leastExponent
      else max guess leastExponent + 1) := by
  rcases Int.lt_or_le guess leastExponent with less | enough
  · have step : (2 : ℚ) ^ (guess + 1) ≤ 2 ^ leastExponent := zpow_le_zpow_right₀ one_le_two less
    have short : ratio < 2 ^ 53 * 2 ^ leastExponent := by linarith
    rw [Int.max_eq_right (Int.le_of_lt less), if_pos short]
    exact ⟨Int.le_refl _, short, .inr rfl⟩
  · rw [Int.max_eq_left enough]
    split
    next short => exact ⟨enough, short, .inl (le_of_lt above)⟩
    next long =>
        refine ⟨Int.le_add_one enough, below, .inl ?_⟩
        rw [two_zpow_succ]
        linarith

/-- A whole quotient shows whether an exponent is large enough. -/
theorem scaleDown_lt_iff {numerator denominator : Nat} (positive : 0 < denominator)
    (exponent : Int) :
    (scaleDown numerator denominator exponent).1 / (scaleDown numerator denominator exponent).2 <
        Nat.pow 2 53 ↔
      (numerator : ℚ) / denominator < 2 ^ 53 * 2 ^ exponent := by
  have scaled := @scaleDown_pos numerator denominator positive exponent
  have scale : (0 : ℚ) < (scaleDown numerator denominator exponent).2 := Nat.cast_pos.mpr scaled
  rw [Nat.div_lt_iff_lt_mul scaled, ← div_lt_iff₀ (zpow_pos two_pos exponent), ← scaleDown_eq,
    div_lt_iff₀ scale]
  norm_cast

/-- Rounding finds the exponent of the ratio. -/
theorem nearest_eq (negative : Bool) {numerator denominator : Nat} (some : 0 < numerator)
    (positive : 0 < denominator) :
    ∃ exponent, IsExponent (numerator / denominator) exponent ∧
      nearest negative numerator denominator =
        pack negative (roundQuotient (scaleDown numerator denominator exponent).1
          (scaleDown numerator denominator exponent).2) exponent := by
  obtain ⟨above, below⟩ := ratio_bounds some positive rfl
  rw [nearest, if_neg (Nat.ne_of_gt some)]
  simp only [scaleDown_lt_iff positive]
  exact ⟨_, isExponent_of_bounds above below, rfl⟩

/-! ## The ratios that round to a float -/

/-- The distance to the lower end.  The lower neighbour of a power of two is only half as far away,
unless the float has the least exponent. -/
def reachBelow (mantissa : Nat) (exponent : Int) : ℚ :=
  if mantissa = Nat.pow 2 52 ∧ leastExponent < exponent then 1 / 4 else 1 / 2

/-- The ratio lies between the ends of the interval around a float, and not on them if the mantissa
is odd. -/
structure Surrounds (mantissa : Nat) (exponent : Int) (ratio : ℚ) : Prop where
  above : (mantissa - reachBelow mantissa exponent) * 2 ^ exponent ≤ ratio
  below : ratio ≤ (mantissa + 1 / 2) * 2 ^ exponent
  inside : mantissa % 2 = 1 → (mantissa - reachBelow mantissa exponent) * 2 ^ exponent < ratio ∧
    ratio < (mantissa + 1 / 2) * 2 ^ exponent

theorem reachBelow_le (mantissa : Nat) (exponent : Int) : reachBelow mantissa exponent ≤ 1 / 2 := by
  unfold reachBelow
  split <;> norm_num

section

variable {mantissa numerator denominator : Nat} {exponent : Int}

theorem Surrounds.pos {ratio : ℚ} (surrounds : Surrounds mantissa exponent ratio)
    (some : 0 < mantissa) : 0 < ratio := by
  have one : (1 : ℚ) ≤ mantissa := by exact_mod_cast some
  have reach := reachBelow_le mantissa exponent
  have low := mul_pos (by linarith : (0 : ℚ) < mantissa - reachBelow mantissa exponent)
    (zpow_pos two_pos exponent)
  exact lt_of_lt_of_le low surrounds.above

/-- A ratio with the exponent of the float is rounded to its mantissa. -/
theorem roundQuotient_of_surrounds (positive : 0 < denominator)
    (surrounds : Surrounds mantissa exponent (numerator / denominator)) :
    roundQuotient (scaleDown numerator denominator exponent).1
      (scaleDown numerator denominator exponent).2 = mantissa := by
  obtain ⟨above, below, inside⟩ := surrounds
  have reach := reachBelow_le mantissa exponent
  have scale : (0 : ℚ) < 2 ^ exponent := zpow_pos two_pos exponent
  rw [← le_div_iff₀ scale] at above
  rw [← div_le_iff₀ scale] at below
  rw [← lt_div_iff₀ scale, ← div_lt_iff₀ scale] at inside
  apply roundQuotient_of_near (scaleDown_pos positive exponent) <;> rw [scaleDown_eq]
  · linarith
  · exact below
  · intro odd
    obtain ⟨more, less⟩ := inside odd
    exact ⟨by linarith, less⟩

theorem two_zpow_pred (exponent : Int) : (2 : ℚ) ^ exponent = 2 * 2 ^ (exponent - 1) := by
  rw [← two_zpow_succ, Int.sub_add_cancel]

/-- Only a power of two has ratios of a lower exponent that round to it. -/
theorem Surrounds.of_lt (canonical : Canonical mantissa exponent) {ratio : ℚ}
    (surrounds : Surrounds mantissa exponent ratio) (less : ratio < 2 ^ 52 * 2 ^ exponent)
    (higher : leastExponent < exponent) :
    mantissa = Nat.pow 2 52 ∧ (2 ^ 53 - 1 / 2) * 2 ^ (exponent - 1) ≤ ratio := by
  have above := surrounds.above
  have full : Nat.pow 2 52 ≤ mantissa :=
    canonical.full.resolve_right (Int.ne_of_gt higher)
  have power : mantissa = Nat.pow 2 52 := by
    by_contra more
    have next : (2 : ℚ) ^ 52 + 1 ≤ mantissa := by
      exact_mod_cast Nat.lt_of_le_of_ne full (Ne.symm more)
    have close : ((mantissa : ℚ) - reachBelow mantissa exponent) * 2 ^ exponent <
        2 ^ 52 * 2 ^ exponent := lt_of_le_of_lt above less
    rw [mul_lt_mul_iff_left₀ (zpow_pos two_pos exponent)] at close
    have reach := reachBelow_le mantissa exponent
    linarith
  refine ⟨power, ?_⟩
  have reach : reachBelow mantissa exponent = 1 / 4 := if_pos ⟨power, higher⟩
  rw [reach, power, two_zpow_pred] at above
  norm_num at above ⊢
  linarith

/-- The mantissa that is one too long is that of the next exponent. -/
theorem pack_carry (negative : Bool) (higher : leastExponent < exponent) :
    pack negative (Nat.pow 2 53) (exponent - 1) = pack negative (Nat.pow 2 52) exponent := by
  have carried : (exponent - 1 - leastExponent).toNat * Nat.pow 2 52 + Nat.pow 2 53 =
      (exponent - leastExponent).toNat * Nat.pow 2 52 + Nat.pow 2 52 := by
    simp only [Nat.pow_eq]
    omega
  simp only [pack, carried]

/-- Every ratio that rounds to a float has it as its nearest one. -/
theorem nearest_of_surrounds (canonical : Canonical mantissa exponent) (some : 0 < numerator)
    (positive : 0 < denominator)
    (surrounds : Surrounds mantissa exponent (numerator / denominator)) (negative : Bool) :
    nearest negative numerator denominator = pack negative mantissa exponent := by
  obtain ⟨found, isExponent, same⟩ := nearest_eq negative some positive
  have scale : (0 : ℚ) < 2 ^ (exponent - 1) := zpow_pos two_pos _
  have short : (numerator : ℚ) / denominator < 2 ^ 53 * 2 ^ exponent := by
    have next : (mantissa : ℚ) + 1 ≤ 2 ^ 53 := by exact_mod_cast canonical.short
    refine lt_of_le_of_lt surrounds.below ?_
    rw [mul_lt_mul_iff_left₀ (zpow_pos two_pos exponent)]
    linarith
  by_cases full : 2 ^ 52 * 2 ^ exponent ≤ (numerator : ℚ) / denominator ∨ exponent = leastExponent
  · rw [same, isExponent.unique ⟨canonical.least, short, full⟩,
      roundQuotient_of_surrounds positive surrounds]
  · -- The ratio is so close below a power of two that it is rounded up to it.
    rw [not_or, not_le] at full
    have higher : leastExponent < exponent := lt_of_le_of_ne canonical.least (Ne.symm full.2)
    obtain ⟨rfl, above⟩ := surrounds.of_lt canonical full.1 higher
    have less := full.1
    rw [two_zpow_pred] at less
    have lower : IsExponent (numerator / denominator) (exponent - 1) :=
      ⟨by omega, by linarith, .inl (by linarith)⟩
    have upper : Surrounds (Nat.pow 2 53) (exponent - 1) (numerator / denominator) := by
      have reach : reachBelow (Nat.pow 2 53) (exponent - 1) = 1 / 2 := if_neg (by simp)
      refine ⟨?_, ?_, fun odd => by cases odd⟩
      · rw [reach]
        norm_num at above ⊢
        linarith
      · norm_num
        linarith
    rw [same, isExponent.unique lower, roundQuotient_of_surrounds positive upper,
      pack_carry negative higher]

end

end ConsLisp.Number.Binary
