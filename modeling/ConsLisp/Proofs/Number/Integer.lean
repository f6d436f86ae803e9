import ConsLisp.Proofs.Number.Literal

/-!
# Whole numbers written and read

Numbers that fit into a 64-bit word are written in full and read back as themselves.
-/

namespace ConsLisp.Number

theorem lt_unwritable {number : Nat} (short : number < Nat.pow 10 19) :
    number < unwritable := by
  have few : 19 ≤ digitLimit := by decide
  unfold unwritable
  -- With the limit in view the power would be computed.
  generalize digitLimit = limit at few ⊢
  exact Nat.lt_of_lt_of_le short (Nat.pow_le_pow_right (by decide) few)

theorem digitsValue_toDigits (number : Nat) : digitsValue (Nat.toDigits 10 number) = number := by
  calc
    digitsValue (Nat.toDigits 10 number) = Nat.ofDigitChars 10 (Nat.toDigits 10 number) 0 := by
      simp only [digitsValue, Nat.ofDigitChars_eq_foldl, Nat.mul_comm]
    _ = number := Nat.ofDigitChars_ten_toDigits

theorem isDigit_of_mem_toDigits {number : Nat} {char : Char}
    (member : char ∈ Nat.toDigits 10 number) : isDigit char = true :=
  Nat.isDigit_of_mem_toDigits (by decide) (by decide) member

/-- The digits of a number, after a sign if it is negative. -/
theorem toList_toString (number : Int) :
    (toString number).toList =
      (if number < 0 then ['-'] else []) ++ Nat.toDigits 10 number.natAbs := by
  cases number with
  | ofNat magnitude =>
      have digits : toString (Int.ofNat magnitude) = magnitude.repr := rfl
      rw [digits, Nat.toList_repr, if_neg (by simp)]
      rfl
  | negSucc less =>
      have digits : toString (Int.negSucc less) = "-" ++ (less + 1).repr := rfl
      rw [digits, String.toList_append, Nat.toList_repr, if_pos (Int.negSucc_lt_zero less)]
      rfl

namespace Literal

theorem isUnsigned_toDigits (number : Nat) : isUnsigned (Nat.toDigits 10 number) = true :=
  isUnsigned_iff.mpr ⟨Nat.toDigits_ne_nil, fun _ => isDigit_of_mem_toDigits⟩

theorem natAbs_lt_of_inRange {number : Int} (fits : inRange number = true) :
    number.natAbs < Nat.pow 10 19 := by
  simp only [inRange, Nat.pow_eq, Bool.and_eq_true, decide_eq_true_eq] at fits ⊢
  omega

theorem inRange_of_integer? {literal : List Char} {number : Int}
    (found : integer? literal = some number) : inRange number = true := by
  obtain ⟨_, _, -, -, -, -, fits⟩ := integer?_eq_some_iff.mp found
  exact fits

/-- A number in the range of literals is read back from its text. -/
theorem integer?_toString {number : Int} (fits : inRange number = true) :
    integer? (toString number).toList = some number := by
  have short : (Nat.toDigits 10 number.natAbs).length ≤ digitLimit := by
    have few := (Nat.length_toDigits_le_iff (b := 10) (by decide) (by decide)).mpr
      (natAbs_lt_of_inRange fits)
    exact Nat.le_trans few (by decide)
  have written : (toString number).toList =
      minus (decide (number < 0)) ++ Nat.toDigits 10 number.natAbs := by
    rw [toList_toString, minus]
    simp only [decide_eq_true_eq]
  have value : number = if decide (number < 0) = true then
      -(digitsValue (Nat.toDigits 10 number.natAbs) : Int)
      else digitsValue (Nat.toDigits 10 number.natAbs) := by
    simp only [decide_eq_true_eq, digitsValue_toDigits]
    split <;> omega
  exact integer?_eq_some_iff.mpr
    ⟨_, _, written, isUnsigned_toDigits number.natAbs, short, value, fits⟩

end Literal

end ConsLisp.Number
