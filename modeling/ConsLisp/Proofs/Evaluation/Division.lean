import Mathlib.Data.Rat.Floor
import ConsLisp.Proofs.Evaluation.Binding

/-!
# Division of integers

The quotient of two integers is taken of their magnitudes and then given its sign, and the remainder
is what it leaves of the dividend.  Together they are the division that truncates toward zero, for
numbers of any size.  A call of either builtin gives one of them, unless the divisor is zero.
-/

namespace ConsLisp

namespace Number

/-! ## Truncation -/

/-- A rational number without its fractional part. -/
def truncated (ratio : ℚ) : Int :=
  if 0 ≤ ratio then ⌊ratio⌋ else ⌈ratio⌉

theorem truncated_neg (ratio : ℚ) : truncated (-ratio) = -truncated ratio := by
  unfold truncated
  rcases lt_trichotomy ratio 0 with below | rfl | above
  · rw [if_pos (neg_nonneg.mpr below.le), if_neg (not_le.mpr below), Int.floor_neg]
  · simp
  · rw [if_neg (not_le.mpr (neg_neg_of_pos above)), if_pos above.le, Int.ceil_neg]

theorem truncated_natCast_div (dividend divisor : Nat) :
    truncated ((dividend : ℚ) / divisor) = Int.ofNat (dividend / divisor) := by
  have positive : 0 ≤ (dividend : ℚ) / divisor :=
    div_nonneg dividend.cast_nonneg divisor.cast_nonneg
  rw [truncated, if_pos positive, Rat.floor_natCast_div_natCast]
  rfl

theorem truncatedQuotient_eq_tdiv (dividend divisor : Int) :
    truncatedQuotient dividend divisor = dividend.tdiv divisor := by
  unfold truncatedQuotient
  -- Zero goes with the positive numbers; over a negative divisor it is negated, and still zero.
  cases dividend with
  | ofNat dividend =>
      cases divisor with
      | ofNat divisor =>
          rw [if_pos (by simp)]
          rfl
      | negSucc divisor =>
          rw [if_neg (by simp)]
          rfl
  | negSucc dividend =>
      cases divisor with
      | ofNat divisor =>
          rw [if_neg (by simp)]
          rfl
      | negSucc divisor =>
          rw [if_pos (by simp)]
          rfl

theorem truncatedRemainder_eq_tmod (dividend divisor : Int) :
    truncatedRemainder dividend divisor = dividend.tmod divisor := by
  rw [truncatedRemainder, truncatedQuotient_eq_tdiv, Int.tmod_def]

/-- The quotient is that of the rational numbers without its fractional part. -/
theorem truncatedQuotient_eq_truncated (dividend divisor : Int) :
    truncatedQuotient dividend divisor = truncated (dividend / divisor) := by
  have magnitudes (m n : Nat) : Int.tdiv m n = truncated ((m : Int) / (n : Int)) := by
    rw [Int.cast_natCast, Int.cast_natCast, truncated_natCast_div]
    rfl
  rw [truncatedQuotient_eq_tdiv]
  obtain ⟨m, rfl | rfl⟩ := dividend.eq_nat_or_neg
  · obtain ⟨n, rfl | rfl⟩ := divisor.eq_nat_or_neg
    · exact magnitudes m n
    · rw [Int.tdiv_neg, Int.cast_neg, div_neg, truncated_neg, magnitudes]
  · obtain ⟨n, rfl | rfl⟩ := divisor.eq_nat_or_neg
    · rw [Int.neg_tdiv, Int.cast_neg, neg_div, truncated_neg, magnitudes]
    · rw [Int.neg_tdiv, Int.tdiv_neg, neg_neg, Int.cast_neg, Int.cast_neg, neg_div_neg_eq,
        magnitudes]

theorem mul_truncatedQuotient_add (dividend divisor : Int) :
    divisor * truncatedQuotient dividend divisor + truncatedRemainder dividend divisor =
      dividend := by
  rw [truncatedRemainder]
  exact add_sub_cancel _ _

theorem abs_truncatedRemainder_lt (dividend : Int) {divisor : Int} (nonzero : divisor ≠ 0) :
    |truncatedRemainder dividend divisor| < |divisor| := by
  have magnitudes := Nat.mod_lt dividend.natAbs (Int.natAbs_pos.mpr nonzero)
  rw [truncatedRemainder_eq_tmod, Int.abs_eq_natAbs, Int.abs_eq_natAbs, Int.natAbs_tmod]
  exact Int.ofNat_lt.mpr magnitudes

theorem truncatedRemainder_sign (dividend divisor : Int) :
    truncatedRemainder dividend divisor = 0 ∨
      (truncatedRemainder dividend divisor).sign = dividend.sign := by
  rw [truncatedRemainder_eq_tmod]
  by_cases divides : divisor ∣ dividend
  · exact .inl (Int.tmod_eq_zero_of_dvd divides)
  · right
    rw [Int.sign_tmod, if_neg divides]

end Number

/-! ## Calls of two operands -/

namespace Engine

variable {limit budget : Nat} {machine middle last : Machine}

theorem evaluate_symbol {name : String} {value : Value}
    (known : machine.environment.lookup? name = some value) :
    (withBudget limit (budget + 1)).evaluate (.symbol name) machine = (.ok value, machine) := by
  show (withBudget limit budget).evaluateForm (.symbol name) machine = _
  rw [evaluateForm, Eval.bind_run]
  simp only [Eval.lookup?, known]
  rfl

/-- A normal parameter is bound to the value of its form. -/
theorem bind_normal {frame result : Frame} {name : String} {parameters : List Parameter}
    {form value : Value} {forms : List Value} {engine : Engine}
    (evaluated : engine.evaluate form machine = (.ok value, middle))
    (later : engine.bind (frame.insert name value) parameters forms middle = (.ok result, last)) :
    engine.bind frame (⟨.normal, name, .nil⟩ :: parameters) (form :: forms) machine =
      (.ok result, last) := by
  have single : (⟨.normal, name, .nil⟩ : Parameter).mode ≠ .rest := by simp
  have received : engine.receive (⟨.normal, name, .nil⟩, form) = engine.evaluate form := if_pos rfl
  rw [bind_cons engine frame single, received, Eval.bind_run, evaluated]
  exact later

/-- A builtin of two operands is called by its name.  The operands are evaluated in order, and the
builtin runs in a frame with their values. -/
theorem evaluate_binary (operation : Builtin)
    (binary : operation.signature = [(.normal, "X"), (.normal, "Y")])
    {left right first second : Value}
    (known : machine.environment.lookup? operation.name = some operation.value)
    (evaluated : (withBudget limit budget).evaluate left machine = (.ok first, middle))
    (evaluatedToo : (withBudget limit budget).evaluate right middle = (.ok second, last)) :
    (withBudget limit (budget + 2)).evaluate
        (.list [.symbol operation.name, left, right] .nil) machine =
      Eval.inFrame ⟨[("X", first), ("Y", second)]⟩
        (operation.run limit (withBudget limit budget)) last := by
  have parameters : (Callable.builtin operation).parameters =
      [⟨.normal, "X", .nil⟩, ⟨.normal, "Y", .nil⟩] := by
    rw [Callable.parameters, Builtin.parameters, binary]
    rfl
  have bound : (withBudget limit budget).bind .empty
      [⟨.normal, "X", .nil⟩, ⟨.normal, "Y", .nil⟩] [left, right] machine =
        (.ok ⟨[("X", first), ("Y", second)]⟩, last) :=
    bind_normal evaluated (bind_normal evaluatedToo rfl)
  have called : (withBudget limit (budget + 1)).apply (.builtin operation)
      (.list [left, right] .nil) machine =
        Eval.inFrame ⟨[("X", first), ("Y", second)]⟩
          (operation.run limit (withBudget limit budget)) last := by
    have given : argumentForms limit (.builtin operation) (.list [left, right] .nil) =
        .ok [left, right] := rfl
    have applied := applyCallable_run limit (withBudget limit budget) _ given machine
    rw [parameters] at applied
    refine applied.trans (Eq.trans (Eval.bind_run _ _ machine) ?_)
    rw [bound]
    rfl
  have named := @evaluate_symbol limit budget machine _ _ known
  have listed : (withBudget limit (budget + 2)).evaluate
      (.list [.symbol operation.name, left, right] .nil) machine =
        (withBudget limit (budget + 1)).evaluateList [.symbol operation.name, left, right] .nil
          machine := rfl
  rw [listed, evaluateList]
  refine Eq.trans (Eval.bind_run _ _ machine) ?_
  rw [named]
  exact called

end Engine

/-! ## Quotients -/

namespace Builtin

variable {operation : Number → Number → Except NumericError Number} {limit : Nat} {x y : Int}

/-- In a frame with two integers, what comes out depends on nothing but these. -/
theorem calculateQuotient_run (machine : Machine) :
    Eval.inFrame ⟨[("X", .integer x), ("Y", .integer y)]⟩ (calculateQuotient limit operation)
        machine =
      (divided operation (.integer x) (.integer y), machine) :=
  rfl

theorem divided_of_ne_zero (nonzero : y ≠ 0) :
    divided operation (.integer x) (.integer y) =
      computed (operation (.integer x) (.integer y)) := by
  rw [divided, if_neg]
  simpa [Number.isZero] using nonzero

/-- Division by zero is reported with the dividend. -/
theorem divided_zero {text : String} (shown : Number.integerText? x = some text) :
    divided operation (.integer x) (.integer 0) =
      .error (.evaluation (.divisionByZero text)) := by
  have zero : (Number.integer 0).isZero = true := rfl
  rw [divided, if_pos zero, Number.text, shown]
  rfl

theorem divided_zero_of_long (long : Number.integerText? x = none) :
    divided operation (.integer x) (.integer 0) = .error (.numeric .tooManyDigits) := by
  have zero : (Number.integer 0).isZero = true := rfl
  rw [divided, if_pos zero, Number.text, long]
  rfl

theorem divided_eq_divisionByZero_iff {text : String} (shown : Number.integerText? x = some text)
    {integers : Int → Int → Int}
    (closed : ∀ x y, operation (.integer x) (.integer y) = .ok (.integer (integers x y))) :
    divided operation (.integer x) (.integer y) = .error (.evaluation (.divisionByZero text)) ↔
      y = 0 := by
  constructor
  · intro failed
    by_contra nonzero
    rw [divided_of_ne_zero nonzero, closed] at failed
    cases failed
  · rintro rfl
    exact divided_zero shown

end Builtin

/-- Division and remainder of integers fit together.  Let two forms be evaluated to integers of any
size, one after the other.  A call of `/` with them, and likewise one of `MOD`, fails with a
division by zero exactly if the second one is zero, as long as the first one can be shown in the
message; if it is too long for that, this is the error.  With any other divisor both calls give
integers: the dividend is the divisor times the quotient, plus the remainder, which is smaller than
the divisor and zero or of the sign of the dividend, and the quotient is the rational one truncated
toward zero. -/
theorem integer_division_fits_remainder {limit budget : Nat} {machine middle last : Machine}
    {left right : Value} {x y : Int}
    (divides : machine.environment.lookup? "/" = some Builtin.divide.value)
    (leaves : machine.environment.lookup? "MOD" = some Builtin.modulo.value)
    (evaluated : (Engine.withBudget limit budget).evaluate left machine =
      (.ok (.integer x), middle))
    (evaluatedToo : (Engine.withBudget limit budget).evaluate right middle =
      (.ok (.integer y), last)) :
    let engine := Engine.withBudget limit (budget + 2)
    let quotient := engine.evaluate (.list [.symbol "/", left, right] .nil) machine
    let remainder := engine.evaluate (.list [.symbol "MOD", left, right] .nil) machine
    (∀ text, Number.integerText? x = some text →
      (quotient = (.error (.evaluation (.divisionByZero text)), last) ↔ y = 0) ∧
      (remainder = (.error (.evaluation (.divisionByZero text)), last) ↔ y = 0)) ∧
    (Number.integerText? x = none → y = 0 →
      quotient = (.error (.numeric .tooManyDigits), last) ∧
      remainder = (.error (.numeric .tooManyDigits), last)) ∧
    (y ≠ 0 → ∃ q r : Int,
      quotient = (.ok (.integer q), last) ∧ remainder = (.ok (.integer r), last) ∧
      x = y * q + r ∧ |r| < |y| ∧ (r = 0 ∨ r.sign = x.sign) ∧
      q = Number.truncated ((x : ℚ) / y)) := by
  intro engine quotient remainder
  have divided : quotient =
      (Builtin.divided Number.divide (.integer x) (.integer y), last) :=
    (Engine.evaluate_binary .divide rfl divides evaluated evaluatedToo).trans
      (Builtin.calculateQuotient_run last)
  have remained : remainder =
      (Builtin.divided Number.remainder (.integer x) (.integer y), last) :=
    (Engine.evaluate_binary .modulo rfl leaves evaluated evaluatedToo).trans
      (Builtin.calculateQuotient_run last)
  rw [divided, remained]
  refine ⟨fun text shown => ?_, ?_, fun nonzero => ?_⟩
  · have result (first second : Except Error Value) :
        (first, last) = (second, last) ↔ first = second := by simp
    exact ⟨(result _ _).trans (Builtin.divided_eq_divisionByZero_iff shown fun _ _ => rfl),
      (result _ _).trans (Builtin.divided_eq_divisionByZero_iff shown fun _ _ => rfl)⟩
  · rintro long rfl
    rw [Builtin.divided_zero_of_long long, Builtin.divided_zero_of_long long]
    exact ⟨rfl, rfl⟩
  · refine ⟨Number.truncatedQuotient x y, Number.truncatedRemainder x y, ?_, ?_,
      (Number.mul_truncatedQuotient_add x y).symm, Number.abs_truncatedRemainder_lt x nonzero,
      Number.truncatedRemainder_sign x y, Number.truncatedQuotient_eq_truncated x y⟩
    · rw [Builtin.divided_of_ne_zero nonzero]
      rfl
    · rw [Builtin.divided_of_ne_zero nonzero]
      rfl

/-- A dividend beyond 64 bits, which only a computation gives, and a negative divisor. -/
theorem integer_division_fits_remainder_product :
    let machine : Machine := ⟨.initial, ""⟩
    let left : Value :=
      .list [.symbol "*", .integer 9223372036854775807, .integer 9223372036854775807] .nil
    let x : Int := 9223372036854775807 * 9223372036854775807
    (Engine.withBudget 9 7).evaluate left machine = (.ok (.integer x), machine) ∧
      ∃ q r : Int,
        evaluate 9 (.list [.symbol "/", left, .integer (-10)] .nil) machine =
          (.ok (.integer q), machine) ∧
        evaluate 9 (.list [.symbol "MOD", left, .integer (-10)] .nil) machine =
          (.ok (.integer r), machine) ∧
        x = -10 * q + r ∧ |r| < |-10| ∧ (r = 0 ∨ r.sign = x.sign) ∧
        q = Number.truncated ((x : ℚ) / (-10 : Int)) := by
  intro machine left x
  have evaluated : (Engine.withBudget 9 7).evaluate left machine =
      (.ok (.integer x), machine) := rfl
  have evaluatedToo : (Engine.withBudget 9 7).evaluate (.integer (-10)) machine =
      (.ok (.integer (-10)), machine) := rfl
  obtain ⟨-, -, fits⟩ := integer_division_fits_remainder rfl rfl evaluated evaluatedToo
  exact ⟨evaluated, fits (by decide)⟩

end ConsLisp
