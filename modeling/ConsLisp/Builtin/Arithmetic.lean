import ConsLisp.Evaluation.Machine
import ConsLisp.Number.Arithmetic
import ConsLisp.Value.Kind

/-!
# Numeric builtins

Arithmetic and numeric comparison of `X` and `Y`.
-/

namespace ConsLisp.Builtin

def expectNumber (limit : Nat) (value : Value) : Except Error Number :=
  value.expectAs limit Value.number? "a number"

/-- The two operands; the first is checked before the second is looked at. -/
def operands (limit : Nat) : Eval (Number × Number) := do
  let left ← Eval.ofExcept (expectNumber limit (← Eval.argument "X"))
  let right ← Eval.ofExcept (expectNumber limit (← Eval.argument "Y"))
  return (left, right)

def computed (result : Except NumericError Number) : Except Error Value :=
  (result.map Number.toValue).mapError Error.numeric

def calculate (limit : Nat) (operation : Number → Number → Except NumericError Number) :
    Eval Value := do
  let (left, right) ← operands limit
  Eval.ofExcept (computed (operation left right))

/-- Refuses to divide by zero. -/
def divided (operation : Number → Number → Except NumericError Number) (left right : Number) :
    Except Error Value :=
  if right.isZero then do
    let dividend ← left.text.mapError Error.numeric
    throw (.evaluation (.divisionByZero dividend))
  else computed (operation left right)

def calculateQuotient (limit : Nat) (operation : Number → Number → Except NumericError Number) :
    Eval Value := do
  let (left, right) ← operands limit
  Eval.ofExcept (divided operation left right)

/-- Tests the order of the operands; where they have none, no test succeeds. -/
def compareOperands (limit : Nat) (test : Ordering → Bool) : Eval Value := do
  let (left, right) ← operands limit
  return .ofBool ((left.compare? right).any test)

end ConsLisp.Builtin
