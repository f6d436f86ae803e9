import ConsLisp.Builtin.Arithmetic
import ConsLisp.Builtin.Control

/-!
# Running a builtin

A builtin runs in the frame of its call and finds its arguments there under the names of its
parameters.
-/

namespace ConsLisp.Builtin

/-- Tests the argument `X`. -/
def testArgument (test : Value → Bool) : Eval Value := do
  return .ofBool (test (← Eval.argument "X"))

def isListOrNil : Value → Bool
  | .nil | .list _ _ => true
  | _ => false

/-- Takes the list `X` apart; NIL gives NIL. -/
def takeApart (limit : Nat) (part : List Value → Value → Value) : Eval Value := do
  let value ← Eval.argument "X"
  if value.isNil then return .nil
  else
    let (items, terminator) ← Eval.ofExcept (value.expectAs limit Value.list? "a list")
    return part items terminator

def runEqual (limit : Nat) : Eval Value := do
  let left ← Eval.argument "X"
  let right ← Eval.argument "Y"
  let same ← Eval.ofExcept ((Value.equal limit left right).mapError ComparisonError.toError)
  return .ofBool same

/-- Writes a text of `X`, which is also the result. -/
def writeArgument (print : Value → Printed) (ending : String) : Eval Value := do
  let value ← Eval.argument "X"
  let text ← Eval.ofExcept ((print value).mapError PrintError.toError)
  Eval.write (text ++ ending)
  return value

def runCons : Eval Value := do
  let head ← Eval.argument "X"
  let tail ← Eval.argument "Y"
  return .cons head tail

def run (limit : Nat) (engine : Engine) : Builtin → Eval Value
  | .add => calculate limit Number.add
  | .subtract => calculate limit Number.subtract
  | .multiply => calculate limit Number.multiply
  | .divide => calculateQuotient limit Number.divide
  | .modulo => calculateQuotient limit Number.remainder
  | .less => compareOperands limit Ordering.isLT
  | .greater => compareOperands limit Ordering.isGT
  | .equalNumbers => compareOperands limit Ordering.isEq
  | .lessOrEqual => compareOperands limit Ordering.isLE
  | .greaterOrEqual => compareOperands limit Ordering.isGE
  | .isSymbol => testArgument (·.isOf .symbol)
  | .isNumber => testArgument fun value => value.isOf .integer || value.isOf .float
  | .isString => testArgument (·.isOf .string)
  | .isList => testArgument isListOrNil
  | .isAtom => testArgument fun value => !value.isOf .list
  | .isNull => testArgument Value.isNil
  | .equal => runEqual limit
  | .not => testArgument Value.isNil
  | .and => runAnd engine
  | .or => runOr engine
  | .cons => runCons
  | .car => takeApart limit Value.car
  | .cdr => takeApart limit Value.cdr
  | .list => runList engine
  | .quote => Eval.argument "X"
  | .cond => runCond limit engine
  | .setq => runSetq limit
  | .defun => runDefun limit
  | .lambda => runLambda limit
  | .funcall => runFuncall limit engine
  | .print => writeArgument (Value.display limit) "\n"
  | .princ => writeArgument (Value.princ limit) ""
  | .terpri => do
      Eval.write "\n"
      return .nil

end ConsLisp.Builtin
