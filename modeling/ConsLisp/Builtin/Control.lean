import ConsLisp.Evaluation.Rules
import ConsLisp.Parameter.Syntax
import ConsLisp.Value.Kind

/-!
# Builtins that receive forms

These take argument forms as they are and decide what to evaluate.  They do so in the environment
of the caller, where their own parameter names bind nothing.
-/

namespace ConsLisp.Builtin

/-- The elements of the list bound to a parameter's name. -/
def argumentList (name : String) : Eval (List Value) := do
  match (← Eval.argument name).walk? with
  | some elements => return elements
  | none => Eval.fail (.argument (.notAList name))

/-- Evaluates forms until one is NIL. -/
def conjunction (engine : Engine) (value : Value) : List Value → Eval Value
  | [] => return value
  | form :: forms => do
      let result ← engine.evaluate form
      if result.isTrue then conjunction engine result forms else return .nil

/-- Evaluates forms until one is not NIL. -/
def disjunction (engine : Engine) : List Value → Eval Value
  | [] => return .nil
  | form :: forms => do
      let result ← engine.evaluate form
      if result.isTrue then return result else disjunction engine forms

/-- Runs the first clause whose test is not NIL.  A clause without a body has the value of its
test. -/
def conditional (limit : Nat) (engine : Engine) : List Value → Eval Value
  | [] => return .nil
  | clause :: clauses => do
      let (items, terminator) ← Eval.ofExcept (clause.expectAs limit Value.list? "a cond clause")
      let (test, body) := Value.unpack items terminator
      let result ← engine.evaluate test
      if result.isTrue then
        if body.isNil then return result else engine.evaluate body
      else conditional limit engine clauses

def runAnd (engine : Engine) : Eval Value := do
  let forms ← argumentList "X"
  Eval.inCaller (conjunction engine .truth forms)

def runOr (engine : Engine) : Eval Value := do
  let forms ← argumentList "X"
  Eval.inCaller (disjunction engine forms)

def runCond (limit : Nat) (engine : Engine) : Eval Value := do
  let clauses ← argumentList "X"
  Eval.inCaller (conditional limit engine clauses)

def runList (engine : Engine) : Eval Value := do
  let forms ← argumentList "X"
  let values ← Eval.inCaller (forms.mapM engine.evaluate)
  return .ofItems values .nil

/-- Binds a name globally. -/
def runSetq (limit : Nat) : Eval Value := do
  let name ← Eval.ofExcept ((← Eval.argument "X").expectAs limit Value.symbol? "a symbol")
  let value ← Eval.argument "Y"
  Eval.inCaller (Eval.defineGlobal name value)
  return value

/-- Binds a name globally to a function of that name. -/
def runDefun (limit : Nat) : Eval Value := do
  let name ← Eval.ofExcept ((← Eval.argument "X").expectAs limit Value.symbol? "a function name")
  let parameters ← Eval.ofExcept (Parameter.ofForm limit (← Eval.argument "Y"))
  let body ← Eval.argument "Z"
  Eval.inCaller (Eval.defineGlobal name (.callable (.lambda (some name) parameters body)))
  return .symbol name

def runLambda (limit : Nat) : Eval Value := do
  let parameters ← Eval.ofExcept (Parameter.ofForm limit (← Eval.argument "X"))
  let body ← Eval.argument "Y"
  return .callable (.lambda none parameters body)

/-- A symbol in place of a function stands for its value. -/
def resolve (engine : Engine) : Value → Eval Value
  | .symbol name => Eval.inCaller (engine.evaluate (.symbol name))
  | value => return value

def runFuncall (limit : Nat) (engine : Engine) : Eval Value := do
  let resolved ← resolve engine (← Eval.argument "X")
  let function ← Eval.ofExcept (resolved.expectAs limit Value.callable? "a function")
  let arguments ← Eval.argument "Y"
  Eval.inCaller (engine.apply function arguments)

end ConsLisp.Builtin
