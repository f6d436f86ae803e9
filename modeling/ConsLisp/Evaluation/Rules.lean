import ConsLisp.Evaluation.Machine

/-!
# Rules of evaluation

How a form is evaluated and a function applied, given how to do so for the forms and functions met
on the way.  Symbols are looked up, quotes are unwrapped and lists are calls or sequences; every
other value stands for itself.
-/

namespace ConsLisp

/-- How to evaluate forms and how to apply functions to argument forms. -/
structure Engine where
  evaluate : Value → Eval Value
  apply : Callable → Value → Eval Value

namespace Engine

/-- Evaluates forms in order for the value of the last one. -/
def sequence (engine : Engine) (value : Value) : List Value → Eval Value
  | [] => return value
  | form :: forms => do sequence engine (← engine.evaluate form) forms

/-- Evaluates a list.  The empty list is NIL, a list with nothing after its head has the value of
the head, and a callable head is applied to the forms after it.  Otherwise the forms after the head
are evaluated in order. -/
def evaluateList (engine : Engine) (items : List Value) (terminator : Value) : Eval Value :=
  if Value.isEmpty items terminator then return .nil
  else do
    let (head, tail) := Value.unpack items terminator
    let result ← engine.evaluate head
    if tail.isNil then return result
    else
      match result, tail with
      | .callable function, _ => engine.apply function tail
      | _, .list rest last => engine.sequence .nil (Value.elements rest last)
      | _, _ => engine.evaluate tail

def evaluateForm (engine : Engine) : Value → Eval Value
  | .symbol name => do
      match ← Eval.lookup? name with
      | some value => return value
      | none => .fail (.evaluation (.unboundVariable name))
  | .quoted value => return value
  | .list items terminator => engine.evaluateList items terminator
  | value => return value

/-- The argument forms of a call. -/
def argumentForms (limit : Nat) (function : Callable) : Value → Except Error (List Value)
  | .nil => return []
  | .list items terminator => return Value.elements items terminator
  | arguments => do
      let shownFunction ← Value.shown limit (.callable function)
      let shownArguments ← arguments.shown limit
      throw (.evaluation (.illegalCall shownFunction shownArguments))

end Engine

end ConsLisp
