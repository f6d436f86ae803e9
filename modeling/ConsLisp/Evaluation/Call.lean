import ConsLisp.Builtin.Run
import ConsLisp.Parameter.Validity

/-!
# Calls

The number of argument forms is checked before any of them is looked at.  Each form then reaches its
parameter according to that parameter's mode, and the function runs in a frame of its own around
the environment of the call.  A function without parameters runs in that environment itself.
-/

namespace ConsLisp

/-- Refuses too few forms for the required parameters, and too many for a list of parameters
without rest.  A function without parameters takes any number. -/
def Parameter.checkCount (parameters : List Parameter) (supplied : Nat) : Except Error Unit :=
  let required := requiredCount parameters
  if supplied < required then
    throw (.evaluation (.argumentCount required supplied))
  else if !parameters.isEmpty && !hasRest parameters && parameters.length < supplied then
    throw (.evaluation (.argumentCount parameters.length supplied))
  else return ()

namespace Engine

/-- Binds parameters to argument forms in a frame. -/
def bind (engine : Engine) (frame : Frame) : List Parameter → List Value → Eval Frame
  | [], _ => return frame
  | parameter :: parameters, forms =>
      match parameter.mode, forms with
      | .rest, forms => return frame.insert parameter.name (.ofItems forms .nil)
      | .normal, form :: forms => do
          let value ← engine.evaluate form
          bind engine (frame.insert parameter.name value) parameters forms
      | .plain, form :: forms => bind engine (frame.insert parameter.name form) parameters forms
      | .optional, form :: forms => bind engine (frame.insert parameter.name form) parameters forms
      | .optional, [] =>
          bind engine (frame.insert parameter.name parameter.default) parameters []
      | .normal, [] | .plain, [] => Eval.fail (.argument .missingForm)

/-- Runs a function where its arguments are bound. -/
def runBody (limit : Nat) (engine : Engine) : Callable → Eval Value
  | .lambda _ _ body => engine.evaluate body
  | .builtin operation => operation.run limit engine

def applyCallable (limit : Nat) (engine : Engine) (function : Callable) (arguments : Value) :
    Eval Value := do
  let forms ← Eval.ofExcept (argumentForms limit function arguments)
  Eval.ofExcept (Parameter.checkCount function.parameters forms.length)
  if function.parameters.isEmpty then engine.runBody limit function
  else
    let frame ← engine.bind .empty function.parameters forms
    Eval.inFrame frame (engine.runBody limit function)

end Engine

end ConsLisp
