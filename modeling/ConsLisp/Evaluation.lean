import ConsLisp.Evaluation.Call

/-!
# Evaluation

Evaluations and applications may be nested up to a limit, which also bounds how deeply a value may
be nested to be printed, compared or read.
-/

namespace ConsLisp

/-- The limit that holds unless another one is asked for. -/
def defaultLimit : Nat := 1000

namespace Engine

/-- The engine with a budget of nested evaluations and applications. -/
def withBudget (limit : Nat) : Nat → Engine
  | 0 =>
      { evaluate := fun _ => Eval.fail (.tooDeep .evaluating)
        apply := fun _ _ => Eval.fail (.tooDeep .evaluating) }
  | budget + 1 =>
      { evaluate := fun form => (withBudget limit budget).evaluateForm form
        apply := fun function arguments =>
          (withBudget limit budget).applyCallable limit function arguments }

end Engine

/-- Evaluates a form. -/
def evaluate (limit : Nat) (form : Value) : Eval Value :=
  (Engine.withBudget limit limit).evaluate form

/-- Applies a function to argument forms. -/
def apply (limit : Nat) (function : Callable) (arguments : Value) : Eval Value :=
  (Engine.withBudget limit limit).apply function arguments

end ConsLisp
