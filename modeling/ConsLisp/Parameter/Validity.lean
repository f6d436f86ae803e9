import ConsLisp.Builtin

/-!
# Parameter lists

A parameter list is valid when its names are distinct, no required parameter follows an optional
one, and only the last parameter takes the rest.
-/

namespace ConsLisp.Parameter

/-- Whether a parameter must be matched by an argument form. -/
def isRequired (parameter : Parameter) : Bool :=
  parameter.mode = .normal || parameter.mode = .plain

def isRest (parameter : Parameter) : Bool :=
  parameter.mode = .rest

def requiredCount (parameters : List Parameter) : Nat :=
  parameters.countP isRequired

def hasRest (parameters : List Parameter) : Bool :=
  parameters.any isRest

/-- Whether parameters may follow others with the names `seen`, some of them optional or not. -/
def validAfter (seen : List String) (metOptional : Bool) : List Parameter → Bool
  | [] => true
  | parameter :: parameters =>
      !seen.contains parameter.name &&
        match parameter.mode with
        | .normal | .plain =>
            !metOptional && validAfter (parameter.name :: seen) metOptional parameters
        | .optional => validAfter (parameter.name :: seen) true parameters
        | .rest => parameters.isEmpty

def isValid (parameters : List Parameter) : Bool :=
  validAfter [] false parameters

end ConsLisp.Parameter
