import ConsLisp.Number.Binary
import ConsLisp.Value

/-!
# Equality

Two values are equal when they are of one kind and have equal contents.  A builtin is equal to
nothing, not even to itself.  Values nested deeper than a limit cannot be compared.
-/

namespace ConsLisp

/-- A comparison went deeper than the limit. -/
inductive ComparisonError where
  /-- While the items of a list were compared. -/
  | insideList
  /-- With no list around. -/
  | outsideLists
  deriving DecidableEq

namespace Value

abbrev Comparison := Except ComparisonError Bool

/-- Compares lists item by item and then their terminators. -/
def equalItems (equal : Value → Value → Comparison) (left right : Value) :
    List Value → List Value → Comparison
  | [], [] => equal left right
  | first :: firsts, second :: seconds => do
      if ← equal first second then equalItems equal left right firsts seconds else return false
  | _, _ => return false

/-- Compares parameter lists: modes, names and defaults. -/
def equalParameters (equal : Value → Value → Comparison) :
    List Parameter → List Parameter → Comparison
  | [], [] => return true
  | first :: firsts, second :: seconds => do
      if first.mode = second.mode && first.name = second.name then
        if ← equal first.default second.default then equalParameters equal firsts seconds
        else return false
      else return false
  | _, _ => return false

/-- Whether parameter lists have the same number of parameters, all equal. -/
def equalSignatures (equal : Value → Value → Comparison) (left right : List Parameter) :
    Comparison :=
  if left.length = right.length then equalParameters equal left right else return false

/-- Equality of values nested at most `limit` deep. -/
def equal : Nat → Value → Value → Comparison
  | 0, _, _ => .error .outsideLists
  | limit + 1, left, right =>
      match left, right with
      | .nil, .nil => return true
      | .truth, .truth => return true
      | .integer first, .integer second => return first == second
      | .float first, .float second => return first == second
      | .string first, .string second => return first == second
      | .symbol first, .symbol second => return first == second
      | .quoted first, .quoted second => equal limit first second
      | .list firsts first, .list seconds second =>
          (equalItems (equal limit) first second firsts seconds).mapError fun _ => .insideList
      | .callable (.lambda firstName firsts first),
        .callable (.lambda secondName seconds second) => do
          if firstName.isSome != secondName.isSome then return false
          else if ← equalSignatures (equal limit) firsts seconds then
            if ← equal limit first second then return firstName == secondName else return false
          else return false
      | _, _ => return false

/-- Equality up to the kind of numbers: an integer also equals a float of the same value. -/
def equalInValue (limit : Nat) : Value → Value → Comparison
  | .integer number, .float real => return Number.Binary.compareInt? number real == some .eq
  | .float real, .integer number => return Number.Binary.compareInt? number real == some .eq
  | left, right => equal limit left right

end Value

end ConsLisp
