/-!
# Whole numbers as text

Whole numbers are of any size, but only those of at most 4300 digits have a text.
-/

namespace ConsLisp.Number

/-- The most digits a number may have in a text, leading zeros included. -/
def digitLimit : Nat := 4300

/-- The least number with too many digits. -/
@[irreducible] def unwritable : Nat := Nat.pow 10 digitLimit

def integerText? (number : Int) : Option String :=
  if number.natAbs < unwritable then some (toString number) else none

/-- The value of ASCII digits, most significant first. -/
def digitsValue (digits : List Char) : Nat :=
  digits.foldl (fun value digit => value * 10 + (digit.toNat - '0'.toNat)) 0

def isDigit (char : Char) : Bool :=
  '0' ≤ char && char ≤ '9'

end ConsLisp.Number
