import ConsLisp.Number.Binary
import ConsLisp.Number.Integer

/-!
# Number literals

An integer literal is an optional minus sign and digits; a float literal also has one point, with
at least one digit on one of its sides.  There is no exponent.
-/

namespace ConsLisp.Number.Literal

/-- Splits off a leading minus sign. -/
def sign : List Char → Bool × List Char
  | '-' :: rest => (true, rest)
  | rest => (false, rest)

def isUnsigned (digits : List Char) : Bool :=
  !digits.isEmpty && digits.all isDigit

/-- Integer literals lie in the range of 64-bit words. -/
def inRange (number : Int) : Bool :=
  -Nat.pow 2 63 ≤ number && number < Nat.pow 2 63

def integer? (literal : List Char) : Option Int :=
  let (negative, digits) := sign literal
  if isUnsigned digits && digits.length ≤ digitLimit then
    let value : Int := digitsValue digits
    let number := if negative then -value else value
    if inRange number then some number else none
  else none

def float? (literal : List Char) : Option Float :=
  let (negative, rest) := sign literal
  let whole := rest.takeWhile isDigit
  match rest.dropWhile isDigit with
  | '.' :: fraction =>
      if isUnsigned (whole ++ fraction) then
        some (Binary.nearest negative (digitsValue (whole ++ fraction))
          (Nat.pow 10 fraction.length))
      else none
  | _ => none

end ConsLisp.Number.Literal
