/-!
# Floats as exact numbers

A float is a whole number times a power of two.  This module reads that off its bits, and goes back
from a ratio of whole numbers to the nearest float, a tie going to the even mantissa.
-/

namespace ConsLisp.Number

/-- The exact meaning of a float. -/
inductive Binary where
  | nan
  | infinite (negative : Bool)
  /-- `mantissa` times two to the `exponent`. -/
  | finite (negative : Bool) (mantissa : Nat) (exponent : Int)
  deriving DecidableEq

namespace Binary

/-- The exponent of the smallest float. -/
def leastExponent : Int := -1074

def ofFloat (float : Float) : Binary :=
  let bits := float.toBits.toNat
  let negative := Nat.pow 2 63 ≤ bits
  let biased := bits / Nat.pow 2 52 % Nat.pow 2 11
  let fraction := bits % Nat.pow 2 52
  if biased = 2047 then
    if fraction = 0 then .infinite negative else .nan
  else if biased = 0 then .finite negative fraction leastExponent
  else .finite negative (Nat.pow 2 52 + fraction) (leastExponent + (biased - 1 : Nat))

def signBits (negative : Bool) : Nat :=
  if negative then Nat.pow 2 63 else 0

def infinity (negative : Bool) : Float :=
  Float.ofBits (UInt64.ofNat (signBits negative + 2047 * Nat.pow 2 52))

/-- The float with a mantissa of at most 53 bits, the whole of which is used unless the exponent is
the least one; infinite when the exponent is too large. -/
def pack (negative : Bool) (mantissa : Nat) (exponent : Int) : Float :=
  let steps := (exponent - leastExponent).toNat
  let bits := steps * Nat.pow 2 52 + mantissa
  if 2047 * Nat.pow 2 52 ≤ bits then infinity negative
  else Float.ofBits (UInt64.ofNat (signBits negative + bits))

/-- The whole number nearest to a quotient, a tie going to the even one. -/
def roundQuotient (numerator denominator : Nat) : Nat :=
  let quotient := numerator / denominator
  let rest := numerator % denominator
  if denominator < 2 * rest || (2 * rest = denominator && quotient % 2 = 1) then quotient + 1
  else quotient

/-- A ratio divided by two to an exponent, as a ratio. -/
def scaleDown (numerator denominator : Nat) : Int → Nat × Nat
  | .ofNat power => (numerator, denominator * Nat.pow 2 power)
  | .negSucc power => (numerator * Nat.pow 2 (power + 1), denominator)

/-- The float nearest to a ratio, a tie going to the even mantissa. -/
def nearest (negative : Bool) (numerator denominator : Nat) : Float :=
  if numerator = 0 then pack negative 0 leastExponent
  else
    let guess : Int := numerator.log2 - denominator.log2 - 53
    let low := max guess leastExponent
    let scaled := scaleDown numerator denominator low
    let exponent := if scaled.1 / scaled.2 < Nat.pow 2 53 then low else low + 1
    let scaled := scaleDown numerator denominator exponent
    pack negative (roundQuotient scaled.1 scaled.2) exponent

/-- The nearest float of a whole number, unless that is infinite. -/
def ofInt? (number : Int) : Option Float :=
  let float := nearest (number < 0) number.natAbs 1
  if float.isInf then none else some float

/-- Compares a whole number with a float exactly; there is no answer for NaN. -/
def compareInt? (number : Int) (float : Float) : Option Ordering :=
  match ofFloat float with
  | .nan => none
  | .infinite negative => some (if negative then .gt else .lt)
  | .finite negative mantissa exponent =>
      let signed : Int := if negative then -mantissa else mantissa
      match exponent with
      | .ofNat power => some (compare number (signed * Nat.pow 2 power))
      | .negSucc power => some (compare (number * Nat.pow 2 (power + 1)) signed)

/-- The remainder of a division of finite floats truncated toward zero, with the sign of the
dividend.  It is always a float itself, so nothing is rounded. -/
def remainder (negative : Bool) (mantissa : Nat) (exponent : Int)
    (divisor : Nat) (divisorExponent : Int) : Float :=
  let common := min exponent divisorExponent
  let left := mantissa * Nat.pow 2 (exponent - common).toNat
  let right := divisor * Nat.pow 2 (divisorExponent - common).toNat
  let rest := left % right
  match common with
  | .ofNat power => nearest negative (rest * Nat.pow 2 power) 1
  | .negSucc power => nearest negative rest (Nat.pow 2 (power + 1))

end Binary

end ConsLisp.Number
