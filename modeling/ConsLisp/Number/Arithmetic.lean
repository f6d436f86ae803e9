import ConsLisp.Error

/-!
# Arithmetic

Two integers are added, multiplied and divided as integers, the quotient truncated toward zero.
Anything that involves a float is done in floats.  Comparisons are exact for every mix of kinds.
-/

namespace ConsLisp

inductive Number where
  | integer (number : Int)
  | float (number : Float)

namespace Number

def toValue : Number → Value
  | .integer number => .integer number
  | .float number => .float number

/-- The nearest float, unless the number is too large to have one. -/
def toFloat : Number → Except NumericError Float
  | .float number => .ok number
  | .integer number =>
      match Binary.ofInt? number with
      | some nearest => .ok nearest
      | none => .error .floatRange

def combine (integers : Int → Int → Int) (floats : Float → Float → Float) :
    Number → Number → Except NumericError Number
  | .integer left, .integer right => .ok (.integer (integers left right))
  | left, right => do return .float (floats (← left.toFloat) (← right.toFloat))

def add : Number → Number → Except NumericError Number :=
  combine (· + ·) (· + ·)

def subtract : Number → Number → Except NumericError Number :=
  combine (· - ·) (· - ·)

def multiply : Number → Number → Except NumericError Number :=
  combine (· * ·) (· * ·)

/-- The quotient of the magnitudes, negated where the operands lie on different sides of zero. -/
def truncatedQuotient (dividend divisor : Int) : Int :=
  let quotient : Int := Int.ofNat (dividend.natAbs / divisor.natAbs)
  if (0 ≤ dividend ↔ 0 ≤ divisor) then quotient else -quotient

/-- What the truncated quotient leaves of the dividend. -/
def truncatedRemainder (dividend divisor : Int) : Int :=
  dividend - divisor * truncatedQuotient dividend divisor

/-- The quotient by a divisor other than zero. -/
def divide : Number → Number → Except NumericError Number :=
  combine truncatedQuotient (· / ·)

/-- The remainder of floats, which has the sign of the dividend.  An infinite dividend has none. -/
def floatRemainder (left right : Float) : Except NumericError Float :=
  match Binary.ofFloat left, Binary.ofFloat right with
  | .nan, _ => .ok left
  | _, .nan => .ok right
  | .infinite _, _ => .error .remainderDomain
  | .finite .., .infinite _ => .ok left
  | .finite negative mantissa exponent, .finite _ divisor divisorExponent =>
      if divisor = 0 then .error .remainderDomain
      else .ok (Binary.remainder negative mantissa exponent divisor divisorExponent)

/-- The remainder by a divisor other than zero, with the sign of the dividend. -/
def remainder : Number → Number → Except NumericError Number
  | .integer left, .integer right => .ok (.integer (truncatedRemainder left right))
  | left, right => do return .float (← floatRemainder (← left.toFloat) (← right.toFloat))

/-- The order of two numbers; there is none where NaN is involved. -/
def compare? : Number → Number → Option Ordering
  | .integer left, .integer right => some (compare left right)
  | .integer left, .float right => Binary.compareInt? left right
  | .float left, .integer right => (Binary.compareInt? right left).map Ordering.swap
  | .float left, .float right =>
      if left < right then some .lt
      else if right < left then some .gt
      else if left == right then some .eq
      else none

def isZero : Number → Bool
  | .integer number => number == 0
  | .float number => number == 0

/-- A number as it stands in a message. -/
def text : Number → Except NumericError String
  | .float number => .ok (floatText number)
  | .integer number =>
      match integerText? number with
      | some digits => .ok digits
      | none => .error .tooManyDigits

end Number

def Value.number? : Value → Option Number
  | .integer number => some (.integer number)
  | .float number => some (.float number)
  | _ => none

end ConsLisp
