import ConsLisp.Number.Binary

/-!
# Shortest decimals

The decimal with the fewest digits among those that round to a given float, and of these the one
nearest to it.
-/

namespace ConsLisp.Number.Shortest

/-- A positive ratio of whole numbers. -/
structure Ratio where
  numerator : Nat
  denominator : Nat

/-- The decimals that round to a float: an interval around its value, closed or open at both
ends. -/
structure Interval where
  low : Ratio
  value : Ratio
  high : Ratio
  closed : Bool

/-- A whole number times two to an exponent. -/
def dyadic (number : Nat) : Int → Ratio
  | .ofNat power => ⟨number * Nat.pow 2 power, 1⟩
  | .negSucc power => ⟨number, Nat.pow 2 (power + 1)⟩

/-- The interval reaches half way to the neighbouring floats.  The lower neighbour of a power of
two is only half as far away, unless the float has the least exponent. -/
def interval (mantissa : Nat) (exponent : Int) : Interval :=
  let below := if mantissa = Nat.pow 2 52 && Binary.leastExponent < exponent then 1 else 2
  { low := dyadic (4 * mantissa - below) (exponent - 2)
    value := dyadic (4 * mantissa) (exponent - 2)
    high := dyadic (4 * mantissa + 2) (exponent - 2)
    closed := mantissa % 2 = 0 }

/-- A ratio divided by ten to an exponent. -/
def Ratio.scaleDown (ratio : Ratio) : Int → Ratio
  | .ofNat power => ⟨ratio.numerator, ratio.denominator * Nat.pow 10 power⟩
  | .negSucc power => ⟨ratio.numerator * Nat.pow 10 (power + 1), ratio.denominator⟩

def Ratio.admitsAbove (closed : Bool) (bound : Ratio) (number : Nat) : Bool :=
  if closed then bound.numerator ≤ number * bound.denominator
  else bound.numerator < number * bound.denominator

def Ratio.admitsBelow (closed : Bool) (bound : Ratio) (number : Nat) : Bool :=
  if closed then number * bound.denominator ≤ bound.numerator
  else number * bound.denominator < bound.numerator

/-- The place of the decimal point: the value lies below ten to this power and not below a tenth
of it. -/
def magnitude (value : Ratio) : Int :=
  if value.denominator ≤ value.numerator then
    (Nat.toDigits 10 (value.numerator / value.denominator)).length
  else
    1 - (Nat.toDigits 10 (value.denominator / value.numerator)).length

/-- The multiple of ten to `power` next to the value that lies in the interval, the nearer of the
two if both do, and the even one if both are equally near. -/
def onGrid? (interval : Interval) (power : Int) : Option Nat :=
  let low := interval.low.scaleDown power
  let value := interval.value.scaleDown power
  let high := interval.high.scaleDown power
  let floor := value.numerator / value.denominator
  let floorFits := low.admitsAbove interval.closed floor
  let ceilFits := high.admitsBelow interval.closed (floor + 1)
  let rest := value.numerator % value.denominator
  if floorFits && ceilFits then
    if 2 * rest < value.denominator then some floor
    else if value.denominator < 2 * rest then some (floor + 1)
    else some (if floor % 2 = 0 then floor else floor + 1)
  else if floorFits then some floor
  else if ceilFits then some (floor + 1)
  else none

/-- A whole number times ten to a power. -/
structure Decimal where
  number : Nat
  power : Int

/-- No float needs more digits than this. -/
def digitLimit : Nat := 17

/-- The shortest decimal of a positive float. -/
def ofBinary (mantissa : Nat) (exponent : Int) : Decimal :=
  let around := interval mantissa exponent
  let point := magnitude around.value
  let found := (List.range digitLimit).findSome? fun count =>
    let power := point - (count + 1 : Nat)
    (onGrid? around power).map fun number => Decimal.mk number power
  found.getD ⟨around.value.numerator, 0⟩

end ConsLisp.Number.Shortest
