import ConsLisp.Number.Shortest

/-!
# Written numbers

A written number has a sign, digits before and after the point, and perhaps an exponent.  A float
is written with its shortest decimal, with an exponent when the number is very large or very small;
the positional form of a written number has no exponent and denotes the same number.
-/

namespace ConsLisp.Number

structure Numeral where
  negative : Bool
  whole : List Char
  fraction : List Char
  exponent : Option Int

namespace Numeral

def zeros (count : Nat) : List Char :=
  List.replicate count '0'

/-- An exponent is written with its sign and at least two digits. -/
def exponentText (exponent : Int) : List Char :=
  let digits := Nat.toDigits 10 exponent.natAbs
  'e' :: (if exponent < 0 then '-' else '+') :: (zeros (2 - digits.length) ++ digits)

def render (numeral : Numeral) : String :=
  let sign := if numeral.negative then ['-'] else []
  let fraction := if numeral.fraction.isEmpty then [] else '.' :: numeral.fraction
  let exponent := (numeral.exponent.map exponentText).getD []
  String.ofList (sign ++ numeral.whole ++ fraction ++ exponent)

/-- Writes digits with the point after the first `point` of them, filling up with zeros, with at
least one digit on each side. -/
def layOut (negative : Bool) (digits : List Char) (point : Int) : Numeral :=
  if point ≤ 0 then
    ⟨negative, ['0'], zeros point.natAbs ++ digits, none⟩
  else
    let before := point.toNat
    if digits.length ≤ before then
      ⟨negative, digits ++ zeros (before - digits.length), ['0'], none⟩
    else
      ⟨negative, digits.take before, digits.drop before, none⟩

/-- The same number without an exponent. -/
def positional (numeral : Numeral) : Numeral :=
  match numeral.exponent with
  | none => numeral
  | some exponent =>
      layOut numeral.negative (numeral.whole ++ numeral.fraction)
        (numeral.whole.length + exponent)

/-- Digits with the point in front of them moved by `point` places.  The exponent form is used
below a ten-thousandth and from ten to the sixteenth on. -/
def ofDigits (negative : Bool) (digits : List Char) (point : Int) : Numeral :=
  if -4 < point && point ≤ 16 then layOut negative digits point
  else ⟨negative, digits.take 1, digits.drop 1, some (point - 1)⟩

def dropTrailingZeros (digits : List Char) : List Char :=
  (digits.reverse.dropWhile (· = '0')).reverse

/-- The written form of a finite float. -/
def ofFinite (negative : Bool) (mantissa : Nat) (exponent : Int) : Numeral :=
  if mantissa = 0 then ⟨negative, ['0'], ['0'], none⟩
  else
    let decimal := Shortest.ofBinary mantissa exponent
    let digits := Nat.toDigits 10 decimal.number
    ofDigits negative (dropTrailingZeros digits) (digits.length + decimal.power)

end Numeral

/-- Writes a float through a form for its finite values. -/
def floatTextWith (form : Numeral → Numeral) (float : Float) : String :=
  match Binary.ofFloat float with
  | .nan => "nan"
  | .infinite negative => if negative then "-inf" else "inf"
  | .finite negative mantissa exponent =>
      (form (Numeral.ofFinite negative mantissa exponent)).render

/-- The shortest text of a float, with an exponent where it is large or small. -/
def floatText (float : Float) : String :=
  floatTextWith id float

/-- The shortest text of a float without an exponent. -/
def positionalFloatText (float : Float) : String :=
  floatTextWith Numeral.positional float

end ConsLisp.Number
