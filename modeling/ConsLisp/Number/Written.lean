import ConsLisp.Number.Integer
import ConsLisp.Text.Blank
import ConsLisp.Text.DecimalDigit

/-!
# Integers written by people

An integer in a setting may have blanks around it, a sign, digits of any script, and single
underscores between digits.
-/

namespace ConsLisp.Number

/-- The values of digits with single underscores between them. -/
def separatedDigits? : List Char → Option (List Nat)
  | [] => none
  | [char] => (Text.DecimalDigit.value? char).map ([·])
  | char :: '_' :: rest => do
      let digit ← Text.DecimalDigit.value? char
      return digit :: (← separatedDigits? rest)
  | char :: rest => do
      let digit ← Text.DecimalDigit.value? char
      return digit :: (← separatedDigits? rest)

def unsigned? (text : List Char) : Option Nat := do
  let digits ← separatedDigits? text
  if digits.length ≤ digitLimit then
    return digits.foldl (fun value digit => value * 10 + digit) 0
  else none

def written? (text : String) : Option Int :=
  match (Text.strip text).toList with
  | '-' :: rest => (unsigned? rest).map fun value => -value
  | '+' :: rest => (unsigned? rest).map fun value => value
  | rest => (unsigned? rest).map fun value => value

end ConsLisp.Number
