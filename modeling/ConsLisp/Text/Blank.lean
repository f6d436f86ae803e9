/-!
# Blank characters

The characters that count as blank at the ends of a text: white space of every script, and the
four information separators.
-/

namespace ConsLisp.Text.Blank

/-- The blank code points, as closed ranges in increasing order. -/
def ranges : List (Nat × Nat) := [
  (0x9, 0xD), (0x1C, 0x20), (0x85, 0x85), (0xA0, 0xA0), (0x1680, 0x1680), (0x2000, 0x200A),
  (0x2028, 0x2029), (0x202F, 0x202F), (0x205F, 0x205F), (0x3000, 0x3000)]

def isBlank (char : Char) : Bool :=
  ranges.any fun range => range.1 ≤ char.toNat && char.toNat ≤ range.2

end ConsLisp.Text.Blank

namespace ConsLisp.Text

/-- A text without the blanks at its two ends. -/
def strip (text : String) : String :=
  let inner := text.toList.dropWhile Blank.isBlank
  String.ofList (inner.reverse.dropWhile Blank.isBlank).reverse

end ConsLisp.Text
