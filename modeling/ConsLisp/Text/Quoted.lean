import ConsLisp.Text.Printable

/-!
# Quoted texts

How a text is shown inside a message: between single quotes, or between double quotes when it
holds a single quote and no double one.  Characters that would not show are written as escapes.
-/

namespace ConsLisp.Text.Quoted

/-- The quote mark that needs the fewest escapes. -/
def mark (text : String) : Char :=
  if text.contains '\'' && !text.contains '"' then '"' else '\''

/-- The hexadecimal digits of a code point, padded with zeros to a width. -/
def hex (width code : Nat) : List Char :=
  let digits := Nat.toDigits 16 code
  List.replicate (width - digits.length) '0' ++ digits

def escape (quote char : Char) : List Char :=
  let code := char.toNat
  if char = quote || char = '\\' then ['\\', char]
  else if char = '\n' then ['\\', 'n']
  else if char = '\r' then ['\\', 'r']
  else if char = '\t' then ['\\', 't']
  else if Printable.isPrintable char then [char]
  else if code < 0x100 then '\\' :: 'x' :: hex 2 code
  else if code < 0x10000 then '\\' :: 'u' :: hex 4 code
  else '\\' :: 'U' :: hex 8 code

end ConsLisp.Text.Quoted

namespace ConsLisp.Text

def quoted (text : String) : String :=
  let quote := Quoted.mark text
  String.ofList (quote :: text.toList.flatMap (Quoted.escape quote) ++ [quote])

end ConsLisp.Text
