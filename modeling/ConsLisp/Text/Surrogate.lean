import ConsLisp.Text.Quoted

/-!
# Surrogates

Code points that are no characters.  A terminal may hand them on in place of bytes that it cannot
decode, and a text that holds one has no encoding.
-/

namespace ConsLisp.Text

/-- A surrogate, counted from the first one. -/
structure Surrogate where
  index : Fin 0x800

inductive CodePoint where
  | char (char : Char)
  | surrogate (surrogate : Surrogate)

/-- A text that holds a surrogate, cut at the first one. -/
structure Garbled where
  before : String
  first : Surrogate
  after : List CodePoint

/-- The surrogates that keep a text from being encoded: the first one and those right after it. -/
structure EncodingError where
  position : Nat
  first : Surrogate
  others : Nat

def Surrogate.code (surrogate : Surrogate) : Nat :=
  0xD800 + surrogate.index

def CodePoint.isSurrogate : CodePoint → Bool
  | .char _ => false
  | .surrogate _ => true

/-- Why a text cannot be encoded that stands after so many other characters. -/
def Garbled.error (text : Garbled) (offset : Nat) : EncodingError where
  position := offset + text.before.length
  first := text.first
  others := (text.after.takeWhile CodePoint.isSurrogate).length

def EncodingError.message (error : EncodingError) : String :=
  let place :=
    if error.others = 0 then
      " '\\u" ++ String.ofList (Quoted.hex 4 error.first.code) ++ "' in position "
        ++ toString error.position
    else
      "s in position " ++ toString error.position ++ "-"
        ++ toString (error.position + error.others)
  "'utf-8' codec can't encode character" ++ place ++ ": surrogates not allowed"

end ConsLisp.Text
