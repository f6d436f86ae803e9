import ConsLisp.Number.Literal
import ConsLisp.Token
import ConsLisp.Token.Scan
import ConsLisp.Token.Source

/-!
# Tokens of a source

A lexer holds the bytes read but not yet used and the reads still to come.  It reads only when the
bytes at hand do not complete a token, and an error uses up what led to it, so that the tokens
after it can still be had.
-/

namespace ConsLisp

inductive LexicalError where
  | malformedNumber (literal : String)
  | unterminatedString (pending : String)
  | readFailure (reason : String)
  deriving DecidableEq

def LexicalError.message : LexicalError → String
  | .malformedNumber literal => "Malformed number " ++ Text.quoted literal
  | .unterminatedString pending => "Unterminated string " ++ pending
  | .readFailure reason => "Failed to read source: " ++ reason

namespace Token

/-- Whether a byte may occur in a number. -/
def isNumeric (char : Char) : Bool :=
  Number.isDigit char || char = '-' || char = '.'

/-- The token of a word without escapes.  A word of digits, signs and points that holds a digit is
a number or an error. -/
def classify (word : List UInt8) : Except LexicalError Token :=
  let chars := word.map fun byte => Char.ofNat byte.toNat
  if chars = ['.'] then .ok .dot
  else if chars.all isNumeric && chars.any Number.isDigit then
    let malformed := Except.error (.malformedNumber (String.ofList chars))
    if chars.contains '.' then
      match Number.Literal.float? chars with
      | some number => .ok (.float number)
      | none => malformed
    else
      match Number.Literal.integer? chars with
      | some number => .ok (.integer number)
      | none => malformed
  else .ok (.symbol (Text.Utf8.decode word))

def ofLexeme : Lexeme UInt8 → Except LexicalError Token
  | .parenLeft => .ok .parenLeft
  | .parenRight => .ok .parenRight
  | .tick => .ok .quote
  | .string content => .ok (.string (Text.Utf8.decode content))
  | .escapedWord word => .ok (.symbol (Text.Utf8.decode word))
  | .word word => classify word

end Token

structure Lexer where
  buffer : List UInt8
  reads : List Chunk

namespace Lexer

def ofSource (size : Nat) (source : Source) : Lexer :=
  ⟨[], source.reads size⟩

def ofText (text : String) : Lexer :=
  ofSource Source.defaultBufferSize (.text text)

/-- What a step gives: a token, nothing at the end of the source, or an error. -/
abbrev Found := Except LexicalError (Option Token)

def ending (scan : Scan UInt8) : Found :=
  match scan.ending with
  | .nothing => .ok none
  | .lexeme lexeme => (Token.ofLexeme lexeme).map some
  | .unterminated pending => .error (.unterminatedString (Text.Utf8.decode pending))

/-- Goes on with a scan when the buffer is used up. -/
def refill (scan : Scan UInt8) : List Chunk → Found × Lexer
  | [] => (ending scan, ⟨[], []⟩)
  | .interrupted :: reads => refill scan reads
  | .failure reason :: reads => (.error (.readFailure reason), ⟨[], reads⟩)
  | .bytes bytes :: reads =>
      if bytes.isEmpty then (ending scan, ⟨[], []⟩)
      else
        match scan.run Role.ofByte bytes with
        | .found lexeme rest => ((Token.ofLexeme lexeme).map some, ⟨rest, reads⟩)
        | .unfinished scan => refill scan reads

/-- The next token, and the lexer after it. -/
def next (lexer : Lexer) : Found × Lexer :=
  match Scan.start.run Role.ofByte lexer.buffer with
  | .found lexeme rest => ((Token.ofLexeme lexeme).map some, ⟨rest, lexer.reads⟩)
  | .unfinished scan => refill scan lexer.reads

end Lexer

end ConsLisp
