import ConsLisp.Number.Numeral
import ConsLisp.Text.Quoted

/-!
# Tokens

The smallest pieces of a source text.  Names keep their case here; they are folded when a form is
built from them.
-/

namespace ConsLisp

inductive Token where
  | integer (number : Int)
  | float (number : Float)
  | symbol (name : String)
  | string (text : String)
  | quote
  | dot
  | parenLeft
  | parenRight

/-- The name of a token's kind. -/
def Token.kind : Token → String
  | .integer _ => "INTEGER"
  | .float _ => "FLOAT"
  | .symbol _ => "SYMBOL"
  | .string _ => "STRING"
  | .quote => "QUOTE"
  | .dot => "DOT"
  | .parenLeft => "PAREN_LEFT"
  | .parenRight => "PAREN_RIGHT"

/-- What a token holds besides its kind, as shown in messages. -/
def Token.content? : Token → Option String
  | .integer number => some (toString number)
  | .float number => some (Number.floatText number)
  | .symbol name => some (Text.quoted name)
  | .string text => some (Text.quoted text)
  | _ => none

/-- A token as shown in messages: its kind, with its content in parentheses. -/
def Token.text (token : Token) : String :=
  match token.content? with
  | some content => token.kind ++ "(" ++ content ++ ")"
  | none => token.kind

end ConsLisp
