import ConsLisp.Error

/-!
# Kinds of values

Functions ask for arguments of certain kinds and refuse all others.
-/

namespace ConsLisp

inductive Kind where
  | integer
  | float
  | string
  | symbol
  | list
  /-- A list with at least one item. -/
  | link
  /-- The bare end of a list. -/
  | bareEnd
  | quoted
  | callable
  | builtin
  deriving DecidableEq

/-- What a kind is called in messages. -/
def Kind.text : Kind → String
  | .integer => "int"
  | .float => "float"
  | .string => "str"
  | .symbol => "Symbol"
  | .list => "ConsList"
  | .link => "Cons"
  | .bareEnd => "EndsWith"
  | .quoted => "Quote"
  | .callable => "Lambda"
  | .builtin => "Builtin"

namespace Value

def isOf : Value → Kind → Bool
  | .integer _, .integer => true
  | .float _, .float => true
  | .string _, .string => true
  | .symbol _, .symbol => true
  | .list _ _, .list => true
  | .list items _, .link => !items.isEmpty
  | .list items _, .bareEnd => items.isEmpty
  | .quoted _, .quoted => true
  | .callable _, .callable => true
  | .callable (.builtin _), .builtin => true
  | _, _ => false

/-- Refuses a value that is of none of the kinds.  What was expected is described by `what`, or by
the kinds if that is empty. -/
def expect (limit : Nat) (kinds : List Kind) (what : String) (value : Value) :
    Except Error Value :=
  if kinds.any value.isOf then return value
  else
    let expected := if what.isEmpty then " or ".intercalate (kinds.map Kind.text) else what
    value.refuse limit (.expected expected)

/-- What a view shows of a value, which is refused if that is nothing. -/
def expectAs {α : Type} (limit : Nat) (view : Value → Option α) (what : String) (value : Value) :
    Except Error α :=
  match view value with
  | some seen => return seen
  | none => value.refuse limit (.expected what)

def symbol? : Value → Option String
  | .symbol name => some name
  | _ => none

/-- The items and the terminator of a list. -/
def list? : Value → Option (List Value × Value)
  | .list items terminator => some (items, terminator)
  | _ => none

def callable? : Value → Option Callable
  | .callable function => some function
  | _ => none

end Value

end ConsLisp
