import ConsLisp.Error
import ConsLisp.Text.Uppercase
import ConsLisp.Value.List

/-!
# Reading one form

A form is read token by token.  What has been read of it is a stack of contexts, innermost first:
a quote waiting for its value, an open list with the items so far, or such a list after its dot.
Names are folded, `T` and `NIL` are the atoms of those names, and a list that holds nothing but one
list is that list.
-/

namespace ConsLisp

/-- The atom a token stands for. -/
def Token.atom? : Token → Option Value
  | .integer number => some (.integer number)
  | .float number => some (.float number)
  | .string text => some (.string text)
  | .symbol name =>
      let folded := Text.fold name
      if folded = "T" then some .truth
      else if folded = "NIL" then some .nil
      else some (.symbol folded)
  | .quote | .dot | .parenLeft | .parenRight => none

/-- The value of a closed list without a dot. -/
def Value.ofClosed : List Value → Value
  | [.list items terminator] => .list items terminator
  | items => .ofItems items .nil

namespace Reading

/-- What surrounds the form that is expected next.  Items are kept in reverse. -/
inductive Context where
  | quote
  | items (read : List Value)
  | terminator (read : List Value)

end Reading

inductive Reading where
  /-- A form may come next. -/
  | expecting (contexts : List Reading.Context)
  /-- Only the parenthesis that closes a dotted list may come next. -/
  | closing (read : List Value) (terminator : Value) (contexts : List Reading.Context)

namespace Reading

def start : Reading :=
  .expecting []

inductive Progress where
  | more (reading : Reading)
  | form (value : Value)

/-- Hands a complete form to what surrounds it. -/
def deliver (value : Value) : List Context → Progress
  | [] => .form value
  | .quote :: contexts => deliver (.quoted value) contexts
  | .items read :: contexts => .more (.expecting (.items (value :: read) :: contexts))
  | .terminator read :: contexts => .more (.closing read value contexts)

/-- Closes the list whose context is innermost. -/
def close? : List Context → Option Progress
  | .items read :: contexts => some (deliver (.ofClosed read.reverse) contexts)
  | _ => none

/-- Puts a dot into the list whose context is innermost, which must have an item. -/
def dot? : List Context → Option Progress
  | .items (item :: read) :: contexts =>
      some (.more (.expecting (.terminator (item :: read) :: contexts)))
  | _ => none

/-- What the next token does, unless the grammar forbids it. -/
def accept? (token : Token) : Reading → Option Progress
  | .expecting contexts =>
      match token with
      | .parenLeft => some (.more (.expecting (.items [] :: contexts)))
      | .quote => some (.more (.expecting (.quote :: contexts)))
      | .parenRight => close? contexts
      | .dot => dot? contexts
      | atom => atom.atom?.map (deliver · contexts)
  | .closing read terminator contexts =>
      match token with
      | .parenRight => some (deliver (.ofItems read.reverse terminator) contexts)
      | _ => none

def feed (reading : Reading) (token : Token) : Except ParseError Progress :=
  match reading.accept? token with
  | some progress => .ok progress
  | none => .error (.unexpectedToken token)

/-- Why the input may not end here. -/
def endError : Reading → ParseError
  | .expecting [] => .emptyInput
  | .expecting (.items _ :: _) => .unmatchedParens
  | .expecting (.quote :: _) => .unexpectedEnd
  | .expecting (.terminator _ :: _) => .unexpectedEnd
  | .closing _ _ _ => .unmatchedParens

/-- The number of contexts a reading is in. -/
def depth : Reading → Nat
  | .expecting contexts => contexts.length
  | .closing _ _ contexts => contexts.length

end Reading

end ConsLisp
