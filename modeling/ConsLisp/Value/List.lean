import ConsLisp.Value

/-!
# Lists

Building lists and taking them apart.  The rest of a list whose only item has been removed is its
terminator itself, so consing onto a list extends it and consing onto anything else makes that the
terminator.
-/

namespace ConsLisp.Value

/-- Puts a value in front of a list, or pairs it with anything else. -/
def cons (head : Value) : Value → Value
  | .list items terminator => .list (head :: items) terminator
  | terminator => .list [head] terminator

/-- Puts items in front of a value; no items leave it as it is. -/
def ofItems (items : List Value) (terminator : Value) : Value :=
  items.foldr cons terminator

/-- The first item of a list and what remains without it.  The bare end of a list gives its
terminator. -/
def unpack : List Value → Value → Value × Value
  | [], terminator => (terminator, .nil)
  | [head], terminator => (head, terminator)
  | head :: rest, terminator => (head, .list rest terminator)

def car (items : List Value) (terminator : Value) : Value :=
  (unpack items terminator).1

def cdr (items : List Value) (terminator : Value) : Value :=
  (unpack items terminator).2

/-- The items of a list, followed by the terminator unless that is NIL. -/
def elements (items : List Value) (terminator : Value) : List Value :=
  if terminator.isNil then items else items ++ [terminator]

/-- The number of elements of a list. -/
def length (items : List Value) (terminator : Value) : Nat :=
  if terminator.isNil then items.length else items.length + 1

/-- Whether a list is the bare end of a proper list. -/
def isEmpty (items : List Value) (terminator : Value) : Bool :=
  items.isEmpty && terminator.isNil

/-- The elements of a value that can be walked.  NIL has none, and a string is walked character by
character. -/
def walk? : Value → Option (List Value)
  | .nil => some []
  | .list items terminator => some (elements items terminator)
  | .string text => some (text.toList.map fun char => .string (String.singleton char))
  | _ => none

end ConsLisp.Value
