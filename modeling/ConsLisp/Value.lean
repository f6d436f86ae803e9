/-!
# Values

Programs and data are the same trees.  A list is its items together with a terminator: a proper
list ends in NIL and a dotted one in another value.  Functions hold no environment, since free
variables are resolved along the chain of calls.
-/

namespace ConsLisp

/-- How an argument form reaches its parameter. -/
inductive Mode where
  /-- Evaluated where the call stands, then bound. -/
  | normal
  /-- Bound as the form it is. -/
  | plain
  /-- Bound to the list of all forms that are left. -/
  | rest
  /-- Bound as the form it is, or to a default when there is none. -/
  | optional
  deriving DecidableEq

/-- The functions every session starts with. -/
inductive Builtin where
  | add
  | subtract
  | multiply
  | divide
  | modulo
  | less
  | greater
  | equalNumbers
  | lessOrEqual
  | greaterOrEqual
  | isSymbol
  | isNumber
  | isString
  | isList
  | isAtom
  | isNull
  | equal
  | not
  | and
  | or
  | cons
  | car
  | cdr
  | list
  | quote
  | cond
  | setq
  | defun
  | lambda
  | funcall
  | print
  | princ
  | terpri
  deriving DecidableEq

mutual
inductive Value where
  | nil
  | truth
  | integer (number : Int)
  | float (number : Float)
  | string (text : String)
  /-- A name, which is always folded. -/
  | symbol (name : String)
  /-- A value held back from evaluation. -/
  | quoted (value : Value)
  /-- Items in order and a terminator.  Without items it is the bare end of a list. -/
  | list (items : List Value) (terminator : Value)
  | callable (callable : Callable)

/-- What can be called. -/
inductive Callable where
  /-- A user function, with a name if it was defined under one. -/
  | lambda (name : Option String) (parameters : List Parameter) (body : Value)
  | builtin (builtin : Builtin)

structure Parameter where
  mode : Mode
  name : String
  default : Value
end

instance : Inhabited Value :=
  ⟨.nil⟩

namespace Value

/-- The truth value of a test. -/
def ofBool (flag : Bool) : Value :=
  if flag then .truth else .nil

def isNil : Value → Bool
  | .nil => true
  | _ => false

/-- Everything but NIL counts as true. -/
def isTrue (value : Value) : Bool :=
  !value.isNil

end Value

end ConsLisp
