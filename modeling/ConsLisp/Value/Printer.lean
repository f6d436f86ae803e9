import ConsLisp.Builtin
import ConsLisp.Number.Integer
import ConsLisp.Number.Numeral
import ConsLisp.Text.Quoted

/-!
# Printing

The text of a value as a program would write it, and the text meant for people, in which a string
has no quotes around it and a quoted value no tick.  Values nested deeper than a limit and numbers
with too many digits have no text.
-/

namespace ConsLisp

inductive PrintError where
  | tooDeep
  | tooManyDigits
  deriving DecidableEq

namespace Mode

/-- The marker that announces a mode in a parameter list. -/
def marker : Mode → String
  | .normal => "normal"
  | .plain => "&PLAIN"
  | .rest => "&REST"
  | .optional => "&OPTIONAL"

/-- The name of a mode. -/
def text : Mode → String
  | .normal => "NORMAL"
  | .plain => "PLAIN"
  | .rest => "REST"
  | .optional => "OPTIONAL"

end Mode

abbrev Printed := Except PrintError String

/-- A string between double quotes, with a backslash before every double quote and backslash. -/
def escapedString (text : String) : String :=
  String.ofList ('"' :: text.toList.flatMap escape ++ ['"'])
where
  escape (char : Char) : List Char :=
    if char = '"' || char = '\\' then ['\\', char] else [char]

namespace Parameter

def display (displayValue : Value → Printed) (parameter : Parameter) : Printed :=
  match parameter.mode with
  | .normal => return parameter.name
  | .optional => return "(" ++ parameter.name ++ " " ++ (← displayValue parameter.default) ++ ")"
  | .plain | .rest => return parameter.mode.marker ++ " " ++ parameter.name

/-- The parts of a printed parameter list.  The first optional parameter is announced by its
marker. -/
def displayParts (displayValue : Value → Printed) :
    Bool → List Parameter → Except PrintError (List String)
  | _, [] => return []
  | announced, parameter :: parameters => do
      let own ← parameter.display displayValue
      if parameter.mode = .optional && !announced then
        return Mode.optional.marker :: own :: (← displayParts displayValue true parameters)
      else
        return own :: (← displayParts displayValue announced parameters)

/-- A parameter list as a program would write it. -/
def displayList (displayValue : Value → Printed) (parameters : List Parameter) : Printed := do
  return "(" ++ " ".intercalate (← displayParts displayValue false parameters) ++ ")"

/-- A parameter by its mode and name. -/
def description (parameter : Parameter) : String :=
  "Parameter(" ++ parameter.mode.text ++ ", " ++ Text.quoted parameter.name ++ ")"

end Parameter

namespace Callable

/-- What a function is called in its printed form. -/
def title : Callable → String
  | .lambda none _ _ => "LAMBDA"
  | .lambda (some name) _ _ => "NAMED-LAMBDA " ++ name
  | .builtin operation => "BUILTIN " ++ operation.name

def display (displayValue : Value → Printed) (function : Callable) : Printed := do
  let parameters ← Parameter.displayList displayValue function.parameters
  return "#<FUNCTION (" ++ function.title ++ " " ++ parameters ++ ")>"

end Callable

namespace Value

def displayInteger (number : Int) : Printed :=
  match Number.integerText? number with
  | some text => return text
  | none => .error .tooManyDigits

/-- The text of a value nested at most `limit` deep, as a program would write it. -/
def display : Nat → Value → Printed
  | 0, _ => .error .tooDeep
  | limit + 1, value =>
      match value with
      | .nil => return "NIL"
      | .truth => return "T"
      | .integer number => displayInteger number
      | .float number => return Number.positionalFloatText number
      | .string text => return escapedString text
      | .symbol name => return name
      | .quoted inner => return "'" ++ (← display limit inner)
      | .list items terminator => do
          let inner := " ".intercalate (← items.mapM (display limit))
          if terminator.isNil then return "(" ++ inner ++ ")"
          else return "(" ++ inner ++ " . " ++ (← display limit terminator) ++ ")"
      | .callable function => function.display (display limit)

/-- The text of a value meant for people. -/
def princ (limit : Nat) : Value → Printed
  | .string text => return text
  | .quoted inner => display limit inner
  | value => display limit value

/-- The text of a value in which a symbol is told from other text. -/
def describe (limit : Nat) : Value → Printed
  | .symbol name => return "Symbol(" ++ Text.quoted name ++ ")"
  | value => display limit value

end Value

end ConsLisp
