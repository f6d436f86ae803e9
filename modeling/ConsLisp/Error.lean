import ConsLisp.Text.Surrogate
import ConsLisp.Token.Lexer
import ConsLisp.Value.Equality
import ConsLisp.Value.Printer

/-!
# Errors

What can go wrong, by cause.  Errors of the language are reported to its user and leave a session
usable; the others end the program.
-/

namespace ConsLisp

/-- The tokens do not form an expression. -/
inductive ParseError where
  | emptyInput
  | unexpectedToken (token : Token)
  | unexpectedEnd
  | unmatchedParens

/-- A name cannot be resolved or used. -/
inductive ScopeError where
  | notFound (name : String)
  | notASymbol (text : String)
  deriving DecidableEq

/-- A value of the wrong kind was supplied.  Values are kept as their texts. -/
inductive Mismatch where
  | expected (what got : String)
  | parameterList (got : String)
  | danglingMarker (marker form : String)
  | parameterName (got : String)
  | optionalParameter (got : String)
  | invalidParameters (form : String)
  deriving DecidableEq

/-- What was going on when something was nested too deeply. -/
inductive Activity where
  | reading
  | printing
  | comparing
  | evaluating
  deriving DecidableEq

inductive EvaluationError where
  | unboundVariable (name : String)
  | argumentCount (expected actual : Nat)
  | illegalCall (function arguments : String)
  | mismatch (cause : Mismatch)
  | divisionByZero (dividend : String)
  | tooDeep (activity : Activity)
  deriving DecidableEq

/-- A number outside of what the arithmetic can represent. -/
inductive NumericError where
  | floatRange
  | remainderDomain
  | tooManyDigits
  deriving DecidableEq

/-- A function was run on arguments that no call would give it. -/
inductive ArgumentDefect where
  | missingForm
  | notAList (name : String)
  deriving DecidableEq

/-- A setting cannot be used. -/
inductive SettingError where
  /-- A setting that should be a number has another text. -/
  | notAnInteger (name text : String)
  | depthTooLarge
  | sizeTooLarge
  deriving DecidableEq

/-- A path names no place where a file could be. -/
inductive PathError where
  | missing
  | nullCharacter
  deriving DecidableEq

inductive Error where
  | lexical (cause : LexicalError)
  | parse (cause : ParseError)
  | scope (cause : ScopeError)
  | evaluation (cause : EvaluationError)
  | numeric (cause : NumericError)
  | unreadable (kind : String)
  | argument (cause : ArgumentDefect)
  | setting (cause : SettingError)
  | path (cause : PathError)
  | encoding (cause : Text.EncodingError)

def ParseError.message : ParseError → String
  | .emptyInput => "Input is empty"
  | .unexpectedToken token => "Unexpected token " ++ token.text
  | .unexpectedEnd => "Unexpected EOF"
  | .unmatchedParens => "No matching parenthesis found"

def ScopeError.message : ScopeError → String
  | .notFound name => "Symbol \"" ++ name ++ "\" not found"
  | .notASymbol text => text ++ " is not a symbol"

def Mismatch.message : Mismatch → String
  | .expected what got => "Expected " ++ what ++ ", got " ++ got
  | .parameterList got => "Parameter list must be a list, got " ++ got
  | .danglingMarker marker form => "Dangling " ++ marker ++ " in " ++ form
  | .parameterName got => "Parameter name must be a symbol, got " ++ got
  | .optionalParameter got => "Malformed optional parameter " ++ got
  | .invalidParameters form => "Invalid parameter list " ++ form

def Activity.message : Activity → String
  | .reading => "Form nested too deeply to read"
  | .printing => "Value nested too deeply to print"
  | .comparing => "Lists nested too deeply to compare"
  | .evaluating => "Maximum recursion depth exceeded"

def EvaluationError.message : EvaluationError → String
  | .unboundVariable name => "Unbound variable " ++ name
  | .argumentCount expected actual =>
      "Unmatched number of parameters, expecting " ++ toString expected ++ " but got "
        ++ toString actual
  | .illegalCall function arguments =>
      "Illegal function call: " ++ function ++ " applied to " ++ arguments
  | .mismatch cause => cause.message
  | .divisionByZero dividend => "Division of " ++ dividend ++ " by zero"
  | .tooDeep activity => activity.message

def NumericError.message : NumericError → String
  | .floatRange => "int too large to convert to float"
  | .remainderDomain => "math domain error"
  | .tooManyDigits =>
      "Exceeds the limit (" ++ toString Number.digitLimit ++ " digits) for integer string "
        ++ "conversion; use sys.set_int_max_str_digits() to increase the limit"

def ArgumentDefect.message : ArgumentDefect → String
  | .missingForm => "list index out of range"
  | .notAList name => "Argument " ++ name ++ " is not a list"

def SettingError.message : SettingError → String
  | .notAnInteger name text => name ++ " must be an integer, got " ++ Text.quoted text
  | .depthTooLarge => "Python int too large to convert to C int"
  | .sizeTooLarge => "cannot fit 'int' into an index-sized integer"

def PathError.message : PathError → String
  | .missing => "expected str, bytes or os.PathLike object, not list"
  | .nullCharacter => "embedded null byte"

def Error.message : Error → String
  | .lexical cause => cause.message
  | .parse cause => cause.message
  | .scope cause => cause.message
  | .evaluation cause => cause.message
  | .numeric cause => cause.message
  | .unreadable kind => "Cannot read tokens from " ++ kind
  | .argument cause => cause.message
  | .setting cause => cause.message
  | .path cause => cause.message
  | .encoding cause => cause.message

/-- Whether an error is one of the language, which its user is told about. -/
def Error.isReported : Error → Bool
  | .lexical _ | .parse _ | .scope _ | .evaluation _ => true
  | .numeric _ | .unreadable _ | .argument _ | .setting _ | .path _ | .encoding _ => false

def Error.tooDeep (activity : Activity) : Error :=
  .evaluation (.tooDeep activity)

def Error.mismatch (cause : Mismatch) : Error :=
  .evaluation (.mismatch cause)

def PrintError.toError : PrintError → Error
  | .tooDeep => .tooDeep .printing
  | .tooManyDigits => .numeric .tooManyDigits

def ComparisonError.toError : ComparisonError → Error
  | .insideList => .tooDeep .comparing
  | .outsideLists => .tooDeep .evaluating

namespace Value

/-- The text of a value, where failing to print is an error like any other. -/
def shown (limit : Nat) (value : Value) : Except Error String :=
  (value.display limit).mapError PrintError.toError

/-- Refuses a value of the wrong kind. -/
def refuse {α : Type} (limit : Nat) (cause : String → Mismatch) (value : Value) :
    Except Error α := do
  throw (.mismatch (cause (← value.shown limit)))

end Value

end ConsLisp
