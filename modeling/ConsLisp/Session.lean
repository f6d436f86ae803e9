import ConsLisp.Evaluation
import ConsLisp.Form.Stream

/-!
# Sessions

A source is run form by form: each form is evaluated before the next one is read.  A session keeps
its global bindings from one source to the next.
-/

namespace ConsLisp

section

variable {σ : Type} [TokenSource σ]

/-- Whether an error of reading ends a source quietly: running out of input always does, and any
other error of the grammar does unless reading is strict. -/
def stopsReading (strict : Bool) : Error → Bool
  | .parse .emptyInput => true
  | .parse _ => !strict
  | _ => false

/-- Runs the forms that are left; `value` is that of the last one so far. -/
def runForms (limit : Nat) (strict : Bool) (value : Value) (source : σ) : Eval Value :=
  match _step : Form.read limit source with
  | (.ok form, rest) => do
      let value ← evaluate limit form
      runForms limit strict value rest
  | (.error cause, _) => if stopsReading strict cause then return value else Eval.fail cause
termination_by TokenSource.remaining source
decreasing_by exact Form.remaining_of_read _step

end

/-- Runs a source for the value of its last form, which is NIL if there is none. -/
def interpret (limit bufferSize : Nat) (strict : Bool) (source : Source) : Eval Value :=
  match source with
  | .unreadable kind => Eval.fail (.unreadable kind)
  | _ => runForms limit strict .nil (Lexer.ofSource bufferSize source)

structure Session where
  environment : Environment := .initial
  limit : Nat := defaultLimit
  /-- How much is asked for in one read, unless the setting for it is unusable. -/
  bufferSize : Except Error Nat := .ok Source.defaultBufferSize

namespace Session

/-- What came of running a source. -/
structure Outcome where
  result : Except Error Value
  output : String
  session : Session

/-- Runs a source on the bindings of a session. -/
def eval (session : Session) (source : Source) (strict : Bool) : Outcome :=
  match session.bufferSize with
  | .error cause => ⟨.error cause, "", session⟩
  | .ok size =>
      let (result, machine) :=
        (interpret session.limit size strict source).run ⟨session.environment, ""⟩
      ⟨result, machine.output, { session with environment := machine.environment }⟩

/-- Runs the contents of a file, in which errors of the grammar are not tolerated. -/
def load (session : Session) (content : List UInt8) : Outcome :=
  session.eval (.bytes content) true

/-- A new session that has run a prelude, unless that is empty. -/
def start (opening : Option Source) : Outcome :=
  match opening with
  | none => ⟨.ok .nil, "", {}⟩
  | some source => if source.isEmpty then ⟨.ok .nil, "", {}⟩ else eval {} source true

def lookup (session : Session) (name : String) : Except Error Value :=
  let folded := Text.fold name
  match session.environment.lookup? folded with
  | some value => .ok value
  | none => .error (.scope (.notFound folded))

def contains (session : Session) (name : String) : Bool :=
  session.environment.contains (Text.fold name)

def isOwnBuiltin (name : String) : Value → Bool
  | .callable (.builtin operation) => operation.name = name
  | _ => false

/-- The global bindings except builtins under their own names, in order. -/
def definitions (session : Session) : List (String × Value) :=
  session.environment.globals.bindings.filter fun (name, value) => !isOwnBuiltin name value

end Session

end ConsLisp
