import ConsLisp.Environment
import ConsLisp.Value.List

/-!
# The machine

Evaluation works on an environment and an output, both of which keep what was done to them when it
fails.  A call brackets its body between pushing its frame and popping it again.
-/

namespace ConsLisp

structure Machine where
  environment : Environment
  output : String

/-- A computation on a machine, which ends in a value or an error. -/
abbrev Eval (α : Type) := ExceptT Error (StateM Machine) α

namespace Eval

variable {α : Type}

def run (action : Eval α) (machine : Machine) : Except Error α × Machine :=
  action machine

def ofExcept (result : Except Error α) : Eval α :=
  fun machine => (result, machine)

def fail (error : Error) : Eval α :=
  ofExcept (.error error)

/-- Adds a text to the output. -/
def write (text : String) : Eval Unit :=
  fun machine => (.ok (), { machine with output := machine.output ++ text })

def lookup? (name : String) : Eval (Option Value) :=
  fun machine => (.ok (machine.environment.lookup? name), machine)

def defineGlobal (name : String) (value : Value) : Eval Unit :=
  fun machine =>
    (.ok (), { machine with environment := machine.environment.defineGlobal name value })

/-- Does an action inside a new frame, which is gone afterwards. -/
def inFrame (frame : Frame) (action : Eval α) : Eval α :=
  fun machine =>
    let (result, after) := action { machine with environment := machine.environment.push frame }
    (result, { after with environment := after.environment.pop })

/-- Does an action in the environment that the innermost frame was called from.  Where there is no
frame but the globals, that is the environment itself. -/
def inCaller (action : Eval α) : Eval α :=
  fun machine =>
    match machine.environment.locals with
    | [] => action machine
    | frame :: outer =>
        let (result, after) :=
          action { machine with environment := ⟨outer, machine.environment.globals⟩ }
        (result, { after with environment := after.environment.push frame })

/-- The argument bound to a parameter's name. -/
def argument (name : String) : Eval Value := do
  match ← lookup? name with
  | some value => return value
  | none => fail (.scope (.notFound name))

end Eval

end ConsLisp
