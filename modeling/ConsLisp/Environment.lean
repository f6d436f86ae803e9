import ConsLisp.Environment.Frame

/-!
# Environments

An environment is a chain of frames: those of the calls in progress, innermost first, and the
globals around them.  A call looks up what it does not bind itself in the environment it was made
from.
-/

namespace ConsLisp

structure Environment where
  locals : List Frame
  globals : Frame

namespace Environment

/-- The environment every session starts in. -/
def initial : Environment :=
  ⟨[], .catalogue⟩

def frames (environment : Environment) : List Frame :=
  environment.locals ++ [environment.globals]

/-- The value of a name in the nearest frame that binds it. -/
def lookup? (environment : Environment) (name : String) : Option Value :=
  (environment.locals.findSome? (·.get? name)).or (environment.globals.get? name)

def contains (environment : Environment) (name : String) : Bool :=
  (environment.lookup? name).isSome

/-- Binds a name globally.  The innermost frame loses its own binding of it, so that the new value
is visible from there; frames in between keep theirs. -/
def defineGlobal (environment : Environment) (name : String) (value : Value) : Environment :=
  match environment.locals with
  | [] => ⟨[], (environment.globals.erase name).insert name value⟩
  | inner :: outer => ⟨inner.erase name :: outer, environment.globals.insert name value⟩

/-- Binds a name in the innermost frame. -/
def define (environment : Environment) (name : String) (value : Value) : Environment :=
  match environment.locals with
  | [] => ⟨[], environment.globals.insert name value⟩
  | inner :: outer => ⟨inner.insert name value :: outer, environment.globals⟩

def push (environment : Environment) (frame : Frame) : Environment :=
  ⟨frame :: environment.locals, environment.globals⟩

/-- The environment without its innermost frame, which the globals never are. -/
def pop (environment : Environment) : Environment :=
  ⟨environment.locals.tail, environment.globals⟩

end Environment

end ConsLisp
