import ConsLisp.Builtin
import ConsLisp.Error
import ConsLisp.Text.Uppercase

/-!
# Frames

A frame binds names to values and lists them in the order in which they were first bound.  Binding
a name again keeps its place; removing it and binding it anew moves it to the end.
-/

namespace ConsLisp

structure Frame where
  bindings : List (String × Value)

namespace Frame

def empty : Frame :=
  ⟨[]⟩

def get? (frame : Frame) (name : String) : Option Value :=
  frame.bindings.lookup name

def binds (frame : Frame) (name : String) : Bool :=
  (frame.get? name).isSome

def insertInto (name : String) (value : Value) : List (String × Value) → List (String × Value)
  | [] => [(name, value)]
  | (other, old) :: rest =>
      if other = name then (other, value) :: rest else (other, old) :: insertInto name value rest

def insert (frame : Frame) (name : String) (value : Value) : Frame :=
  ⟨insertInto name value frame.bindings⟩

def erase (frame : Frame) (name : String) : Frame :=
  ⟨frame.bindings.filter (·.1 ≠ name)⟩

/-- Binds every builtin to its name. -/
def register (frame : Frame) : Frame :=
  Builtin.catalogue.foldl (fun frame builtin => frame.insert builtin.name builtin.value) frame

/-- A frame that binds the builtins and nothing else. -/
def catalogue : Frame :=
  empty.register

/-- The names and values of a frame between braces. -/
def display (limit : Nat) (frame : Frame) : Except Error String := do
  let entries ← frame.bindings.mapM fun (name, value) =>
    return name ++ ": " ++ (← value.shown limit)
  return "\x7b" ++ ", ".intercalate entries ++ "\x7d"

/-- A frame and a hint that there are others around it. -/
def displayWithOuter (limit : Nat) (frame : Frame) (hasOuter : Bool) : Except Error String := do
  let own ← frame.display limit
  return if hasOuter then own ++ " -> ..." else own

/-- Frames from the inside to the outside. -/
def displayChain (limit : Nat) (frames : List Frame) : Except Error String := do
  return "<Environment chain: " ++ " -> ".intercalate (← frames.mapM (display limit)) ++ ">"

end Frame

/-- The name a value stands for when it is used as one. -/
def Value.asName (limit : Nat) : Value → Except Error String
  | .symbol name => return name
  | .string text => return Text.fold text
  | value => do throw (.scope (.notASymbol (← value.shown limit)))

end ConsLisp
