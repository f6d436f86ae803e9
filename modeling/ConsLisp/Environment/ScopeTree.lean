import ConsLisp.Environment.Frame

/-!
# Trees of scopes

Frames that know the frame around them.  Several frames may share an outer one, and there may be
several outermost ones.  Scopes are numbered in the order in which they are added, and a scope is
added after the one around it.
-/

namespace ConsLisp

structure Scope where
  frame : Frame
  outer : Option Nat

structure ScopeTree where
  scopes : List Scope

namespace ScopeTree

/-- One outermost scope without bindings. -/
def initial : ScopeTree :=
  ⟨[⟨.empty, none⟩]⟩

/-- Adds an empty scope and gives its number. -/
def add (tree : ScopeTree) (outer : Option Nat) : Nat × ScopeTree :=
  (tree.scopes.length, ⟨tree.scopes ++ [⟨.empty, outer⟩]⟩)

def outer? (tree : ScopeTree) (scope : Nat) : Option Nat :=
  (tree.scopes[scope]?).bind Scope.outer

def frame (tree : ScopeTree) (scope : Nat) : Frame :=
  ((tree.scopes[scope]?).map Scope.frame).getD .empty

/-- A scope and those around it, outward. -/
def chain (tree : ScopeTree) (scope : Nat) : List Nat :=
  match tree.outer? scope with
  | some outer => if outer < scope then scope :: chain tree outer else [scope]
  | none => [scope]
termination_by scope

/-- The outermost scope around a scope. -/
def root (tree : ScopeTree) (scope : Nat) : Nat :=
  (tree.chain scope).getLastD scope

def modify (tree : ScopeTree) (scope : Nat) (change : Frame → Frame) : ScopeTree :=
  ⟨tree.scopes.modify scope fun old => { old with frame := change old.frame }⟩

/-- Binds a name in a scope. -/
def define (tree : ScopeTree) (scope : Nat) (name : String) (value : Value) : ScopeTree :=
  tree.modify scope (·.insert name value)

/-- Binds names in a scope one after the other, up to the first value that is no name. -/
def update (limit : Nat) (tree : ScopeTree) (scope : Nat) :
    List (Value × Value) → Except Error Unit × ScopeTree
  | [] => (.ok (), tree)
  | (name, value) :: pairs =>
      match name.asName limit with
      | .ok name => update limit (tree.define scope name value) scope pairs
      | .error cause => (.error cause, tree)

/-- Binds a name in the outermost scope, after removing it from the scope at hand. -/
def defineGlobal (tree : ScopeTree) (scope : Nat) (name : String) (value : Value) : ScopeTree :=
  let removed := tree.modify scope (·.erase name)
  removed.define (removed.root scope) name value

/-- The nearest scope that binds a name. -/
def find? (tree : ScopeTree) (scope : Nat) (name : String) : Option Nat :=
  (tree.chain scope).find? fun scope => (tree.frame scope).binds name

/-- The value of a name in the nearest scope that binds it. -/
def lookup (tree : ScopeTree) (scope : Nat) (name : String) : Except Error Value :=
  match (tree.chain scope).findSome? fun scope => (tree.frame scope).get? name with
  | some value => .ok value
  | none => .error (.scope (.notFound name))

/-- Binds the builtins in a scope. -/
def register (tree : ScopeTree) (scope : Nat) : ScopeTree :=
  tree.modify scope Frame.register

def display (limit : Nat) (tree : ScopeTree) (scope : Nat) : Except Error String :=
  (tree.frame scope).displayWithOuter limit (tree.outer? scope).isSome

def displayChain (limit : Nat) (tree : ScopeTree) (scope : Nat) : Except Error String :=
  Frame.displayChain limit ((tree.chain scope).map tree.frame)

end ScopeTree

end ConsLisp
