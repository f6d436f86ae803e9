import ConsLisp.Proofs.Environment.Events

/-!
# Scopes and their history

What a tree of scopes binds can be told from what has been done to it, with no bindings kept.
-/

namespace ConsLisp

namespace Value

/-- The name a value stands for when it is used as one, if it can be. -/
def name? : Value → Option String
  | .symbol name => some name
  | .string text => some (Text.fold text)
  | _ => none

/-- Why a value cannot be used as a name: it is none, and if it cannot even be printed, then that is
the reason. -/
def nameError (limit : Nat) (value : Value) : Error :=
  match value.shown limit with
  | .ok text => .scope (.notASymbol text)
  | .error cause => cause

theorem asName_of_some {value : Value} {name : String} (named : value.name? = some name)
    (limit : Nat) : value.asName limit = .ok name := by
  cases value with
  | symbol text =>
      cases named
      rfl
  | string text =>
      cases named
      rfl
  | _ => cases named

theorem asName_of_none {value : Value} (unnamed : value.name? = none) (limit : Nat) :
    value.asName limit = .error (value.nameError limit) := by
  have refused : value.asName limit =
      (value.shown limit >>= fun text => .error (.scope (.notASymbol text))) := by
    cases value with
    | symbol text => cases unnamed
    | string text => cases unnamed
    | _ => rfl
  rw [refused, nameError]
  cases value.shown limit with
  | ok text => rfl
  | error cause => rfl

end Value

namespace ScopeTree

/-! ## What can be done to a tree -/

/-- A use of a tree that changes it.  Names are given as values. -/
inductive Operation where
  | add (outer : Option Nat)
  | define (scope : Nat) (name value : Value)
  | update (scope : Nat) (pairs : List (Value × Value))
  | defineGlobal (scope : Nat) (name value : Value)

/-- Changes a tree under a name, unless the value given for that is none. -/
def changeAs (limit : Nat) (tree : ScopeTree) (name : Value) (change : String → ScopeTree) :
    Except Error Unit × ScopeTree :=
  match name.asName limit with
  | .ok name => (.ok (), change name)
  | .error cause => (.error cause, tree)

def perform (limit : Nat) (tree : ScopeTree) : Operation → Except Error Unit × ScopeTree
  | .add outer => (.ok (), (tree.add outer).2)
  | .define scope name value => tree.changeAs limit name (tree.define scope · value)
  | .update scope pairs => tree.update limit scope pairs
  | .defineGlobal scope name value => tree.changeAs limit name (tree.defineGlobal scope · value)

def findAs (limit : Nat) (tree : ScopeTree) (scope : Nat) (name : Value) :
    Except Error (Option Nat) :=
  (name.asName limit).map (tree.find? scope)

def containsAs (limit : Nat) (tree : ScopeTree) (scope : Nat) (name : Value) :
    Except Error Bool :=
  (tree.findAs limit scope name).map Option.isSome

def lookupAs (limit : Nat) (tree : ScopeTree) (scope : Nat) (name : Value) : Except Error Value :=
  name.asName limit >>= tree.lookup scope

/-- Whether an operation is on scopes among the first `count`. -/
def Operation.Within (count : Nat) : Operation → Prop
  | .add outer => ∀ scope ∈ outer, scope < count
  | .define scope _ _ | .update scope _ | .defineGlobal scope _ _ => scope < count

/-- Whether all names that an operation is given are such. -/
def Operation.Named : Operation → Prop
  | .add _ => True
  | .define _ name _ | .defineGlobal _ name _ => name.name?.isSome = true
  | .update _ pairs => ∀ pair ∈ pairs, pair.1.name?.isSome = true

/-- A tree that operations have made out of nothing, one after the other and each on scopes that
were there. -/
inductive Built (limit : Nat) : List Operation → ScopeTree → Prop where
  | nothing : Built limit [] ⟨[]⟩
  | next {history : List Operation} {tree : ScopeTree} {operation : Operation}
      (before : Built limit history tree) (within : operation.Within tree.scopes.length) :
      Built limit (history ++ [operation]) (tree.perform limit operation).2

/-! ## Operations as events -/

/-- The definitions that pairs amount to, up to the first value that is no name. -/
def definitions (scope : Nat) : List (Value × Value) → List Event
  | [] => []
  | (name, value) :: pairs =>
      match name.name? with
      | some name => .define scope name value :: definitions scope pairs
      | none => []

def Operation.events : Operation → List Event
  | .add _ => []
  | .define scope name value => (name.name?.map (.define scope · value)).toList
  | .update scope pairs => definitions scope pairs
  | .defineGlobal scope name value => (name.name?.map (.defineGlobal scope · value)).toList

/-- The scope that an operation adds is inside this one, if it adds one. -/
def Operation.outer? : Operation → Option (Option Nat)
  | .add outer => some outer
  | _ => none

/-- The tree that the events of an operation are applied to. -/
def Operation.grow (tree : ScopeTree) : Operation → ScopeTree
  | .add outer => (tree.add outer).2
  | _ => tree

theorem update_eq (limit : Nat) (tree : ScopeTree) (scope : Nat) (pairs : List (Value × Value)) :
    (tree.update limit scope pairs).2 = (definitions scope pairs).foldl Event.apply tree := by
  induction pairs generalizing tree with
  | nil => rfl
  | cons pair pairs ih =>
      obtain ⟨name, value⟩ := pair
      cases named : name.name? with
      | none => simp [update, definitions, Value.asName_of_none named, named]
      | some key =>
          simp only [update, definitions, Value.asName_of_some named, named, List.foldl_cons]
          exact ih _

theorem perform_eq (limit : Nat) (tree : ScopeTree) (operation : Operation) :
    (tree.perform limit operation).2 =
      operation.events.foldl Event.apply (operation.grow tree) := by
  cases operation with
  | add outer => rfl
  | update scope pairs => exact update_eq limit tree scope pairs
  | define scope name value =>
      cases named : name.name? with
      | none =>
          simp [perform, changeAs, Operation.events, Operation.grow,
            Value.asName_of_none named, named]
      | some key =>
          simp [perform, changeAs, Operation.events, Operation.grow, Event.apply,
            Value.asName_of_some named, named]
  | defineGlobal scope name value =>
      cases named : name.name? with
      | none =>
          simp [perform, changeAs, Operation.events, Operation.grow,
            Value.asName_of_none named, named]
      | some key =>
          simp [perform, changeAs, Operation.events, Operation.grow, Event.apply,
            Value.asName_of_some named, named]

theorem scope_of_mem_definitions {scope : Nat} {pairs : List (Value × Value)} {event : Event}
    (member : event ∈ definitions scope pairs) : event.scope = scope := by
  induction pairs with
  | nil => cases member
  | cons pair pairs ih =>
      obtain ⟨name, value⟩ := pair
      rw [definitions] at member
      split at member
      next key _ =>
          rcases List.mem_cons.mp member with rfl | later
          · rfl
          · exact ih later
      next => cases member

/-- The events of an operation are in a scope that was there. -/
theorem Operation.scope_lt {count : Nat} {operation : Operation} (within : operation.Within count)
    {event : Event} (member : event ∈ operation.events) : event.scope < count := by
  cases operation with
  | add outer => cases member
  | update scope pairs =>
      rw [scope_of_mem_definitions member]
      exact within
  | define scope name value =>
      obtain ⟨key, _, rfl⟩ := Option.map_eq_some_iff.mp (Option.mem_toList.mp member)
      exact within
  | defineGlobal scope name value =>
      obtain ⟨key, _, rfl⟩ := Option.map_eq_some_iff.mp (Option.mem_toList.mp member)
      exact within

/-! ## Trees from events -/

namespace Event

variable (tree : ScopeTree) (event : Event)

@[simp] theorem outers_apply : (event.apply tree).outers = tree.outers := by
  cases event <;> simp [apply, ScopeTree.define, ScopeTree.defineGlobal]

/-- An event changes the frame of every scope as it should. -/
theorem frame_apply (present : event.scope < tree.scopes.length) (scope : Nat) :
    (event.apply tree).frame scope = event.change tree.root scope (tree.frame scope) := by
  cases event with
  | define own name value => exact frame_modify tree _ present scope
  | defineGlobal own name value =>
      have here : own < tree.scopes.length := present
      have outermost : tree.root own < (tree.modify own (·.erase name)).scopes.length := by
        rw [← length_outers, outers_modify, length_outers]
        exact Nat.lt_of_le_of_lt (tree.root_le own) here
      have same : (tree.modify own (·.erase name)).root = tree.root :=
        root_of_outers (outers_modify tree own _)
      simp only [apply, ScopeTree.defineGlobal, ScopeTree.define, same]
      rw [frame_modify _ _ outermost, frame_modify tree _ here]
      rfl

end Event

/-- Events change the frame of every scope one after the other. -/
theorem frame_foldl_apply {tree : ScopeTree} {events : List Event}
    (present : ∀ event ∈ events, event.scope < tree.scopes.length) (scope : Nat) :
    (events.foldl Event.apply tree).frame scope =
      replay tree.root scope events (tree.frame scope) := by
  induction events generalizing tree with
  | nil => rfl
  | cons event events ih =>
      have shape := Event.outers_apply tree event
      have later : ∀ other ∈ events, other.scope < (event.apply tree).scopes.length := by
        intro other member
        rw [← length_outers, shape, length_outers]
        exact present other (List.mem_cons_of_mem event member)
      rw [List.foldl_cons, ih later, root_of_outers shape,
        Event.frame_apply tree event (present event List.mem_cons_self)]
      rfl

/-- Events leave the shape of a tree as it is. -/
theorem outers_foldl_apply (tree : ScopeTree) (events : List Event) :
    (events.foldl Event.apply tree).outers = tree.outers := by
  induction events generalizing tree with
  | nil => rfl
  | cons event events ih => rw [List.foldl_cons, ih, Event.outers_apply]

theorem outers_perform (limit : Nat) (tree : ScopeTree) (operation : Operation) :
    (tree.perform limit operation).2.outers = tree.outers ++ operation.outer?.toList := by
  rw [perform_eq, outers_foldl_apply]
  cases operation with
  | add outer => exact outers_add tree outer
  | _ => exact (List.append_nil _).symm

theorem root_perform (limit : Nat) {tree : ScopeTree} (operation : Operation) {scope : Nat}
    (old : scope < tree.scopes.length) :
    (tree.perform limit operation).2.root scope = tree.root scope := by
  rw [perform_eq, root_of_outers (outers_foldl_apply _ _)]
  cases operation with
  | add outer => exact root_add tree outer old
  | _ => rfl

/-- An operation replays its events on the frame of every scope. -/
theorem frame_perform (limit : Nat) {tree : ScopeTree} {operation : Operation}
    (within : operation.Within tree.scopes.length) (scope : Nat) :
    (tree.perform limit operation).2.frame scope =
      replay tree.root scope operation.events (tree.frame scope) := by
  rw [perform_eq]
  cases operation with
  | add outer => exact frame_add tree outer scope
  | _ => exact frame_foldl_apply (fun event member => Operation.scope_lt within member) scope

theorem replay_congr {root other : Nat → Nat} {events : List Event}
    (same : ∀ event ∈ events, root event.scope = other event.scope) (scope : Nat) (frame : Frame) :
    replay root scope events frame = replay other scope events frame := by
  induction events generalizing frame with
  | nil => rfl
  | cons event events ih =>
      have changed : event.change root scope frame = event.change other scope frame := by
        have equal := same event List.mem_cons_self
        cases event with
        | define own name value => rfl
        | defineGlobal own name value =>
            have roots : root own = other own := equal
            simp only [Event.change, roots]
      rw [replay, List.foldl_cons, changed]
      exact ih (fun other member => same other (List.mem_cons_of_mem event member)) _

/-! ## Trees from their history -/

namespace Built

variable {limit : Nat} {history : List Operation} {tree : ScopeTree}

theorem outers_eq (built : Built limit history tree) :
    tree.outers = history.filterMap Operation.outer? := by
  induction built with
  | nothing => rfl
  | @next history tree operation before within ih =>
      rw [outers_perform, ih, List.filterMap_append]
      cases operation <;> rfl

theorem scope_lt (built : Built limit history tree) :
    ∀ event ∈ history.flatMap Operation.events, event.scope < tree.scopes.length := by
  induction built with
  | nothing => exact nofun
  | @next history tree operation before within ih =>
      intro event member
      rw [← length_outers, outers_perform, List.length_append, length_outers]
      rw [List.flatMap_append, List.mem_append, List.flatMap_singleton] at member
      rcases member with earlier | own
      · exact Nat.lt_add_right _ (ih event earlier)
      · exact Nat.lt_add_right _ (Operation.scope_lt within own)

/-- Whether an operation can come next is told by the history alone. -/
theorem after (built : Built limit history tree) {operation : Operation}
    (within : operation.Within (history.filterMap Operation.outer?).length) :
    Built limit (history ++ [operation]) (tree.perform limit operation).2 := by
  rw [← built.outers_eq, length_outers] at within
  exact built.next within

/-- The frame of every scope is what the events of the history make of an empty one. -/
theorem frame_eq (built : Built limit history tree) (scope : Nat) :
    tree.frame scope =
      replay tree.root scope (history.flatMap Operation.events) .empty := by
  induction built with
  | nothing => rfl
  | @next history tree operation before within ih =>
      have earlier : ∀ event ∈ history.flatMap Operation.events ++ operation.events,
          (tree.perform limit operation).2.root event.scope = tree.root event.scope := by
        intro event member
        refine root_perform limit operation ?_
        rcases List.mem_append.mp member with old | own
        · exact before.scope_lt event old
        · exact Operation.scope_lt within own
      rw [List.flatMap_append, List.flatMap_singleton, replay_congr earlier,
        frame_perform limit within, ih, replay, replay, replay, List.foldl_append]

/-- A scope was added after the one around it. -/
theorem outer_lt (built : Built limit history tree) {scope outer : Nat}
    (inside : tree.outer? scope = some outer) : outer < scope := by
  induction built generalizing scope with
  | nothing => cases inside
  | @next history tree operation before within ih =>
      rw [outer?_eq, outers_perform] at inside
      rcases Nat.lt_or_ge scope tree.outers.length with old | new
      · rw [List.getElem?_append_left old, ← outer?_eq] at inside
        exact ih inside
      · rw [List.getElem?_append_right new] at inside
        cases operation with
        | add around =>
            cases place : scope - tree.outers.length with
            | zero =>
                rw [place] at inside
                have present := within outer inside
                rw [length_outers] at new
                exact Nat.lt_of_lt_of_le present new
            | succ beyond =>
                rw [place] at inside
                cases inside
        | _ => cases inside

theorem chain_eq (built : Built limit history tree) (scope : Nat) :
    tree.chain scope =
      scope :: match tree.outer? scope with
        | some outer => tree.chain outer
        | none => [] := by
  rw [chain]
  cases inside : tree.outer? scope with
  | none => rfl
  | some outer => simp only [if_pos (built.outer_lt inside)]

end Built

/-! ## Finding names -/

section

variable {tree : ScopeTree} {scope : Nat} {name : String}

theorem find?_eq_some_iff {found : Nat} :
    tree.find? scope name = some found ↔
      ∃ nearer farther, tree.chain scope = nearer ++ found :: farther ∧
        (tree.frame found).binds name = true ∧
          ∀ other ∈ nearer, (tree.frame other).binds name = false := by
  rw [find?, List.find?_eq_some_iff_append]
  simp only [Bool.not_eq_true']
  exact ⟨fun ⟨bound, nearer, farther, split, others⟩ => ⟨nearer, farther, split, bound, others⟩,
    fun ⟨nearer, farther, split, bound, others⟩ => ⟨bound, nearer, farther, split, others⟩⟩

/-- Looking a name up gives its value in the scope where it is found. -/
theorem lookup_of_find?_some {found : Nat} (here : tree.find? scope name = some found) :
    ∃ value, (tree.frame found).get? name = some value ∧ tree.lookup scope name = .ok value := by
  obtain ⟨nearer, farther, split, bound, others⟩ := find?_eq_some_iff.mp here
  obtain ⟨value, own⟩ := Option.isSome_iff_exists.mp bound
  have first : (tree.chain scope).findSome? (fun other => (tree.frame other).get? name) =
      some value := by
    refine List.findSome?_eq_some_iff.mpr
      ⟨nearer, found, farther, split, own, fun other member => ?_⟩
    simpa [Frame.binds] using others other member
  exact ⟨value, own, by rw [lookup, first]⟩

theorem lookup_of_find?_none (nowhere : tree.find? scope name = none) :
    tree.lookup scope name = .error (.scope (.notFound name)) := by
  have none : (tree.chain scope).findSome? (fun other => (tree.frame other).get? name) = none := by
    refine List.findSome?_eq_none_iff.mpr fun other member => ?_
    simpa [Frame.binds] using List.find?_eq_none.mp nowhere other member
  rw [lookup, none]

end

/-! ## The whole story -/

/-- A tree is as its history says. -/
structure FollowsHistory (limit : Nat) (history : List Operation) (tree : ScopeTree) : Prop where
  /-- Each scope that was added is inside the one that was asked for. -/
  outers : tree.outers = history.filterMap Operation.outer?
  /-- The scopes around a scope are found by going from each to the one around it. -/
  chain : ∀ scope, tree.chain scope =
    scope :: match tree.outer? scope with
      | some outer => tree.chain outer
      | none => []
  /-- A name is bound exactly if the last event that touched it was a write, to the value then
  written. -/
  bound : ∀ scope name value, (tree.frame scope).get? name = some value ↔
    lastEffect? tree.root scope name (history.flatMap Operation.events) = some (.write value)
  /-- Names are listed in the order in which they were last created. -/
  listed : ∀ scope, ∃ dated,
    Listed tree.root (history.flatMap Operation.events) scope (tree.frame scope) dated
  /-- A name is found in the nearest scope that binds it. -/
  found : ∀ scope (name : Value) key, name.name? = some key → ∀ found,
    tree.findAs limit scope name = .ok (some found) ↔
      ∃ nearer farther, tree.chain scope = nearer ++ found :: farther ∧
        (tree.frame found).binds key = true ∧
          ∀ other ∈ nearer, (tree.frame other).binds key = false
  contained : ∀ scope (name : Value) key, name.name? = some key →
    (tree.containsAs limit scope name = .ok true ∧
      ∃ found, tree.findAs limit scope name = .ok (some found)) ∨
    (tree.containsAs limit scope name = .ok false ∧ tree.findAs limit scope name = .ok none)
  /-- Looking a name up gives its value where it is found, or says that it is not. -/
  lookedUp : ∀ scope (name : Value) key, name.name? = some key →
    (∀ found, tree.findAs limit scope name = .ok (some found) →
      ∃ value, (tree.frame found).get? key = some value ∧
        tree.lookupAs limit scope name = .ok value) ∧
    (tree.findAs limit scope name = .ok none →
      tree.lookupAs limit scope name = .error (.scope (.notFound key)))
  /-- An operation leaves alone every name in every scope that its events do not touch. -/
  untouched : ∀ operation : Operation, operation.Within tree.scopes.length → ∀ scope name,
    (∀ event ∈ operation.events, event.effect? tree.root scope name = none) →
      ((tree.perform limit operation).2.frame scope).get? name = (tree.frame scope).get? name
  /-- An operation that is given names succeeds. -/
  accepted : ∀ operation : Operation, operation.Named → (tree.perform limit operation).1 = .ok ()
  /-- What is no name is refused.  Nothing is changed then, except for what an update has done
  before it came to that. -/
  refused : ∀ name : Value, name.name? = none → ∀ scope value,
    tree.perform limit (.define scope name value) = (.error (name.nameError limit), tree) ∧
    tree.perform limit (.defineGlobal scope name value) = (.error (name.nameError limit), tree) ∧
    (∀ earlier later, (∀ pair ∈ earlier, pair.1.name?.isSome = true) →
      tree.perform limit (.update scope (earlier ++ (name, value) :: later)) =
        (.error (name.nameError limit), (tree.perform limit (.update scope earlier)).2)) ∧
    tree.findAs limit scope name = .error (name.nameError limit) ∧
    tree.containsAs limit scope name = .error (name.nameError limit) ∧
    tree.lookupAs limit scope name = .error (name.nameError limit)

theorem update_accepted {limit : Nat} {tree : ScopeTree} (scope : Nat)
    {pairs : List (Value × Value)} (named : ∀ pair ∈ pairs, pair.1.name?.isSome = true) :
    (tree.update limit scope pairs).1 = .ok () := by
  induction pairs generalizing tree with
  | nil => rfl
  | cons pair pairs ih =>
      obtain ⟨first, own⟩ := pair
      obtain ⟨key, same⟩ := Option.isSome_iff_exists.mp (named (first, own) List.mem_cons_self)
      simp only [update, Value.asName_of_some same]
      exact ih fun other member => named other (List.mem_cons_of_mem _ member)

theorem changeAs_accepted {limit : Nat} {tree : ScopeTree} {name : Value}
    (named : name.name?.isSome = true) (change : String → ScopeTree) :
    (tree.changeAs limit name change).1 = .ok () := by
  obtain ⟨key, same⟩ := Option.isSome_iff_exists.mp named
  rw [changeAs, Value.asName_of_some same]

theorem update_refused {limit : Nat} {tree : ScopeTree} {name : Value} (unnamed : name.name? = none)
    (scope : Nat) (value : Value) {earlier : List (Value × Value)} (later : List (Value × Value))
    (named : ∀ pair ∈ earlier, pair.1.name?.isSome = true) :
    tree.update limit scope (earlier ++ (name, value) :: later) =
      (.error (name.nameError limit), (tree.update limit scope earlier).2) := by
  induction earlier generalizing tree with
  | nil => simp [update, Value.asName_of_none unnamed]
  | cons pair earlier ih =>
      obtain ⟨first, own⟩ := pair
      obtain ⟨key, same⟩ := Option.isSome_iff_exists.mp (named (first, own) List.mem_cons_self)
      simp only [List.cons_append, update, Value.asName_of_some same]
      exact ih fun other member => named other (List.mem_cons_of_mem _ member)

/-- Whatever is done to scopes, in whatever order, they are as their history says: it decides which
names each of them binds, to which values and in which order, and where names are found from it. -/
theorem followsHistory_of_built {limit : Nat} {history : List Operation} {tree : ScopeTree}
    (built : Built limit history tree) : FollowsHistory limit history tree where
  outers := built.outers_eq
  chain := built.chain_eq
  bound scope name value := by rw [built.frame_eq, get?_replay_empty_iff]
  listed scope := by
    rw [built.frame_eq]
    exact exists_listed tree.root scope _
  found scope name key named found := by
    rw [findAs, Value.asName_of_some named, Except.map, Except.ok.injEq, find?_eq_some_iff]
  contained scope name key named := by
    rw [containsAs, findAs, Value.asName_of_some named, Except.map, Except.map]
    cases tree.find? scope key with
    | none => exact .inr ⟨rfl, rfl⟩
    | some found => exact .inl ⟨rfl, found, rfl⟩
  lookedUp scope name key named := by
    rw [lookupAs, findAs, Value.asName_of_some named]
    constructor
    · intro found here
      exact lookup_of_find?_some (Except.ok.inj here)
    · intro nowhere
      exact lookup_of_find?_none (Except.ok.inj nowhere)
  untouched operation within scope name none := by
    have silent : lastEffect? tree.root scope name operation.events = Option.none := by
      rw [lastEffect?, List.filterMap_eq_nil_iff.mpr none]
      rfl
    rw [frame_perform limit within, get?_replay, silent]
  accepted operation named := by
    cases operation with
    | add outer => rfl
    | define scope name value => exact changeAs_accepted named _
    | update scope pairs => exact update_accepted scope named
    | defineGlobal scope name value => exact changeAs_accepted named _
  refused name unnamed scope value := by
    have error := Value.asName_of_none unnamed limit
    refine ⟨?_, ?_, fun earlier later named => update_refused unnamed scope value later named,
      ?_, ?_, ?_⟩
    · rw [perform, changeAs, error]
    · rw [perform, changeAs, error]
    · rw [findAs, error]
      rfl
    · rw [containsAs, findAs, error]
      rfl
    · rw [lookupAs, error]
      rfl

/-- A name is bound in a scope, in one inside that and in one inside both, and is then defined
globally from the innermost: the outermost scope has the new value, the one in between keeps its
own, and the innermost has none. -/
theorem followsHistory_of_shadows :
    let history : List Operation :=
      [.add none, .add (some 0), .add (some 1), .define 0 (.string "x") .nil,
        .define 1 (.symbol "X") .truth, .define 2 (.string "x") .nil,
        .defineGlobal 2 (.string "x") (.integer 3)]
    ∃ tree, Built 1000 history tree ∧ (tree.frame 0).get? "X" = some (.integer 3) ∧
      (tree.frame 1).get? "X" = some .truth ∧ (tree.frame 2).binds "X" = false := by
  intro history
  have built : Built 1000 history _ :=
    (((((((Built.nothing.after (by simp [Operation.Within])).after
      (by simp [Operation.Within, Operation.outer?])).after
      (by simp [Operation.Within, Operation.outer?])).after
      (by simp [Operation.Within, Operation.outer?])).after
      (by simp [Operation.Within, Operation.outer?])).after
      (by simp [Operation.Within, Operation.outer?])).after
      (by simp [Operation.Within, Operation.outer?]))
  refine ⟨_, built, ?_⟩
  generalize ScopeTree.perform _ _ _ = final at built ⊢
  obtain ⟨outcome, tree⟩ := final
  have follows := followsHistory_of_built built
  have inside : ∀ scope, tree.outer? scope = ([none, some 0, some 1][scope]?).join := by
    intro scope
    rw [outer?_eq, follows.outers]
    rfl
  have outermost : tree.root 2 = 0 := by
    rw [root, follows.chain, inside]
    simp [follows.chain 1, follows.chain 0, inside]
  have events : history.flatMap Operation.events =
      [.define 0 "X" .nil, .define 1 "X" .truth, .define 2 "X" .nil,
        .defineGlobal 2 "X" (.integer 3)] := by
    have folded : Text.fold "x" = "X" := by decide
    simp [history, Operation.events, Value.name?, folded]
  refine ⟨(follows.bound 0 "X" _).mpr ?_, (follows.bound 1 "X" _).mpr ?_, ?_⟩
  · simp [events, lastEffect?, Event.effect?, outermost]
  · simp [events, lastEffect?, Event.effect?, outermost]
  · refine Option.isSome_eq_false_iff.mpr (Option.isNone_iff_eq_none.mpr ?_)
    refine Option.eq_none_iff_forall_ne_some.mpr fun value bound => ?_
    have last := (follows.bound 2 "X" value).mp bound
    simp [events, lastEffect?, Event.effect?, outermost] at last

end ScopeTree

end ConsLisp
