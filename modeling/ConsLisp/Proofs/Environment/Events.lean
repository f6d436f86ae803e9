import Mathlib.Data.List.Induction
import ConsLisp.Proofs.Environment.Scopes

/-!
# Events in scopes

What definitions of single names, one after the other, do to the frame of a scope.  A name has the
value that it was last given there, unless it has been removed since, and names are listed by when
they were last created.
-/

namespace ConsLisp

namespace Frame

/-- The names a frame binds, in the order in which it lists them. -/
def names (frame : Frame) : List String :=
  frame.bindings.map Prod.fst

theorem mem_names_iff {frame : Frame} {name : String} :
    name ∈ frame.names ↔ ∃ value, frame.get? name = some value := by
  rw [names, List.mem_map]
  constructor
  · rintro ⟨⟨name, value⟩, member, rfl⟩
    cases found : frame.get? name with
    | some bound => exact ⟨bound, rfl⟩
    | none => simpa using List.lookup_eq_none_iff.mp found _ member
  · rintro ⟨value, found⟩
    obtain ⟨before, after, split, _⟩ := List.lookup_eq_some_iff.mp found
    exact ⟨(name, value), split ▸ List.mem_append_right before List.mem_cons_self, rfl⟩

theorem names_erase (frame : Frame) (name : String) :
    (frame.erase name).names = frame.names.filter (· ≠ name) := by
  simp only [names, erase, List.filter_map]
  rfl

theorem map_fst_insertInto_of_mem {name : String} {bindings : List (String × Value)}
    (bound : name ∈ bindings.map Prod.fst) (value : Value) :
    (insertInto name value bindings).map Prod.fst = bindings.map Prod.fst := by
  induction bindings with
  | nil => cases bound
  | cons binding bindings ih =>
      obtain ⟨other, old⟩ := binding
      by_cases same : other = name
      · simp [insertInto, same]
      · have later : name ∈ bindings.map Prod.fst := by simpa [Ne.symm same] using bound
        simp [insertInto, same, ih later]

theorem insertInto_of_not_mem {name : String} {bindings : List (String × Value)}
    (unbound : name ∉ bindings.map Prod.fst) (value : Value) :
    insertInto name value bindings = bindings ++ [(name, value)] := by
  induction bindings with
  | nil => rfl
  | cons binding bindings ih =>
      obtain ⟨other, old⟩ := binding
      obtain ⟨apart, later⟩ := not_or.mp (List.mem_cons.not.mp unbound)
      rw [insertInto, if_neg (Ne.symm apart), ih later, List.cons_append]

/-- A name that is bound keeps its place. -/
theorem names_insert_of_mem {frame : Frame} {name : String} (bound : name ∈ frame.names)
    (value : Value) : (frame.insert name value).names = frame.names :=
  map_fst_insertInto_of_mem bound value

/-- A new name comes last. -/
theorem names_insert_of_not_mem {frame : Frame} {name : String} (unbound : name ∉ frame.names)
    (value : Value) : (frame.insert name value).names = frame.names ++ [name] := by
  rw [names, insert, insertInto_of_not_mem unbound, List.map_append]
  rfl

end Frame

namespace ScopeTree

/-- A definition of one name. -/
inductive Event where
  | define (scope : Nat) (name : String) (value : Value)
  | defineGlobal (scope : Nat) (name : String) (value : Value)

namespace Event

def scope : Event → Nat
  | .define scope _ _ | .defineGlobal scope _ _ => scope

def apply (tree : ScopeTree) : Event → ScopeTree
  | .define scope name value => tree.define scope name value
  | .defineGlobal scope name value => tree.defineGlobal scope name value

/-- A global definition made in a given scope. -/
def IsGlobalIn (scope : Nat) (event : Event) : Prop :=
  ∃ name value, event = .defineGlobal scope name value

end Event

/-- What an event does to a name in a scope. -/
inductive Effect where
  | write (value : Value)
  | removal

/-- The effect of an event on a name in a scope, if it has one.  A definition writes in its own
scope.  A global one writes in the outermost scope around it, and removes the name from its own
scope if that is another one. -/
def Event.effect? (root : Nat → Nat) (scope : Nat) (name : String) : Event → Option Effect
  | .define own other value => if own = scope ∧ other = name then some (.write value) else none
  | .defineGlobal own other value =>
      if other ≠ name then none
      else if root own = scope then some (.write value)
      else if own = scope then some .removal
      else none

/-- The last effect that events had on a name in a scope. -/
def lastEffect? (root : Nat → Nat) (scope : Nat) (name : String) (events : List Event) :
    Option Effect :=
  (events.filterMap (·.effect? root scope name)).getLast?

/-- The last event that touched a name in a scope wrote it. -/
def Written (root : Nat → Nat) (events : List Event) (scope : Nat) (name : String) : Prop :=
  ∃ value, lastEffect? root scope name events = some (.write value)

/-- An event creates a name in a scope if it writes it and either the name was not there or the
event is a global definition in that scope itself. -/
def Event.Creates (root : Nat → Nat) (earlier : List Event) (scope : Nat) (name : String)
    (event : Event) : Prop :=
  (∃ value, event.effect? root scope name = some (.write value)) ∧
    (event.IsGlobalIn scope ∨ ¬ Written root earlier scope name)

/-- The event at a time creates a name in a scope. -/
def CreatedAt (root : Nat → Nat) (events : List Event) (scope : Nat) (name : String)
    (time : Nat) : Prop :=
  ∃ event, events[time]? = some event ∧ event.Creates root (events.take time) scope name

structure LastCreatedAt (root : Nat → Nat) (events : List Event) (scope : Nat) (name : String)
    (time : Nat) : Prop where
  created : CreatedAt root events scope name time
  last : ∀ other, CreatedAt root events scope name other → other ≤ time

/-! ## Frames from events -/

/-- What an event makes of the frame of a scope. -/
def Event.change (root : Nat → Nat) (scope : Nat) (frame : Frame) : Event → Frame
  | .define own name value => if own = scope then frame.insert name value else frame
  | .defineGlobal own name value =>
      let kept := if own = scope then frame.erase name else frame
      if root own = scope then kept.insert name value else kept

/-- What events make of the frame of a scope. -/
def replay (root : Nat → Nat) (scope : Nat) (events : List Event) (frame : Frame) : Frame :=
  events.foldl (Event.change root scope) frame

/-- An event leaves the frame of a scope alone, removes a name from it, writes one, or removes and
writes it. -/
theorem Event.change_cases (root : Nat → Nat) (scope : Nat) (event : Event) (frame : Frame) :
    (event.change root scope frame = frame ∧ ∀ name, event.effect? root scope name = none) ∨
    (∃ name, event.change root scope frame = frame.erase name ∧
      ∀ other, event.effect? root scope other = if other = name then some .removal else none) ∨
    ∃ name value,
      (event.change root scope frame = frame.insert name value ∧ ¬ event.IsGlobalIn scope ∨
        event.change root scope frame = (frame.erase name).insert name value ∧
          event.IsGlobalIn scope) ∧
      ∀ other, event.effect? root scope other =
        if other = name then some (.write value) else none := by
  cases event with
  | define own name value =>
      by_cases same : own = scope
      · refine .inr (.inr ⟨name, value, .inl ⟨by simp [change, same], nofun⟩, fun other => ?_⟩)
        simp [effect?, same, eq_comm]
      · exact .inl ⟨by simp [change, same], fun other => by simp [effect?, same]⟩
  | defineGlobal own name value =>
      have other_eq : ∀ {other : String} {effect : Option Effect},
          (if name ≠ other then none else effect) = if other = name then effect else none := by
        intro other effect
        by_cases same : other = name
        · simp [same]
        · rw [if_pos (Ne.symm same), if_neg same]
      by_cases outermost : root own = scope
      · refine .inr (.inr ⟨name, value, ?_, fun other => ?_⟩)
        · by_cases same : own = scope
          · exact .inr ⟨by simp [change, same, same ▸ outermost], name, value, by rw [same]⟩
          · refine .inl ⟨by simp [change, same, outermost], ?_⟩
            rintro ⟨_, _, equal⟩
            cases equal
            exact same rfl
        · rw [effect?, if_pos outermost, other_eq]
      · by_cases same : own = scope
        · refine .inr (.inl ⟨name, by simp [change, same, same ▸ outermost], fun other => ?_⟩)
          rw [effect?, if_neg outermost, if_pos same, other_eq]
        · refine .inl ⟨by simp [change, same, outermost], fun other => ?_⟩
          rw [effect?, if_neg outermost, if_neg same, other_eq, ite_self]

theorem Event.get?_change (root : Nat → Nat) (scope : Nat) (event : Event) (frame : Frame)
    (name : String) :
    (event.change root scope frame).get? name =
      match event.effect? root scope name with
      | none => frame.get? name
      | some (.write value) => some value
      | some .removal => none := by
  rcases event.change_cases root scope frame with
    ⟨same, untouched⟩ | ⟨lost, same, effects⟩ | ⟨own, value, same, effects⟩
  · rw [same, untouched]
  · rw [same, effects, Frame.erase_eq_without, Frame.get?_without]
    by_cases touched : name = lost <;> simp [touched]
  · rw [effects]
    by_cases touched : name = own
    · rcases same with ⟨same, _⟩ | ⟨same, _⟩ <;> simp [same, touched]
    · rcases same with ⟨same, _⟩ | ⟨same, _⟩ <;>
        simp [same, touched, Frame.get?_insert_of_ne, Frame.erase_eq_without, Frame.get?_without]

theorem lastEffect?_append (root : Nat → Nat) (scope : Nat) (name : String) (events : List Event)
    (event : Event) :
    lastEffect? root scope name (events ++ [event]) =
      (event.effect? root scope name).or (lastEffect? root scope name events) := by
  rw [lastEffect?, lastEffect?, List.filterMap_append, List.getLast?_append]
  cases touched : event.effect? root scope name <;> simp [touched]

/-- A name has the value of the last effect on it, or the one that it had if there is none. -/
theorem get?_replay (root : Nat → Nat) (scope : Nat) (name : String) (events : List Event)
    (frame : Frame) :
    (replay root scope events frame).get? name =
      match lastEffect? root scope name events with
      | none => frame.get? name
      | some (.write value) => some value
      | some .removal => none := by
  induction events using List.reverseRecOn with
  | nil => rfl
  | append_singleton events event ih =>
      rw [replay, List.foldl_append, lastEffect?_append]
      rw [replay] at ih
      rw [List.foldl_cons, List.foldl_nil, Event.get?_change, ih]
      cases event.effect? root scope name with
      | none => rfl
      | some effect => cases effect <;> rfl

theorem get?_replay_empty_iff {root : Nat → Nat} {scope : Nat} {name : String} {events : List Event}
    {value : Value} :
    (replay root scope events .empty).get? name = some value ↔
      lastEffect? root scope name events = some (.write value) := by
  rw [get?_replay]
  cases lastEffect? root scope name events with
  | none => simp [Frame.empty, Frame.get?]
  | some effect => cases effect <;> simp

theorem mem_names_replay_iff {root : Nat → Nat} {scope : Nat} {name : String}
    {events : List Event} :
    name ∈ (replay root scope events .empty).names ↔ Written root events scope name := by
  rw [Frame.mem_names_iff]
  exact exists_congr fun _ => get?_replay_empty_iff

/-! ## The order of names -/

section

variable {root : Nat → Nat} {events : List Event} {event : Event} {scope : Nat} {name : String}
  {time : Nat}

theorem createdAt_append_iff :
    CreatedAt root (events ++ [event]) scope name time ↔
      CreatedAt root events scope name time ∨
        time = events.length ∧ event.Creates root events scope name := by
  unfold CreatedAt
  rcases Nat.lt_trichotomy time events.length with early | rfl | late
  · rw [List.getElem?_append_left early, List.take_append_of_le_length (Nat.le_of_lt early)]
    exact (or_iff_left fun wrong => absurd wrong.1 (Nat.ne_of_lt early)).symm
  · simp
  · rw [List.getElem?_eq_none (by simp; omega), List.getElem?_eq_none (Nat.le_of_lt late)]
    simp [Nat.ne_of_gt late]

theorem CreatedAt.lt (created : CreatedAt root events scope name time) : time < events.length := by
  obtain ⟨_, found, _⟩ := created
  exact (List.getElem?_eq_some_iff.mp found).1

theorem lastCreatedAt_of_creates (creates : event.Creates root events scope name) :
    LastCreatedAt root (events ++ [event]) scope name events.length := by
  refine ⟨createdAt_append_iff.mpr (.inr ⟨rfl, creates⟩), fun other created => ?_⟩
  rcases createdAt_append_iff.mp created with earlier | ⟨same, _⟩
  · exact Nat.le_of_lt earlier.lt
  · exact Nat.le_of_eq same

theorem LastCreatedAt.append (last : LastCreatedAt root events scope name time)
    (keeps : ¬ event.Creates root events scope name) :
    LastCreatedAt root (events ++ [event]) scope name time := by
  refine ⟨createdAt_append_iff.mpr (.inl last.created), fun other created => ?_⟩
  rcases createdAt_append_iff.mp created with earlier | ⟨_, creates⟩
  · exact last.last other earlier
  · exact absurd creates keeps

end

/-- A frame lists its names in the order of the times at which they were last created. -/
structure Listed (root : Nat → Nat) (events : List Event) (scope : Nat) (frame : Frame)
    (dated : List (String × Nat)) : Prop where
  names : frame.names = dated.map Prod.fst
  increasing : dated.Pairwise (·.2 < ·.2)
  dates : ∀ entry ∈ dated, LastCreatedAt root events scope entry.1 entry.2

namespace Listed

variable {root : Nat → Nat} {events : List Event} {event : Event} {scope : Nat} {frame : Frame}
  {dated : List (String × Nat)} {name : String}

theorem erase (listed : Listed root events scope frame dated) (name : String) :
    Listed root events scope (frame.erase name) (dated.filter (·.1 ≠ name)) := by
  refine ⟨?_, listed.increasing.filter _, fun entry member =>
    listed.dates entry (List.mem_filter.mp member).1⟩
  rw [Frame.names_erase, listed.names, List.filter_map]
  rfl

/-- Writing a name that is there keeps its place. -/
theorem overwrite (listed : Listed root events scope frame dated) (bound : name ∈ frame.names)
    (value : Value) : Listed root events scope (frame.insert name value) dated :=
  ⟨by rw [Frame.names_insert_of_mem bound, listed.names], listed.increasing, listed.dates⟩

/-- An event that creates no name of the frame changes no date. -/
theorem append (listed : Listed root events scope frame dated)
    (keeps : ∀ name ∈ frame.names, ¬ event.Creates root events scope name) :
    Listed root (events ++ [event]) scope frame dated := by
  refine ⟨listed.names, listed.increasing, fun entry member => ?_⟩
  refine (listed.dates entry member).append (keeps entry.1 ?_)
  rw [listed.names]
  exact List.mem_map_of_mem member

/-- A name that has just been created comes last. -/
theorem append_created (listed : Listed root events scope frame dated)
    (only : ∀ {other}, event.Creates root events scope other → other = name)
    (unbound : name ∉ frame.names) (creates : event.Creates root events scope name)
    (value : Value) :
    Listed root (events ++ [event]) scope (frame.insert name value)
      (dated ++ [(name, events.length)]) := by
  have older : Listed root (events ++ [event]) scope frame dated :=
    listed.append fun other member created => unbound (only created ▸ member)
  refine ⟨?_, List.pairwise_append.mpr ⟨listed.increasing, List.pairwise_singleton _ _, ?_⟩, ?_⟩
  · rw [Frame.names_insert_of_not_mem unbound, listed.names, List.map_append]
    rfl
  · intro entry member new fresh
    rw [List.mem_singleton.mp fresh]
    exact (listed.dates entry member).created.lt
  · intro entry member
    rcases List.mem_append.mp member with old | fresh
    · exact older.dates entry old
    · rw [List.mem_singleton.mp fresh]
      exact lastCreatedAt_of_creates creates

/-- One more event keeps the order, given that the frame binds what has been written. -/
theorem step (listed : Listed root events scope frame dated)
    (written : ∀ {name}, name ∈ frame.names ↔ Written root events scope name) (event : Event) :
    ∃ later, Listed root (events ++ [event]) scope (event.change root scope frame) later := by
  rcases event.change_cases root scope frame with
    ⟨same, effects⟩ | ⟨lost, same, effects⟩ | ⟨own, value, same, effects⟩
  · rw [same]
    refine ⟨dated, listed.append fun name _ creates => ?_⟩
    obtain ⟨⟨value, wrote⟩, _⟩ := creates
    simp [effects] at wrote
  · rw [same]
    refine ⟨_, (listed.erase lost).append fun name _ creates => ?_⟩
    obtain ⟨⟨value, wrote⟩, _⟩ := creates
    rw [effects] at wrote
    split at wrote <;> cases wrote
  -- Only the name that the event writes can be created by it.
  have only : ∀ {name}, event.Creates root events scope name → name = own := by
    rintro name ⟨⟨other, wrote⟩, _⟩
    rw [effects] at wrote
    split at wrote
    next same => exact same
    next => cases wrote
  have wrote : ∃ value, event.effect? root scope own = some (.write value) :=
    ⟨value, by rw [effects, if_pos rfl]⟩
  rcases same with ⟨same, notGlobal⟩ | ⟨same, isGlobal⟩
  · rw [same]
    by_cases bound : own ∈ frame.names
    · refine ⟨dated, (listed.overwrite bound value).append fun name _ creates => ?_⟩
      rcases creates.2 with isGlobal | unwritten
      · exact notGlobal isGlobal
      · exact unwritten (written.mp (only creates ▸ bound))
    · exact ⟨_, listed.append_created only bound ⟨wrote, .inr (written.not.mp bound)⟩ value⟩
  · rw [same]
    have unbound : own ∉ (frame.erase own).names := by simp [Frame.names_erase]
    exact ⟨_, (listed.erase own).append_created only unbound ⟨wrote, .inl isGlobal⟩ value⟩

end Listed

/-- Events list the names of a frame in the order in which they were last created. -/
theorem exists_listed (root : Nat → Nat) (scope : Nat) (events : List Event) :
    ∃ dated, Listed root events scope (replay root scope events .empty) dated := by
  induction events using List.reverseRecOn with
  | nil => exact ⟨[], rfl, .nil, nofun⟩
  | append_singleton events event ih =>
      obtain ⟨dated, listed⟩ := ih
      rw [replay, List.foldl_append]
      exact listed.step mem_names_replay_iff event

end ScopeTree

end ConsLisp
