import ConsLisp.Environment

/-!
# How environments change

Defining a name globally is the only thing that evaluation does to an environment it was given.
The frame it happens in may lose its own binding of that name, frames further out keep all of
theirs, and the globals lose no name.  That is said once as a relation between environments, which
is kept by everything evaluation is composed of.
-/

namespace ConsLisp

namespace Frame

theorem lookup_insertInto_self (name : String) (value : Value) (bindings : List (String × Value)) :
    (insertInto name value bindings).lookup name = some value := by
  induction bindings with
  | nil => simp [insertInto]
  | cons binding bindings ih =>
      obtain ⟨other, old⟩ := binding
      by_cases same : other = name
      · simp [insertInto, same]
      · have apart : (name == other) = false := by simpa using Ne.symm same
        simp [insertInto, same, List.lookup_cons, apart, ih]

theorem lookup_insertInto_of_ne {name other : String} (apart : other ≠ name) (value : Value)
    (bindings : List (String × Value)) :
    (insertInto name value bindings).lookup other = bindings.lookup other := by
  induction bindings with
  | nil => simp [insertInto, apart]
  | cons binding bindings ih =>
      obtain ⟨first, old⟩ := binding
      by_cases same : first = name
      · have differs : (other == name) = false := by simpa using apart
        simp [insertInto, same, List.lookup_cons, differs]
      · simp [insertInto, same, List.lookup_cons, ih]

theorem mem_insertInto {name : String} {value : Value} {bindings : List (String × Value)}
    {binding : String × Value} (member : binding ∈ insertInto name value bindings) :
    binding.2 = value ∨ binding ∈ bindings := by
  induction bindings with
  | nil => exact .inl (by rw [List.mem_singleton.mp member])
  | cons first bindings ih =>
      obtain ⟨other, old⟩ := first
      by_cases same : other = name
      · rw [insertInto, if_pos same] at member
        rcases List.mem_cons.mp member with rfl | later
        · exact .inl rfl
        · exact .inr (List.mem_cons_of_mem _ later)
      · rw [insertInto, if_neg same] at member
        rcases List.mem_cons.mp member with rfl | later
        · exact .inr List.mem_cons_self
        · exact (ih later).imp_right (List.mem_cons_of_mem _)

@[simp] theorem get?_insert_self (frame : Frame) (name : String) (value : Value) :
    (frame.insert name value).get? name = some value :=
  lookup_insertInto_self name value frame.bindings

theorem get?_insert_of_ne (frame : Frame) {name other : String} (apart : other ≠ name)
    (value : Value) : (frame.insert name value).get? other = frame.get? other :=
  lookup_insertInto_of_ne apart value frame.bindings

theorem binds_insert_self (frame : Frame) (name : String) (value : Value) :
    (frame.insert name value).binds name = true := by
  simp [binds]

theorem binds_insert {frame : Frame} {other : String} (bound : frame.binds other = true)
    (name : String) (value : Value) : (frame.insert name value).binds other = true := by
  by_cases same : other = name
  · rw [same]
    exact binds_insert_self frame name value
  · rwa [binds, get?_insert_of_ne frame same]

theorem bindings_catalogue :
    catalogue.bindings = Builtin.catalogue.map fun operation => (operation.name, operation.value) :=
  rfl

/-- The bindings of a frame except those of certain names, in the same order. -/
def without (frame : Frame) (names : List String) : Frame :=
  ⟨frame.bindings.filter (·.1 ∉ names)⟩

theorem without_nil (frame : Frame) : frame.without [] = frame :=
  congrArg Frame.mk (List.filter_eq_self.mpr fun _ _ => by simp)

theorem without_without (frame : Frame) (first second : List String) :
    (frame.without first).without second = frame.without (first ++ second) := by
  simp only [without, List.filter_filter, List.mem_append, not_or, Bool.decide_and, Bool.and_comm]

theorem erase_eq_without (frame : Frame) (name : String) :
    frame.erase name = frame.without [name] := by
  simp [erase, without]

theorem get?_without (frame : Frame) (names : List String) (name : String) :
    (frame.without names).get? name = if name ∈ names then none else frame.get? name := by
  obtain ⟨bindings⟩ := frame
  simp only [without, get?]
  induction bindings with
  | nil => simp
  | cons binding bindings ih =>
      obtain ⟨other, old⟩ := binding
      by_cases lost : other ∈ names <;> by_cases same : name = other <;>
        grind

theorem get?_of_get?_without {frame : Frame} {names : List String} {name : String} {value : Value}
    (found : (frame.without names).get? name = some value) : frame.get? name = some value := by
  rw [get?_without] at found
  split at found
  · cases found
  · exact found

theorem mem_of_binds_of_not_binds_without {frame : Frame} {names : List String} {name : String}
    (bound : frame.binds name = true) (lost : (frame.without names).binds name = false) :
    name ∈ names := by
  by_cases kept : name ∈ names
  · exact kept
  · rw [binds, get?_without, if_neg kept] at lost
    rw [binds, lost] at bound
    cases bound

end Frame

namespace Environment

/-- What evaluation does to the environment it is given. -/
structure Evolves (before after : Environment) : Prop where
  /-- The globals lose no name. -/
  globals : ∀ name, before.globals.binds name = true → after.globals.binds name = true
  /-- The innermost frame may lose names, all of which are then global; the others are as they
  were. -/
  locals : ∃ lost, after.locals = before.locals.modifyHead (·.without lost) ∧
    ∀ name ∈ lost, after.globals.binds name = true

namespace Evolves

/-- Nothing is lost from any frame. -/
theorem of_locals_eq {before after : Environment} (same : after.locals = before.locals)
    (globals : ∀ name, before.globals.binds name = true → after.globals.binds name = true) :
    Evolves before after := by
  refine ⟨globals, [], ?_, fun _ member => by cases member⟩
  rw [same]
  cases before.locals with
  | nil => rfl
  | cons inner outer => rw [List.modifyHead_cons, Frame.without_nil]

theorem refl (environment : Environment) : Evolves environment environment :=
  of_locals_eq rfl fun _ bound => bound

theorem trans {before middle after : Environment} (first : Evolves before middle)
    (second : Evolves middle after) : Evolves before after := by
  obtain ⟨lost, kept, bound⟩ := first.locals
  obtain ⟨more, keptToo, boundToo⟩ := second.locals
  refine ⟨fun name own => second.globals name (first.globals name own), lost ++ more, ?_, ?_⟩
  · rw [keptToo, kept]
    cases before.locals with
    | nil => rfl
    | cons inner outer => simp only [List.modifyHead_cons, Frame.without_without]
  · intro name member
    rcases List.mem_append.mp member with early | late
    · exact second.globals name (bound name early)
    · exact boundToo name late

theorem defineGlobal (environment : Environment) (name : String) (value : Value) :
    Evolves environment (environment.defineGlobal name value) := by
  obtain ⟨locals, globals⟩ := environment
  cases locals with
  | nil =>
      refine of_locals_eq rfl fun other bound => ?_
      by_cases same : other = name
      · rw [same]
        exact Frame.binds_insert_self _ name value
      · apply Frame.binds_insert
        rwa [Frame.binds, Frame.erase_eq_without, Frame.get?_without,
          if_neg (by simpa using same)]
  | cons inner outer =>
      refine ⟨fun other bound => Frame.binds_insert bound name value, [name], ?_, ?_⟩
      · simp [Environment.defineGlobal, Frame.erase_eq_without]
      · intro other member
        rw [List.mem_singleton.mp member]
        exact Frame.binds_insert_self globals name value

theorem length_locals {before after : Environment} (evolves : Evolves before after) :
    after.locals.length = before.locals.length := by
  obtain ⟨lost, kept, _⟩ := evolves.locals
  rw [kept, List.length_modifyHead]

/-- What happens inside a frame of its own changes only the globals around it. -/
theorem pop {environment after : Environment} {frame : Frame}
    (inside : Evolves (environment.push frame) after) : Evolves environment after.pop := by
  obtain ⟨lost, kept, bound⟩ := inside.locals
  refine of_locals_eq ?_ inside.globals
  rw [Environment.pop, kept]
  rfl

end Evolves

theorem contains_iff {environment : Environment} {name : String} :
    environment.contains name = true ↔
      (∃ frame ∈ environment.locals, frame.binds name = true) ∨
        environment.globals.binds name = true := by
  simp [contains, lookup?, Frame.binds, List.findSome?_isSome_iff]

/-- A name that can be resolved stays so. -/
theorem Evolves.contains {before after : Environment} (evolves : Evolves before after)
    {name : String} (resolved : before.contains name = true) : after.contains name = true := by
  obtain ⟨lost, kept, bound⟩ := evolves.locals
  rw [contains_iff] at resolved ⊢
  rcases resolved with ⟨frame, member, own⟩ | global
  · rw [kept]
    cases locals : before.locals with
    | nil => simp [locals] at member
    | cons inner outer =>
        rw [locals] at member
        rcases List.mem_cons.mp member with rfl | further
        · cases still : (frame.without lost).binds name with
          | true => exact .inl ⟨_, List.mem_cons_self, still⟩
          | false => exact .inr (bound name (Frame.mem_of_binds_of_not_binds_without own still))
        · exact .inl ⟨frame, List.mem_cons_of_mem _ further, own⟩
  · exact .inr (evolves.globals name global)

end Environment

/-! ## Properties of all values in an environment -/

namespace Frame

/-- All values in the frame have a property. -/
def All (valid : Value → Prop) (frame : Frame) : Prop :=
  ∀ binding ∈ frame.bindings, valid binding.2

variable {valid : Value → Prop} {frame : Frame}

theorem All.empty : All valid empty :=
  fun _ member => by cases member

theorem All.get? (all : All valid frame) {name : String} {value : Value}
    (found : frame.get? name = some value) : valid value := by
  obtain ⟨before, after, split, _⟩ := List.lookup_eq_some_iff.mp found
  exact all (name, value) (split ▸ List.mem_append_right before List.mem_cons_self)

theorem All.insert (all : All valid frame) (name : String) {value : Value} (holds : valid value) :
    All valid (frame.insert name value) := by
  intro binding member
  rcases mem_insertInto member with fresh | old
  · rwa [fresh]
  · exact all binding old

theorem All.without (all : All valid frame) (names : List String) :
    All valid (frame.without names) :=
  fun binding member => all binding (List.mem_filter.mp member).1

end Frame

namespace Environment

/-- All values in all frames have a property. -/
structure All (valid : Value → Prop) (environment : Environment) : Prop where
  locals : ∀ frame ∈ environment.locals, frame.All valid
  globals : environment.globals.All valid

variable {valid : Value → Prop} {environment : Environment}

theorem All.mono {other : Value → Prop} (all : All valid environment)
    (weaker : ∀ value, valid value → other value) : All other environment :=
  ⟨fun frame member binding inside => weaker _ (all.locals frame member binding inside),
    fun binding inside => weaker _ (all.globals binding inside)⟩

theorem All.initial (builtins : ∀ operation : Builtin, valid operation.value) :
    All valid initial := by
  refine ⟨fun _ member => (List.not_mem_nil member).elim, fun binding member => ?_⟩
  obtain ⟨operation, _, rfl⟩ := List.mem_map.mp (Frame.bindings_catalogue ▸ member)
  exact builtins operation

theorem All.lookup? (all : All valid environment) {name : String} {value : Value}
    (found : environment.lookup? name = some value) : valid value := by
  rcases Option.or_eq_some_iff.mp found with inner | ⟨_, global⟩
  · obtain ⟨frame, member, own⟩ := List.exists_of_findSome?_eq_some inner
    exact (all.locals frame member).get? own
  · exact all.globals.get? global

theorem All.push (all : All valid environment) {frame : Frame} (own : frame.All valid) :
    All valid (environment.push frame) := by
  refine ⟨?_, all.globals⟩
  rintro other (_ | ⟨_, member⟩)
  · exact own
  · exact all.locals other member

theorem All.pop (all : All valid environment) : All valid environment.pop :=
  ⟨fun frame member => all.locals frame (List.mem_of_mem_tail member), all.globals⟩

theorem All.defineGlobal (all : All valid environment) (name : String) {value : Value}
    (holds : valid value) : All valid (environment.defineGlobal name value) := by
  obtain ⟨locals, globals⟩ := environment
  obtain ⟨inside, outside⟩ := all
  cases locals with
  | nil =>
      refine ⟨inside, ?_⟩
      rw [Environment.defineGlobal, Frame.erase_eq_without]
      exact (outside.without [name]).insert name holds
  | cons inner outer =>
      refine ⟨?_, outside.insert name holds⟩
      rintro frame (_ | ⟨_, member⟩)
      · rw [Frame.erase_eq_without]
        exact (inside inner List.mem_cons_self).without [name]
      · exact inside frame (List.mem_cons_of_mem inner member)

end Environment

end ConsLisp
