import ConsLisp.Proofs.Environment

/-!
# Environments with one more binding

How an environment that has one binding more than another one, somewhere in one of its frames, keeps
it when both are changed alike, and what can be told from it by other names.
-/

namespace ConsLisp

/-! ## Frames -/

namespace Frame

/-- The second frame has one more binding than the first, which did not bind the name. -/
def Adds (name : String) (value : Value) (frame wider : Frame) : Prop :=
  frame.binds name = false ∧ ∃ before after, frame.bindings = before ++ after ∧
    wider.bindings = before ++ (name, value) :: after

theorem binds_eq_false_iff {frame : Frame} {name : String} :
    frame.binds name = false ↔ ∀ binding ∈ frame.bindings, binding.1 ≠ name := by
  rw [binds, Option.isSome_eq_false_iff, Option.isNone_iff_eq_none, get?, List.lookup_eq_none_iff]
  simp only [bne_iff_ne, ne_comm]

/-- The added binding is the only one of its name, and all others are those of the first frame. -/
theorem adds_iff {name : String} {value : Value} {frame wider : Frame} :
    frame.Adds name value wider ↔
      wider.bindings.filter (·.1 = name) = [(name, value)] ∧ wider.erase name = frame := by
  constructor
  · rintro ⟨unbound, before, after, split, wide⟩
    rw [binds_eq_false_iff, split] at unbound
    obtain ⟨early, late⟩ := List.forall_mem_append.mp unbound
    have none : ∀ {bindings : List (String × Value)}, (∀ binding ∈ bindings, binding.1 ≠ name) →
        bindings.filter (·.1 = name) = [] ∧ bindings.filter (·.1 ≠ name) = bindings :=
      fun apart => ⟨List.filter_eq_nil_iff.mpr fun binding member => by
        simpa using apart binding member, List.filter_eq_self.mpr fun binding member => by
        simpa using apart binding member⟩
    constructor
    · rw [wide, List.filter_append, List.filter_cons_of_pos (by simp), (none early).1,
        (none late).1]
      rfl
    · obtain ⟨bindings⟩ := frame
      rw [erase, wide, List.filter_append, List.filter_cons_of_neg (by simp), (none early).2,
        (none late).2, ← split]
  · rintro ⟨once, rfl⟩
    obtain ⟨before, after, wide, early, _, late⟩ := List.filter_eq_cons_iff.mp once
    have apart : ∀ binding ∈ before ++ after, binding.1 ≠ name :=
      List.forall_mem_append.mpr ⟨fun binding member => by simpa using early binding member,
        fun binding member => by simpa using List.filter_eq_nil_iff.mp late binding member⟩
    have rest : wider.bindings.filter (·.1 ≠ name) = before ++ after := by
      rw [wide, List.filter_append, List.filter_cons_of_neg (by simp), ← List.filter_append]
      exact List.filter_eq_self.mpr fun binding member => by simpa using apart binding member
    refine ⟨binds_eq_false_iff.mpr ?_, before, after, rest, wide⟩
    rw [erase, rest]
    exact apart

theorem filter_insertInto_of_pos {keep : String × Value → Bool} {name : String}
    (kept : ∀ value, keep (name, value) = true) (value : Value)
    (bindings : List (String × Value)) :
    (insertInto name value bindings).filter keep =
      insertInto name value (bindings.filter keep) := by
  induction bindings with
  | nil => simp [insertInto, kept]
  | cons binding bindings ih =>
      obtain ⟨other, old⟩ := binding
      by_cases same : other = name
      · subst same
        simp [insertInto, kept]
      · cases keeps : keep (other, old) with
        | true => simp [insertInto, same, keeps, ih]
        | false => simp [insertInto, same, keeps, ih]

theorem filter_insertInto_of_neg {keep : String × Value → Bool} {name : String}
    (lost : ∀ value, keep (name, value) = false) (value : Value)
    (bindings : List (String × Value)) :
    (insertInto name value bindings).filter keep = bindings.filter keep := by
  induction bindings with
  | nil => simp [insertInto, lost]
  | cons binding bindings ih =>
      obtain ⟨other, old⟩ := binding
      by_cases same : other = name
      · subst same
        simp [insertInto, lost]
      · simp [insertInto, same, List.filter_cons, ih]

namespace Adds

variable {name other : String} {value : Value} {frame wider : Frame}

theorem insert (adds : frame.Adds name value wider) (apart : other ≠ name) (new : Value) :
    (frame.insert other new).Adds name value (wider.insert other new) := by
  obtain ⟨once, rfl⟩ := adds_iff.mp adds
  refine adds_iff.mpr ⟨?_, ?_⟩
  · rw [← once]
    exact filter_insertInto_of_neg (by simpa using apart) new wider.bindings
  · exact congrArg Frame.mk (filter_insertInto_of_pos (by simpa using apart) new wider.bindings)

theorem erase (adds : frame.Adds name value wider) (apart : other ≠ name) :
    (frame.erase other).Adds name value (wider.erase other) := by
  obtain ⟨once, rfl⟩ := adds_iff.mp adds
  have swapped : ∀ keep : String × Value → Bool,
      (wider.bindings.filter (·.1 ≠ other)).filter keep =
        (wider.bindings.filter keep).filter (·.1 ≠ other) := by
    intro keep
    simp only [List.filter_filter, Bool.and_comm]
  refine adds_iff.mpr ⟨?_, congrArg Frame.mk (swapped _)⟩
  rw [Frame.erase, swapped, once]
  simp [Ne.symm apart]

theorem get? (adds : frame.Adds name value wider) (apart : other ≠ name) :
    wider.get? other = frame.get? other := by
  obtain ⟨_, rfl⟩ := adds_iff.mp adds
  rw [erase_eq_without, get?_without, if_neg (by simpa using apart)]

end Adds

theorem adds_insert {frame : Frame} {name : String} (unbound : frame.binds name = false)
    (value : Value) : frame.Adds name value (frame.insert name value) := by
  refine ⟨unbound, frame.bindings, [], (List.append_nil _).symm, ?_⟩
  rw [binds_eq_false_iff] at unbound
  obtain ⟨bindings⟩ := frame
  simp only [insert] at unbound ⊢
  induction bindings with
  | nil => rfl
  | cons binding bindings ih =>
      obtain ⟨first, rest⟩ := List.forall_mem_cons.mp unbound
      rw [insertInto, if_neg first, ih rest]
      rfl

end Frame

/-! ## Environments -/

namespace Environment

/-- The second environment has one more binding than the first, in the frame that has `place` frames
around it. -/
inductive Adds (name : String) (value : Value) : Nat → Environment → Environment → Prop where
  | globals {globals wider : Frame} (adds : globals.Adds name value wider) (locals : List Frame) :
      Adds name value 0 ⟨locals, globals⟩ ⟨locals, wider⟩
  | locals {frame wider : Frame} (adds : frame.Adds name value wider) (inner outer : List Frame)
      (globals : Frame) :
      Adds name value (outer.length + 1) ⟨inner ++ frame :: outer, globals⟩
        ⟨inner ++ wider :: outer, globals⟩

/-- Local frames of which the one with `place` others around it has lost a name. -/
def hideIn (place : Nat) (name : String) : List Frame → List Frame
  | [] => []
  | frame :: outer =>
      if outer.length = place then frame.erase name :: outer
      else frame :: hideIn place name outer

/-- An environment whose frame with `place` frames around it has lost a name. -/
def hide (environment : Environment) (name : String) : Nat → Environment
  | 0 => ⟨environment.locals, environment.globals.erase name⟩
  | place + 1 => ⟨hideIn place name environment.locals, environment.globals⟩

theorem hideIn_append (name : String) (inner : List Frame) (frame : Frame) (outer : List Frame) :
    hideIn outer.length name (inner ++ frame :: outer) = inner ++ frame.erase name :: outer := by
  induction inner with
  | nil => simp [hideIn]
  | cons first inner ih =>
      have deeper : (inner ++ frame :: outer).length ≠ outer.length := by
        rw [List.length_append, List.length_cons]
        omega
      rw [List.cons_append, hideIn, if_neg deeper, ih, List.cons_append]

namespace Adds

variable {name other : String} {value : Value} {place : Nat} {environment wider : Environment}

/-- Hiding the added binding gives the first environment back. -/
theorem hide_eq (adds : Adds name value place environment wider) :
    wider.hide name place = environment := by
  cases adds with
  | globals adds locals => rw [hide, (Frame.adds_iff.mp adds).2]
  | locals adds inner outer globals => rw [hide, hideIn_append, (Frame.adds_iff.mp adds).2]

theorem place_le (adds : Adds name value place environment wider) :
    place ≤ environment.locals.length := by
  cases adds with
  | globals adds locals => exact Nat.zero_le _
  | locals adds inner outer globals =>
      rw [List.length_append, List.length_cons]
      omega

theorem length_locals (adds : Adds name value place environment wider) :
    wider.locals.length = environment.locals.length := by
  cases adds with
  | globals adds locals => rfl
  | locals adds inner outer globals => simp

theorem lookup? (adds : Adds name value place environment wider) (apart : other ≠ name) :
    environment.lookup? other = wider.lookup? other := by
  cases adds with
  | globals adds locals => simp only [Environment.lookup?, adds.get? apart]
  | locals adds inner outer globals =>
      simp only [Environment.lookup?, List.findSome?_append, List.findSome?_cons, adds.get? apart]

theorem defineGlobal (adds : Adds name value place environment wider) (apart : other ≠ name)
    (new : Value) :
    Adds name value place (environment.defineGlobal other new) (wider.defineGlobal other new) := by
  cases adds with
  | globals adds locals =>
      cases locals with
      | nil => exact .globals ((adds.erase apart).insert apart new) []
      | cons inner outer => exact .globals (adds.insert apart new) (inner.erase other :: outer)
  | locals adds inner outer globals =>
      cases inner with
      | nil => exact .locals (adds.erase apart) [] outer (globals.insert other new)
      | cons first inner =>
          exact .locals adds (first.erase other :: inner) outer (globals.insert other new)

theorem push (adds : Adds name value place environment wider) (frame : Frame) :
    Adds name value place (environment.push frame) (wider.push frame) := by
  cases adds with
  | globals adds locals => exact .globals adds (frame :: locals)
  | locals adds inner outer globals => exact .locals adds (frame :: inner) outer globals

/-- A frame further in than the added binding can be popped. -/
theorem pop (adds : Adds name value place environment wider)
    (inside : place < environment.locals.length) :
    Adds name value place environment.pop wider.pop := by
  cases adds with
  | globals adds locals => exact .globals adds locals.tail
  | locals adds inner outer globals =>
      cases inner with
      | nil => exact absurd inside (Nat.lt_irrefl _)
      | cons first inner => exact .locals adds inner outer globals

end Adds

end Environment

end ConsLisp
