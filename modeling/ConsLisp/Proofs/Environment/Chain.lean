import ConsLisp.Environment
import ConsLisp.Proofs.Environment.Scopes

/-!
# Scopes as environments

A scope and those around it are an environment, whose globals are the frame of the outermost one.
Resolving a name from the scope and binding one there, in the scope or globally, is the same in the
tree as in that environment, and a new scope inside another one is a new frame.
-/

namespace ConsLisp

theorem Environment.lookup?_eq_findSome? (environment : Environment) (name : String) :
    environment.lookup? name = environment.frames.findSome? (·.get? name) := by
  rw [lookup?, frames, List.findSome?_append, List.findSome?_singleton]

namespace ScopeTree

variable {tree : ScopeTree} {scope outer : Nat}

/-! ## From a scope to the one around it -/

/-- The scope is directly inside the other one. -/
def Inside (tree : ScopeTree) (scope outer : Nat) : Prop :=
  tree.outer? scope = some outer ∧ outer < scope

/-- Induction from the outermost scopes inward. -/
theorem inward (tree : ScopeTree) {motive : Nat → Prop}
    (outermost : ∀ scope, (∀ outer, ¬ tree.Inside scope outer) → motive scope)
    (inside : ∀ scope outer, tree.Inside scope outer → motive outer → motive scope)
    (scope : Nat) : motive scope := by
  induction scope using Nat.strongRecOn with
  | ind scope ih =>
      by_cases around : ∃ outer, tree.Inside scope outer
      · obtain ⟨outer, within⟩ := around
        exact inside scope outer within (ih outer within.2)
      · exact outermost scope (not_exists.mp around)

theorem chain_of_outermost (outermost : ∀ outer, ¬ tree.Inside scope outer) :
    tree.chain scope = [scope] := by
  rw [chain]
  split
  next outer around => exact if_neg fun lower => outermost outer ⟨around, lower⟩
  next => rfl

theorem chain_of_inside (inside : tree.Inside scope outer) :
    tree.chain scope = scope :: tree.chain outer := by
  rw [chain, inside.1]
  exact if_pos inside.2

theorem root_of_outermost (outermost : ∀ outer, ¬ tree.Inside scope outer) :
    tree.root scope = scope := by
  rw [root, chain_of_outermost outermost]
  rfl

theorem root_of_inside (inside : tree.Inside scope outer) : tree.root scope = tree.root outer := by
  obtain ⟨first, others, split⟩ := List.exists_cons_of_ne_nil (tree.chain_ne_nil outer)
  rw [root, root, chain_of_inside inside, split]
  rfl

/-! ## The environment of a scope -/

/-- What can be seen from a scope. -/
def environment (tree : ScopeTree) (scope : Nat) : Environment :=
  ⟨(tree.chain scope).dropLast.map tree.frame, tree.frame (tree.root scope)⟩

theorem environment_of_outermost (outermost : ∀ outer, ¬ tree.Inside scope outer) :
    tree.environment scope = ⟨[], tree.frame scope⟩ := by
  rw [environment, root_of_outermost outermost, chain_of_outermost outermost]
  rfl

theorem environment_of_inside (inside : tree.Inside scope outer) :
    tree.environment scope = (tree.environment outer).push (tree.frame scope) := by
  rw [environment, root_of_inside inside, chain_of_inside inside,
    List.dropLast_cons_of_ne_nil (tree.chain_ne_nil outer)]
  rfl

theorem frames_environment (tree : ScopeTree) (scope : Nat) :
    (tree.environment scope).frames = (tree.chain scope).map tree.frame := by
  induction scope using tree.inward with
  | outermost scope alone =>
      rw [environment_of_outermost alone, chain_of_outermost alone]
      rfl
  | inside scope outer within ih =>
      rw [environment_of_inside within, chain_of_inside within, List.map_cons, ← ih]
      rfl

/-- A name is resolved from a scope as in its environment. -/
theorem lookup_eq_environment_lookup? (tree : ScopeTree) (scope : Nat) (name : String) :
    tree.lookup scope name =
      ((tree.environment scope).lookup? name).elim (.error (.scope (.notFound name))) .ok := by
  have found : (tree.environment scope).lookup? name =
      (tree.chain scope).findSome? fun around => (tree.frame around).get? name := by
    rw [Environment.lookup?_eq_findSome?, frames_environment, List.findSome?_map]
    rfl
  rw [lookup, ← found]
  cases (tree.environment scope).lookup? name with
  | none => rfl
  | some value => rfl

/-! ## Changes of one frame -/

theorem inside_modify (tree : ScopeTree) (changed : Nat) (change : Frame → Frame) :
    (tree.modify changed change).Inside = tree.Inside := by
  funext scope outer
  rw [Inside, Inside, outer?_eq, outer?_eq, outers_modify]

/-- A change further in is not seen. -/
theorem environment_modify_of_lt {changed : Nat} (change : Frame → Frame)
    (present : changed < tree.scopes.length) (further : scope < changed) :
    (tree.modify changed change).environment scope = tree.environment scope := by
  have same : ∀ other < changed, (tree.modify changed change).frame other = tree.frame other := by
    intro other lower
    rw [frame_modify tree change present, if_neg (Nat.ne_of_gt lower)]
  induction scope using tree.inward with
  | outermost scope alone =>
      rw [environment_of_outermost alone, environment_of_outermost (by rwa [inside_modify]),
        same scope further]
  | inside scope outer within ih =>
      rw [environment_of_inside within, environment_of_inside (by rwa [inside_modify]),
        same scope further, ih (Nat.lt_trans within.2 further)]

/-- A change of the outermost frame is one of the globals. -/
theorem environment_modify_root (change : Frame → Frame) (present : scope < tree.scopes.length) :
    (tree.modify (tree.root scope) change).environment scope =
      ⟨(tree.environment scope).locals, change (tree.environment scope).globals⟩ := by
  have bound := Nat.lt_of_le_of_lt (tree.root_le scope) present
  induction scope using tree.inward with
  | outermost scope alone =>
      rw [environment_of_outermost alone, environment_of_outermost (by rwa [inside_modify]),
        frame_modify tree change bound, if_pos (root_of_outermost alone)]
  | inside scope outer within ih =>
      -- Scopes are numbered inward, so the outermost one is another than this.
      have apart : tree.root outer ≠ scope :=
        Nat.ne_of_lt (Nat.lt_of_le_of_lt (tree.root_le outer) within.2)
      rw [root_of_inside within] at bound ⊢
      rw [environment_of_inside within, environment_of_inside (by rwa [inside_modify]),
        frame_modify tree change bound, if_neg apart, ih (Nat.lt_trans within.2 present) bound]
      rfl

/-- A change of the frame of a scope is one of the innermost frame. -/
theorem environment_modify_self (change : Frame → Frame) (present : scope < tree.scopes.length) :
    ((∀ outer, ¬ tree.Inside scope outer) ∧
      (tree.modify scope change).environment scope = ⟨[], change (tree.frame scope)⟩) ∨
    ∃ outer, tree.Inside scope outer ∧
      (tree.modify scope change).environment scope =
        (tree.environment outer).push (change (tree.frame scope)) := by
  have changed : (tree.modify scope change).frame scope = change (tree.frame scope) := by
    rw [frame_modify tree change present, if_pos rfl]
  by_cases around : ∃ outer, tree.Inside scope outer
  · obtain ⟨outer, within⟩ := around
    refine .inr ⟨outer, within, ?_⟩
    rw [environment_of_inside (by rwa [inside_modify]), changed,
      environment_modify_of_lt change present within.2]
  · have alone := not_exists.mp around
    refine .inl ⟨alone, ?_⟩
    rw [environment_of_outermost (by rwa [inside_modify]), changed]

theorem environment_define (present : scope < tree.scopes.length) (name : String) (value : Value) :
    (tree.define scope name value).environment scope =
      (tree.environment scope).define name value := by
  rcases environment_modify_self (·.insert name value) present with
    ⟨alone, changed⟩ | ⟨outer, within, changed⟩
  · rw [define, changed, environment_of_outermost alone]
    rfl
  · rw [define, changed, environment_of_inside within]
    rfl

theorem environment_defineGlobal (present : scope < tree.scopes.length) (name : String)
    (value : Value) :
    (tree.defineGlobal scope name value).environment scope =
      (tree.environment scope).defineGlobal name value := by
  have still : scope < (tree.modify scope (·.erase name)).scopes.length := by
    rwa [← length_outers, outers_modify, length_outers]
  rw [defineGlobal, define, environment_modify_root _ still]
  -- In an outermost scope the name is removed from the frame it is then bound in.
  rcases environment_modify_self (·.erase name) present with
    ⟨alone, removed⟩ | ⟨outer, within, removed⟩
  · rw [removed, environment_of_outermost alone]
    rfl
  · rw [removed, environment_of_inside within]
    rfl

/-! ## New scopes -/

/-- A new scope changes nothing for those that were there. -/
theorem environment_add (outer : Option Nat) (old : scope < tree.scopes.length) :
    (tree.add outer).2.environment scope = tree.environment scope := by
  rw [environment, environment, root_add tree outer old, chain_add tree outer old,
    funext (frame_add tree outer)]

theorem environment_add_inside (present : outer < tree.scopes.length) :
    (tree.add (some outer)).2.environment (tree.add (some outer)).1 =
      (tree.environment outer).push .empty := by
  have within : (tree.add (some outer)).2.Inside tree.scopes.length outer :=
    ⟨by simp [add, outer?], present⟩
  have empty : (tree.add (some outer)).2.frame tree.scopes.length = .empty := by
    simp [add, frame]
  rw [← environment_add (some outer) present, ← empty]
  exact environment_of_inside within

end ScopeTree

end ConsLisp
