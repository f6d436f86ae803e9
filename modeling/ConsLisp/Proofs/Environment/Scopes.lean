import ConsLisp.Environment.ScopeTree
import ConsLisp.Proofs.Environment

/-!
# Changes to a tree of scopes

Binding and removing names changes the frames of single scopes and leaves the shape of the tree
alone.  A new scope has no bindings, and the scopes around those that were there stay the same.
-/

namespace ConsLisp.ScopeTree

variable {tree other : ScopeTree} {scope : Nat}

/-! ## The shape -/

/-- For each scope the one around it, if there is one. -/
def outers (tree : ScopeTree) : List (Option Nat) :=
  tree.scopes.map Scope.outer

theorem outer?_eq (tree : ScopeTree) (scope : Nat) :
    tree.outer? scope = (tree.outers[scope]?).join := by
  rw [outer?, outers, List.getElem?_map]
  cases tree.scopes[scope]? <;> rfl

@[simp] theorem length_outers (tree : ScopeTree) : tree.outers.length = tree.scopes.length :=
  List.length_map _

@[simp] theorem outers_modify (tree : ScopeTree) (changed : Nat) (change : Frame → Frame) :
    (tree.modify changed change).outers = tree.outers := by
  refine List.ext_getElem? fun scope => ?_
  simp only [outers, modify, List.getElem?_map, List.getElem?_modify]
  cases tree.scopes[scope]? with
  | none => rfl
  | some found => by_cases same : changed = scope <;> simp [same]

theorem outers_add (tree : ScopeTree) (outer : Option Nat) :
    (tree.add outer).2.outers = tree.outers ++ [outer] := by
  simp [add, outers]

/-- The scopes around a scope depend only on which scope is around which. -/
theorem chain_congr (same : ∀ inner ≤ scope, tree.outer? inner = other.outer? inner) :
    tree.chain scope = other.chain scope := by
  induction scope using Nat.strongRecOn with
  | ind scope ih =>
      rw [chain, chain, ← same scope (Nat.le_refl scope)]
      cases tree.outer? scope with
      | none => rfl
      | some outer =>
          by_cases lower : outer < scope
          · simp only [if_pos lower]
            rw [ih outer lower fun inner within => same inner (by omega)]
          · simp only [if_neg lower]

theorem root_congr (same : ∀ inner ≤ scope, tree.outer? inner = other.outer? inner) :
    tree.root scope = other.root scope := by
  rw [root, root, chain_congr same]

theorem root_of_outers (same : tree.outers = other.outers) : tree.root = other.root :=
  funext fun _ => root_congr fun inner _ => by rw [outer?_eq, outer?_eq, same]

theorem chain_add (tree : ScopeTree) (outer : Option Nat) (old : scope < tree.scopes.length) :
    (tree.add outer).2.chain scope = tree.chain scope := by
  refine chain_congr fun inner within => ?_
  have present : inner < tree.outers.length := by
    rw [length_outers]
    exact Nat.lt_of_le_of_lt within old
  rw [outer?_eq, outer?_eq, outers_add, List.getElem?_append_left present]

theorem root_add (tree : ScopeTree) (outer : Option Nat) (old : scope < tree.scopes.length) :
    (tree.add outer).2.root scope = tree.root scope := by
  rw [root, root, chain_add tree outer old]

/-- The scopes around a scope were added before it. -/
theorem le_of_mem_chain {around : Nat} (member : around ∈ tree.chain scope) : around ≤ scope := by
  induction scope using Nat.strongRecOn with
  | ind scope ih =>
      rw [chain] at member
      split at member
      next outer _ =>
          split at member
          next lower =>
              rcases List.mem_cons.mp member with rfl | further
              · exact Nat.le_refl _
              · exact Nat.le_trans (ih outer lower further) (Nat.le_of_lt lower)
          next => exact Nat.le_of_eq (List.mem_singleton.mp member)
      next => exact Nat.le_of_eq (List.mem_singleton.mp member)

theorem chain_ne_nil (tree : ScopeTree) (scope : Nat) : tree.chain scope ≠ [] := by
  rw [chain]
  split
  · split <;> exact List.cons_ne_nil _ _
  · exact List.cons_ne_nil _ _

theorem root_le (tree : ScopeTree) (scope : Nat) : tree.root scope ≤ scope := by
  have last : tree.root scope = (tree.chain scope).getLast (tree.chain_ne_nil scope) := by
    rw [root, List.getLastD_eq_getLast?, List.getLast?_eq_some_getLast, Option.getD_some]
  rw [last]
  exact le_of_mem_chain (List.getLast_mem _)

/-! ## The frames -/

theorem frame_modify (tree : ScopeTree) {changed : Nat} (change : Frame → Frame)
    (present : changed < tree.scopes.length) (scope : Nat) :
    (tree.modify changed change).frame scope =
      if changed = scope then change (tree.frame scope) else tree.frame scope := by
  simp only [frame, modify, List.getElem?_modify]
  by_cases same : changed = scope
  · subst same
    simp [List.getElem?_eq_getElem present]
  · simp [same]

theorem frame_add (tree : ScopeTree) (outer : Option Nat) (scope : Nat) :
    (tree.add outer).2.frame scope = tree.frame scope := by
  simp only [frame, add, List.getElem?_append]
  split
  · rfl
  next new =>
      rw [List.getElem?_eq_none (Nat.le_of_not_lt new)]
      cases scope - tree.scopes.length <;> rfl

end ConsLisp.ScopeTree
