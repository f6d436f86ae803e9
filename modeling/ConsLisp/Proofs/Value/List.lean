import ConsLisp.Value.Kind
import ConsLisp.Value.List

/-!
# Laws of lists

What items in front of a value make of it: a list is extended, and anything else becomes the
terminator.
-/

namespace ConsLisp.Value

@[simp] theorem isNil_iff {value : Value} : value.isNil = true ↔ value = .nil := by
  cases value <;> simp [isNil]

@[simp] theorem cons_list (head : Value) (items : List Value) (terminator : Value) :
    cons head (.list items terminator) = .list (head :: items) terminator := rfl

theorem cons_of_not_list (head : Value) {tail : Value} (notList : tail.isOf .list = false) :
    cons head tail = .list [head] tail := by
  cases tail with
  | list items terminator => cases notList
  | _ => rfl

@[simp] theorem ofItems_cons (head : Value) (items : List Value) (terminator : Value) :
    ofItems (head :: items) terminator = cons head (ofItems items terminator) := rfl

theorem ofItems_list (items more : List Value) (terminator : Value) :
    ofItems items (.list more terminator) = .list (items ++ more) terminator := by
  induction items with
  | nil => rfl
  | cons head items ih => rw [ofItems_cons, ih, cons_list, List.cons_append]

theorem ofItems_of_not_list {items : List Value} {terminator : Value} (nonempty : items ≠ [])
    (notList : terminator.isOf .list = false) :
    ofItems items terminator = .list items terminator := by
  induction items with
  | nil => exact absurd rfl nonempty
  | cons head items ih =>
      cases items with
      | nil => exact cons_of_not_list head notList
      | cons second others => rw [ofItems_cons, ih (List.cons_ne_nil second others), cons_list]

/-- A property that putting one value in front of another hands on is handed on by any number of
items. -/
theorem holds_ofItems {holds : Value → Prop}
    (cons : ∀ {head tail}, holds head → holds tail → holds (.cons head tail))
    {items : List Value} {terminator : Value} (each : ∀ item ∈ items, holds item)
    (last : holds terminator) : holds (.ofItems items terminator) := by
  induction items with
  | nil => exact last
  | cons item items ih =>
      obtain ⟨first, others⟩ := List.forall_mem_cons.mp each
      exact cons first (ih others)

theorem walk?_ofItems (forms : List Value) : (ofItems forms .nil).walk? = some forms := by
  cases forms with
  | nil => rfl
  | cons form forms =>
      rw [ofItems_of_not_list (List.cons_ne_nil form forms) rfl]
      rfl

/-- The forms that a call is given, if it is given a list of them. -/
def asForms : Value → List Value
  | .list items terminator => elements items terminator
  | _ => []

theorem asForms_ofItems (forms : List Value) : (ofItems forms .nil).asForms = forms := by
  cases forms with
  | nil => rfl
  | cons form forms =>
      rw [ofItems_of_not_list (List.cons_ne_nil form forms) rfl]
      rfl

end ConsLisp.Value
