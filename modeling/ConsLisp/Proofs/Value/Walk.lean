import ConsLisp.Proofs.Evaluation.Canonical
import ConsLisp.Proofs.Value.Weight

/-!
# Walking along lists

The elements of a list can be taken all at once, or one after the other by taking the list apart
into its first item and what remains.  Canonical lists come apart into what they were put together
from, so both ways meet the same elements.
-/

namespace ConsLisp.Value

/-- What a walk along a value meets: the first item of every list it comes to, and at last the rest
that is no list, unless that is NIL. -/
def visits : Value → List Value
  | .list items terminator => car items terminator :: visits (cdr items terminator)
  | .nil => []
  | value => [value]
termination_by value => value.weight
decreasing_by exact (weight_unpack items terminator).2

/-- The elements that a value adds to a list it ends: those of a list, none for NIL, and anything
else itself. -/
def trailing : Value → List Value
  | .list items terminator => elements items terminator
  | .nil => []
  | value => [value]

theorem trailing_of_not_list {value : Value} (notList : value.isOf .list = false) :
    value.trailing = if value.isNil then [] else [value] := by
  cases value with
  | list items terminator => cases notList
  | _ => rfl

theorem length_elements (items : List Value) (terminator : Value) :
    (elements items terminator).length = length items terminator := by
  unfold elements length
  split
  · rfl
  · exact List.length_append

theorem elements_append (items more : List Value) (terminator : Value) :
    elements (items ++ more) terminator = items ++ elements more terminator := by
  unfold elements
  split
  · rfl
  · exact List.append_assoc items more [terminator]

/-! ## Putting together and taking apart -/

theorem exists_unpack_cons {tail : Value} (canonical : Canonical tail) (head : Value) :
    ∃ items terminator, cons head tail = .list items terminator ∧
      unpack items terminator = (head, tail) := by
  cases notList : tail.isOf .list with
  | false => exact ⟨[head], tail, cons_of_not_list head notList, rfl⟩
  | true =>
      cases tail with
      | list items terminator =>
          obtain ⟨⟨nonempty, _⟩, _⟩ := canonical_list.mp canonical
          obtain ⟨second, others, rfl⟩ := List.exists_cons_of_ne_nil nonempty
          exact ⟨head :: second :: others, terminator, cons_list head _ terminator, rfl⟩
      | _ => cases notList

theorem cons_unpack {items : List Value} {terminator : Value}
    (canonical : Canonical (.list items terminator)) :
    cons (car items terminator) (cdr items terminator) = .list items terminator := by
  obtain ⟨⟨nonempty, notList⟩, _⟩ := canonical_list.mp canonical
  match items, nonempty with
  | [head], _ => exact cons_of_not_list head notList
  | head :: second :: others, _ => exact cons_list head (second :: others) terminator

/-! ## Elements one after the other -/

/-- One step of a walk: the elements of a canonical list are its first item and those of what
remains. -/
theorem elements_unpack {items : List Value} {terminator : Value}
    (canonical : Canonical (.list items terminator)) :
    elements items terminator = car items terminator :: (cdr items terminator).trailing := by
  obtain ⟨⟨nonempty, notList⟩, _⟩ := canonical_list.mp canonical
  match items, nonempty with
  | [head], _ =>
      have last : (cdr [head] terminator).trailing = elements [] terminator :=
        trailing_of_not_list notList
      rw [last]
      exact elements_append [head] [] terminator
  | head :: second :: others, _ => exact elements_append [head] (second :: others) terminator

/-- A walk along a canonical value meets its elements. -/
theorem visits_of_canonical {value : Value} (canonical : Canonical value) :
    value.visits = value.trailing := by
  fun_induction visits value with
  | case1 items terminator ih =>
      rw [ih canonical.unpack.2]
      exact (elements_unpack canonical).symm
  | case2 => rfl
  | case3 value notList notNil =>
      cases value with
      | list items terminator => exact absurd rfl (notList items terminator)
      | nil => exact absurd rfl notNil
      | _ => rfl

/-- Items in front of a value come before its elements. -/
theorem exists_elements_ofItems {items : List Value} (nonempty : items ≠ []) (tail : Value) :
    ∃ all last, ofItems items tail = .list all last ∧
      elements all last = items ++ tail.trailing := by
  cases notList : tail.isOf .list with
  | false =>
      refine ⟨items, tail, ofItems_of_not_list nonempty notList, ?_⟩
      have split := elements_append items [] tail
      rw [List.append_nil] at split
      rw [split, trailing_of_not_list notList]
      rfl
  | true =>
      cases tail with
      | list more last =>
          exact ⟨items ++ more, last, ofItems_list items more last, elements_append items more last⟩
      | _ => cases notList

/-- On canonical values, putting together and taking apart undo each other; a walk along a list
meets its elements, in order and as many as its length says; and the elements of a list that was
made of items are these items and then the elements of what they were put in front of. -/
theorem walks_agree_with_elements :
    (∀ head tail, Canonical head → Canonical tail →
      ∃ items terminator, cons head tail = .list items terminator ∧
        car items terminator = head ∧ cdr items terminator = tail) ∧
    (∀ items terminator, Canonical (.list items terminator) →
      cons (car items terminator) (cdr items terminator) = .list items terminator ∧
        visits (.list items terminator) = elements items terminator ∧
        (visits (.list items terminator)).length = length items terminator) ∧
    ∀ items tail, items ≠ [] → Canonical tail →
      ∃ all last, ofItems items tail = .list all last ∧
        elements all last = items ++ tail.trailing := by
  refine ⟨fun head tail _ canonical => ?_, fun items terminator canonical => ?_,
    fun items tail nonempty _ => exists_elements_ofItems nonempty tail⟩
  · obtain ⟨items, terminator, same, parts⟩ := exists_unpack_cons canonical head
    exact ⟨items, terminator, same, congrArg Prod.fst parts, congrArg Prod.snd parts⟩
  · have met : visits (.list items terminator) = elements items terminator :=
      visits_of_canonical canonical
    refine ⟨cons_unpack canonical, met, ?_⟩
    rw [met]
    exact length_elements items terminator

/-- Along the list `(1 NIL . T)`, and along one item in front of it. -/
theorem walks_agree_with_elements_dotted :
    Canonical (.list [.integer 1, .nil] .truth) ∧
      visits (.list [.integer 1, .nil] .truth) = [.integer 1, .nil, .truth] ∧
      cdr [.integer 1, .nil] .truth = .list [.nil] .truth ∧
      ∃ all last, ofItems [.string "a"] (.list [.integer 1, .nil] .truth) = .list all last ∧
        elements all last = [.string "a", .integer 1, .nil, .truth] := by
  have canonical : Canonical (.list [.integer 1, .nil] .truth) := by
    refine canonical_list.mpr ⟨⟨List.cons_ne_nil _ _, rfl⟩, ?_, ?_⟩
    · rintro item (_ | ⟨_, _ | ⟨_, ⟨⟩⟩⟩) <;> rintro part ⟨⟩ ⟨⟩
    · rintro part ⟨⟩ ⟨⟩
  obtain ⟨_, walks, lists⟩ := walks_agree_with_elements
  exact ⟨canonical, (walks _ _ canonical).2.1, rfl,
    lists [.string "a"] _ (List.cons_ne_nil _ _) canonical⟩

end ConsLisp.Value
