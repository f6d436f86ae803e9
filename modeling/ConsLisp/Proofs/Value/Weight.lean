import ConsLisp.Proofs.Value.List

/-!
# The weight of values

How much of a value there is, counted so that every part of a list weighs less than the list, and
so do the forms after its head when they are taken together.
-/

namespace ConsLisp.Value

mutual

def weight : Value → Nat
  | .quoted value => value.weight + 1
  | .list items terminator => weightItems items + terminator.weight + 1
  | _ => 1

def weightItems : List Value → Nat
  | [] => 0
  | item :: items => item.weight + 1 + weightItems items

end

theorem weight_pos (value : Value) : 0 < value.weight := by
  cases value <;> simp [weight]

theorem weight_lt_weightItems {item : Value} {items : List Value} (member : item ∈ items) :
    item.weight < weightItems items := by
  induction items with
  | nil => cases member
  | cons first items ih =>
      rw [weightItems]
      rcases List.mem_cons.mp member with rfl | later
      · omega
      · have := ih later
        omega

theorem weightItems_lt_cons (item : Value) (items : List Value) :
    weightItems items < weightItems (item :: items) := by
  rw [weightItems]
  omega

theorem weightItems_append (first second : List Value) :
    weightItems (first ++ second) = weightItems first + weightItems second := by
  induction first with
  | nil => simp [weightItems]
  | cons item items ih =>
      rw [List.cons_append, weightItems, ih, weightItems]
      omega

/-- The forms of a call weigh no more than the list they stand in. -/
theorem weightItems_asForms (value : Value) : weightItems value.asForms ≤ value.weight := by
  cases value with
  | list items terminator =>
      rw [asForms, elements, weight]
      split
      · omega
      · rw [weightItems_append, weightItems, weightItems]
        omega
  | _ => exact Nat.zero_le _

theorem weight_unpack (items : List Value) (terminator : Value) :
    (unpack items terminator).1.weight < (list items terminator).weight ∧
      (unpack items terminator).2.weight < (list items terminator).weight := by
  have last := terminator.weight_pos
  match items with
  | [] =>
      simp only [unpack, weight, weightItems]
      omega
  | [head] =>
      simp only [unpack, weight, weightItems]
      omega
  | head :: second :: others =>
      simp only [unpack, weight, weightItems]
      omega

/-- The forms after the head of a list, taken together, weigh less than the list. -/
theorem weightItems_unpack (items : List Value) (terminator : Value) :
    weightItems (unpack items terminator).2.asForms + 1 < (list items terminator).weight := by
  have last := terminator.weight_pos
  match items with
  | [] =>
      simp only [unpack, asForms, weight, weightItems]
      omega
  | [head] =>
      have own := head.weight_pos
      have rest := terminator.weightItems_asForms
      simp only [unpack, weight, weightItems]
      omega
  | head :: second :: others =>
      have own := head.weight_pos
      have rest := (list (second :: others) terminator).weightItems_asForms
      simp only [unpack, weight, weightItems] at rest ⊢
      omega

end ConsLisp.Value
