import ConsLisp.Proofs.Form.Atoms

/-!
# Leaves of forms

The leaves of a form are its atoms other than NIL, from left to right.  They are what the tokens
that derive the form denote, one token for each leaf; NIL is left out because it can be written
with parentheses and need not be written at the end of a list.
-/

namespace ConsLisp

namespace Value

mutual

def leaves : Value → List Value
  | .nil => []
  | .quoted value => value.leaves
  | .list items terminator => leavesOfItems items ++ terminator.leaves
  | value => [value]

def leavesOfItems : List Value → List Value
  | [] => []
  | item :: items => item.leaves ++ leavesOfItems items

end

theorem leavesOfItems_append (first second : List Value) :
    leavesOfItems (first ++ second) = leavesOfItems first ++ leavesOfItems second := by
  induction first with
  | nil => rfl
  | cons item items ih => simp [leavesOfItems, ih]

theorem mem_leavesOfItems {part item : Value} {items : List Value} (member : item ∈ items)
    (inside : part ∈ item.leaves) : part ∈ leavesOfItems items := by
  induction items with
  | nil => cases member
  | cons first items ih =>
      rw [leavesOfItems, List.mem_append]
      rcases List.mem_cons.mp member with rfl | later
      · exact .inl inside
      · exact .inr (ih later)

end Value

namespace Token

/-- The leaf a token denotes. -/
def leaf? (token : Token) : Option Value :=
  token.atom?.filter (!·.isNil)

theorem leaf?_eq_some_iff {token : Token} {value : Value} :
    token.leaf? = some value ↔ token.Denotes value ∧ value ≠ .nil := by
  rw [leaf?, Option.filter_eq_some_iff, atom?_eq_some_iff]
  cases value <;> simp [Value.isNil]

theorem Denotes.leaf?_toList {token : Token} {value : Value} (denoted : token.Denotes value) :
    token.leaf?.toList = value.leaves := by
  rw [leaf?, atom?_eq_some_iff.mpr denoted]
  cases denoted <;> rfl

theorem Denotes.leaves {token : Token} {value : Value} (denoted : token.Denotes value)
    (notNil : value ≠ .nil) : value.leaves = [value] := by
  cases denoted with
  | nil folded => exact absurd rfl notNil
  | _ => rfl

end Token

namespace Form

theorem filterMap_leaf?_spread {phrases : List Phrase}
    (each : ∀ phrase ∈ phrases, phrase.tokens.filterMap Token.leaf? = phrase.form.leaves) :
    (Phrase.spread phrases).filterMap Token.leaf? = Value.leavesOfItems (Phrase.forms phrases) := by
  induction phrases with
  | nil => rfl
  | cons phrase phrases ih =>
      obtain ⟨own, others⟩ := List.forall_mem_cons.mp each
      rw [Phrase.spread_cons, List.filterMap_append, own, ih others, Phrase.forms_cons,
        Value.leavesOfItems]

/-- The leaves of a form are what the tokens that derive it denote, in this order. -/
theorem Derives.leaves {depth : Nat} {tokens : List Token} {value : Value}
    (derived : Derives depth tokens value) : tokens.filterMap Token.leaf? = value.leaves := by
  have mark {token : Token} (none : token.leaf? = none) (others : List Token) :
      (token :: others).filterMap Token.leaf? = others.filterMap Token.leaf? :=
    List.filterMap_cons_none none
  have closing : [Token.parenRight].filterMap Token.leaf? = [] := rfl
  induction derived with
  | @atom _ token value denoted =>
      rw [← denoted.leaf?_toList]
      cases found : token.leaf? <;> simp [found]
  | quote inner ih => rw [mark rfl, ih, Value.leaves]
  | empty => rfl
  | collapsed inner ih =>
      rw [mark rfl, List.filterMap_append, ih, closing, List.append_nil]
  | proper each nonempty notOneList ih =>
      rw [mark rfl, List.filterMap_append, filterMap_leaf?_spread ih, closing, Value.leaves]
      rfl
  | merged each nonempty last ih inner =>
      rw [mark rfl, List.filterMap_append, filterMap_leaf?_spread ih, mark rfl,
        List.filterMap_append, inner, closing, List.append_nil, Value.leaves, Value.leaves,
        Value.leavesOfItems_append, List.append_assoc]
  | dotted each nonempty last notList ih inner =>
      rw [mark rfl, List.filterMap_append, filterMap_leaf?_spread ih, mark rfl,
        List.filterMap_append, inner, closing, List.append_nil, Value.leaves]

/-- A part of a form that is a leaf by itself is a leaf of the form. -/
theorem MadeOf.mem_leaves {given : Token → Prop} {value : Value} (made : MadeOf given value)
    {part : Value} (occurs : part.Occurs value) (alone : part.leaves = [part]) :
    part ∈ value.leaves := by
  have own : part ∈ part.leaves := by
    rw [alone]
    exact List.mem_singleton_self part
  induction made with
  | nil =>
      cases occurs
      exact own
  | atom _ denoted =>
      cases occurs with
      | here => exact own
      | _ => cases denoted
  | quoted inner ih =>
      cases occurs with
      | here => exact own
      | quoted inside => exact ih inside
  | list nonempty each last notList ih ended =>
      rw [Value.leaves, List.mem_append]
      cases occurs with
      | here => exact List.mem_append.mp own
      | item member inside => exact .inl (Value.mem_leavesOfItems member (ih _ member inside))
      | terminator inside => exact .inr (ended inside)

end Form

end ConsLisp
