import ConsLisp.Proofs.Form.Leaves
import ConsLisp.Proofs.Value.Printer

/-!
# The layout of printed forms

The text of a form is the texts of its leaves from left to right.  Between them there is nothing
but punctuation, dots and the word NIL, and after a leaf there is a blank, a closing parenthesis or
the end.
-/

namespace ConsLisp

/-- A text with the leaves that are printed in it.  If it is marked as free, what stands before it
ends there: it is empty or begins with punctuation that ends a word. -/
inductive Layout : Bool → List Char → List Value → Prop where
  | empty : Layout true [] []
  | closing {free : Bool} {char : Char} {chars : List Char} {leaves : List Value}
      (own : char = ' ' ∨ char = ')') (rest : Layout free chars leaves) :
      Layout true (char :: chars) leaves
  | opening {free : Bool} {char : Char} {chars : List Char} {leaves : List Value}
      (own : char = '(' ∨ char = '\'') (rest : Layout free chars leaves) :
      Layout false (char :: chars) leaves
  | word {word chars : List Char} {leaves : List Value}
      (own : word = ['N', 'I', 'L'] ∨ word = ['.'])
      (rest : Layout true chars leaves) : Layout false (word ++ chars) leaves
  | leaf {token : Token} {leaf : Value} {limit : Nat} {text : String} {chars : List Char}
      {leaves : List Value} (denoted : token.Denotes leaf) (fits : token.IsLiteral)
      (notNil : leaf ≠ .nil) (shown : leaf.display limit = .ok text)
      (rest : Layout true chars leaves) :
      Layout false (text.toList ++ chars) (leaf :: leaves)

namespace Layout

variable {limit : Nat} {chars : List Char} {leaves : List Value}

/-- Any text of the value is laid out in front of a text that is. -/
def Extends (limit : Nat) (value : Value) : Prop :=
  ∀ text, value.display limit = .ok text → ∀ chars leaves, Layout true chars leaves →
    Layout false (text.toList ++ chars) (value.leaves ++ leaves)

theorem Extends.atom {token : Token} {value : Value} (denoted : token.Denotes value)
    (fits : token.IsLiteral) : Extends limit value := by
  intro text shown chars leaves rest
  by_cases nil : value = .nil
  · subst nil
    obtain rfl : text = "NIL" := by
      cases limit with
      | zero => cases shown
      | succ limit => exact (Except.ok.inj shown).symm
    exact .word (.inl rfl) rest
  · rw [denoted.leaves nil]
    exact .leaf denoted fits nil shown rest

theorem Extends.quoted {inner : Value} (extend : Extends limit inner) :
    Extends (limit + 1) (.quoted inner) := by
  intro text shown chars leaves rest
  obtain ⟨own, found, rfl⟩ := Value.display_quoted_eq_ok_iff.mp shown
  rw [String.toList_append, Value.leaves]
  exact .opening (.inr rfl) (extend own found chars leaves rest)

/-- The items of a list with blanks in between. -/
theorem Extends.spaced {items : List Value} {texts : List String}
    (each : ∀ item ∈ items, Extends limit item) (nonempty : items ≠ [])
    (shown : items.mapM (Value.display limit) = .ok texts) (rest : Layout true chars leaves) :
    Layout false ((" ".intercalate texts).toList ++ chars)
      (Value.leavesOfItems items ++ leaves) := by
  rw [String.toList_intercalate]
  induction Result.mapM_eq_ok_iff.mp shown with
  | nil => exact absurd rfl nonempty
  | @cons item text items texts own others ih =>
      obtain ⟨first, later⟩ := List.forall_mem_cons.mp each
      cases others with
      | nil => simpa [Value.leavesOfItems] using first text own chars leaves rest
      | cons second more =>
          have behind := ih later (List.cons_ne_nil _ _)
            (Result.mapM_eq_ok_iff.mpr (.cons second more))
          have whole := first text own _ _ (.closing (.inl rfl) behind)
          simpa [Value.leavesOfItems, List.intercalate_cons_cons] using whole

theorem Extends.list {items : List Value} {terminator : Value}
    (each : ∀ item ∈ items, Extends limit item) (nonempty : items ≠ [])
    (last : Extends limit terminator) : Extends (limit + 1) (.list items terminator) := by
  intro text shown chars leaves rest
  have closed : Layout true (')' :: chars) leaves := .closing (.inr rfl) rest
  rw [Value.leaves]
  cases nil : terminator.isNil with
  | true =>
      obtain rfl := Value.isNil_iff.mp nil
      obtain ⟨texts, found, rfl⟩ := Value.display_proper_eq_ok_iff.mp shown
      have whole := Layout.opening (.inl rfl) (Extends.spaced each nonempty found closed)
      simpa [Value.leaves] using whole
  | false =>
      obtain ⟨texts, ending, found, ended, rfl⟩ := (Value.display_dotted_eq_ok_iff nil).mp shown
      have behind := last ending ended _ _ closed
      have dotted := Layout.closing (.inl rfl) (.word (.inr rfl) (.closing (.inl rfl) behind))
      have whole := Layout.opening (.inl rfl) (Extends.spaced each nonempty found dotted)
      simpa using whole

end Layout

/-- The text of a form is laid out. -/
theorem Form.MadeOf.layout {given : Token → Prop} {value : Value} (made : MadeOf given value)
    (fits : ∀ token, given token → token.IsLiteral) (limit : Nat) :
    Layout.Extends limit value := by
  induction made generalizing limit with
  | nil => exact .atom (@Token.Denotes.nil "NIL" (by decide)) True.intro
  | atom own denoted => exact .atom denoted (fits _ own)
  | quoted inner ih =>
      cases limit with
      | zero => exact fun _ impossible => by cases impossible
      | succ limit => exact .quoted (ih limit)
  | list nonempty each last notList ih ended =>
      cases limit with
      | zero => exact fun _ impossible => by cases impossible
      | succ limit => exact .list (fun item member => ih item member limit) nonempty (ended limit)

end ConsLisp
