import ConsLisp.Proofs.Result
import ConsLisp.Proofs.Value.List
import ConsLisp.Value.Printer

/-!
# When a value has a text

A quote or list has a text when its parts have one a level deeper.
-/

namespace ConsLisp.Value

theorem display_integer {number : Int} (written : number.natAbs < Number.unwritable)
    (limit : Nat) : (Value.integer number).display (limit + 1) = .ok (toString number) := by
  rw [display, displayInteger, Number.integerText?, if_pos written]
  rfl

theorem display_quoted_eq_ok_iff {limit : Nat} {inner : Value} {text : String} :
    (Value.quoted inner).display (limit + 1) = .ok text ↔
      ∃ own, inner.display limit = .ok own ∧ "'" ++ own = text := by
  rw [display]
  constructor
  · intro shown
    obtain ⟨own, found, same⟩ := Result.bind_eq_ok_iff.mp shown
    exact ⟨own, found, Except.ok.inj same⟩
  · rintro ⟨own, found, rfl⟩
    exact Result.bind_eq_ok_iff.mpr ⟨own, found, rfl⟩

theorem display_proper_eq_ok_iff {limit : Nat} {items : List Value} {text : String} :
    (Value.list items .nil).display (limit + 1) = .ok text ↔
      ∃ texts, items.mapM (display limit) = .ok texts ∧
        "(" ++ " ".intercalate texts ++ ")" = text := by
  rw [display]
  constructor
  · intro shown
    obtain ⟨texts, found, same⟩ := Result.bind_eq_ok_iff.mp shown
    exact ⟨texts, found, Except.ok.inj same⟩
  · rintro ⟨texts, found, rfl⟩
    exact Result.bind_eq_ok_iff.mpr ⟨texts, found, rfl⟩

theorem display_dotted_eq_ok_iff {limit : Nat} {items : List Value} {terminator : Value}
    {text : String} (notNil : terminator.isNil = false) :
    (Value.list items terminator).display (limit + 1) = .ok text ↔
      ∃ texts last, items.mapM (display limit) = .ok texts ∧
        terminator.display limit = .ok last ∧
        "(" ++ " ".intercalate texts ++ " . " ++ last ++ ")" = text := by
  rw [display]
  constructor
  · intro shown
    obtain ⟨texts, found, composed⟩ := Result.bind_eq_ok_iff.mp shown
    rw [notNil] at composed
    obtain ⟨last, ended, same⟩ := Result.bind_eq_ok_iff.mp composed
    exact ⟨texts, last, found, ended, Except.ok.inj same⟩
  · rintro ⟨texts, last, found, ended, rfl⟩
    refine Result.bind_eq_ok_iff.mpr ⟨texts, found, ?_⟩
    rw [notNil]
    exact Result.bind_eq_ok_iff.mpr ⟨last, ended, rfl⟩

/-- A list has a text exactly when its items and its terminator have one a level deeper. -/
theorem exists_display_list_iff {limit : Nat} {items : List Value} {terminator : Value} :
    (∃ text, (Value.list items terminator).display (limit + 1) = .ok text) ↔
      (∀ item ∈ items, ∃ text, item.display limit = .ok text) ∧
        (terminator.isNil = false → ∃ text, terminator.display limit = .ok text) := by
  cases notNil : terminator.isNil with
  | true =>
      obtain rfl := isNil_iff.mp notNil
      constructor
      · rintro ⟨text, shown⟩
        obtain ⟨texts, found, _⟩ := display_proper_eq_ok_iff.mp shown
        exact ⟨Result.exists_of_mapM_eq_ok found, fun impossible => by cases impossible⟩
      · rintro ⟨each, _⟩
        obtain ⟨texts, found⟩ := Result.exists_mapM_eq_ok each
        exact ⟨_, display_proper_eq_ok_iff.mpr ⟨texts, found, rfl⟩⟩
  | false =>
      constructor
      · rintro ⟨text, shown⟩
        obtain ⟨texts, last, found, ended, _⟩ := (display_dotted_eq_ok_iff notNil).mp shown
        exact ⟨Result.exists_of_mapM_eq_ok found, fun _ => ⟨last, ended⟩⟩
      · rintro ⟨each, ended⟩
        obtain ⟨texts, found⟩ := Result.exists_mapM_eq_ok each
        obtain ⟨last, shown⟩ := ended rfl
        exact ⟨_, (display_dotted_eq_ok_iff notNil).mpr ⟨texts, last, found, shown, rfl⟩⟩

end ConsLisp.Value
