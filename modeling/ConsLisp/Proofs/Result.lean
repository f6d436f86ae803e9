import Mathlib.Data.List.Forall2

/-!
# Results

When a composed computation has a result: all of its parts must have one.
-/

namespace ConsLisp.Result

variable {ε δ α β : Type}

theorem bind_eq_ok_iff {first : Except ε α} {next : α → Except ε β} {result : β} :
    (first >>= next) = .ok result ↔ ∃ value, first = .ok value ∧ next value = .ok result := by
  cases first with
  | error cause => simp [bind, Except.bind]
  | ok value => simp [bind, Except.bind]

theorem bind_eq_error_iff {first : Except ε α} {next : α → Except ε β} {cause : ε} :
    (first >>= next) = .error cause ↔
      first = .error cause ∨ ∃ value, first = .ok value ∧ next value = .error cause := by
  cases first with
  | error cause => simp [bind, Except.bind]
  | ok value => simp [bind, Except.bind]

theorem map_eq_ok_iff {first : Except ε α} {change : α → β} {result : β} :
    first.map change = .ok result ↔ ∃ value, first = .ok value ∧ change value = result := by
  cases first with
  | error cause => simp [Except.map]
  | ok value => simp [Except.map]

theorem mapError_eq_ok_iff {first : Except ε α} {change : ε → δ} {result : α} :
    first.mapError change = .ok result ↔ first = .ok result := by
  cases first with
  | error cause => simp [Except.mapError]
  | ok value => simp [Except.mapError]

theorem mapM_eq_ok_iff {step : α → Except ε β} {items : List α} {results : List β} :
    items.mapM step = .ok results ↔
      List.Forall₂ (fun item result => step item = .ok result) items results := by
  induction items generalizing results with
  | nil =>
      rw [List.mapM_nil, List.forall₂_nil_left_iff]
      exact ⟨fun same => (Except.ok.inj same).symm, fun same => congrArg Except.ok same.symm⟩
  | cons item items ih =>
      rw [List.mapM_cons, bind_eq_ok_iff, List.forall₂_cons_left_iff]
      constructor
      · rintro ⟨result, own, composed⟩
        obtain ⟨others, rest, same⟩ := bind_eq_ok_iff.mp composed
        exact ⟨result, others, own, ih.mp rest, (Except.ok.inj same).symm⟩
      · rintro ⟨result, others, own, rest, rfl⟩
        exact ⟨result, own, bind_eq_ok_iff.mpr ⟨others, ih.mpr rest, rfl⟩⟩

/-- A step that has a result on every item has results on all of them. -/
theorem exists_mapM_eq_ok {step : α → Except ε β} {items : List α}
    (each : ∀ item ∈ items, ∃ result, step item = .ok result) :
    ∃ results, items.mapM step = .ok results := by
  induction items with
  | nil => exact ⟨[], rfl⟩
  | cons item items ih =>
      obtain ⟨result, own⟩ := each item List.mem_cons_self
      obtain ⟨results, rest⟩ := ih fun other member => each other (List.mem_cons_of_mem item member)
      refine ⟨result :: results, mapM_eq_ok_iff.mpr (.cons own (mapM_eq_ok_iff.mp rest))⟩

theorem exists_of_mapM_eq_error {step : α → Except ε β} {items : List α} {cause : ε}
    (failed : items.mapM step = .error cause) : ∃ item ∈ items, step item = .error cause := by
  induction items with
  | nil => cases failed
  | cons item items ih =>
      rw [List.mapM_cons] at failed
      rcases bind_eq_error_iff.mp failed with own | ⟨_, _, composed⟩
      · exact ⟨item, List.mem_cons_self, own⟩
      · rcases bind_eq_error_iff.mp composed with rest | ⟨_, _, impossible⟩
        · obtain ⟨other, member, own⟩ := ih rest
          exact ⟨other, List.mem_cons_of_mem item member, own⟩
        · cases impossible

theorem exists_of_mapM_eq_ok {step : α → Except ε β} {items : List α} {results : List β}
    (found : items.mapM step = .ok results) : ∀ item ∈ items, ∃ result, step item = .ok result := by
  induction mapM_eq_ok_iff.mp found with
  | nil => simp
  | cons own rest ih =>
      intro item member
      rcases List.mem_cons.mp member with rfl | other
      · exact ⟨_, own⟩
      · exact ih (mapM_eq_ok_iff.mpr rest) item other

theorem exists_item_of_mapM_eq_ok {step : α → Except ε β} {items : List α} {results : List β}
    (found : items.mapM step = .ok results) :
    ∀ result ∈ results, ∃ item ∈ items, step item = .ok result := by
  induction mapM_eq_ok_iff.mp found with
  | nil => simp
  | @cons item _ _ _ own rest ih =>
      refine List.forall_mem_cons.mpr ⟨⟨item, List.mem_cons_self, own⟩, fun result member => ?_⟩
      obtain ⟨other, inside, given⟩ := ih (mapM_eq_ok_iff.mpr rest) result member
      exact ⟨other, List.mem_cons_of_mem item inside, given⟩

end ConsLisp.Result
