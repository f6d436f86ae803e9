import ConsLisp.Error

/-!
# More depth

A limit on nesting decides only whether a value can be printed or compared, not what comes of it:
under a larger limit the result is the same, unless the smaller one was too small.
-/

namespace ConsLisp

/-- The second result is the first one, unless that is a failure for want of depth. -/
def Deepens {ε α : Type} (deep : ε → Prop) (first second : Except ε α) : Prop :=
  first = second ∨ ∃ cause, first = .error cause ∧ deep cause

namespace Deepens

variable {ε δ α β : Type} {deep : ε → Prop}

theorem refl (result : Except ε α) : Deepens deep result result :=
  .inl rfl

theorem of_deep {cause : ε} (own : deep cause) (second : Except ε α) :
    Deepens deep (.error cause) second :=
  .inr ⟨cause, rfl, own⟩

theorem bind {first second : Except ε α} {next other : α → Except ε β}
    (deepens : Deepens deep first second)
    (later : ∀ value, Deepens deep (next value) (other value)) :
    Deepens deep (first >>= next) (second >>= other) := by
  rcases deepens with rfl | ⟨cause, rfl, own⟩
  · cases first with
    | error cause => exact .refl _
    | ok value => exact later value
  · exact of_deep own _

theorem mapError {deeper : δ → Prop} {change : ε → δ}
    (kept : ∀ cause, deep cause → deeper (change cause)) {first second : Except ε α}
    (deepens : Deepens deep first second) :
    Deepens deeper (first.mapError change) (second.mapError change) := by
  rcases deepens with rfl | ⟨cause, rfl, own⟩
  · exact .refl _
  · exact of_deep (kept cause own) _

theorem mapM {step other : α → Except ε β} (each : ∀ item, Deepens deep (step item) (other item))
    (items : List α) : Deepens deep (items.mapM step) (items.mapM other) := by
  induction items with
  | nil => exact .refl _
  | cons item items ih =>
      rw [List.mapM_cons, List.mapM_cons]
      exact (each item).bind fun _ => ih.bind fun _ => .refl _

/-- Where the depth was enough, more of it makes no difference. -/
theorem eq {first second : Except ε α} (deepens : Deepens deep first second)
    (enough : ∀ cause, first = .error cause → ¬ deep cause) : first = second := by
  rcases deepens with same | ⟨cause, failed, own⟩
  · exact same
  · exact absurd own (enough cause failed)

/-- What was found is also found with more depth. -/
theorem ok_of_ok {first second : Except ε α} (deepens : Deepens deep first second) {result : α}
    (found : first = .ok result) : second = .ok result := by
  rcases deepens with same | ⟨cause, failed, _⟩
  · exact same ▸ found
  · cases found.symm.trans failed

end Deepens

/-! ## Printing -/

/-- Ways of printing values of which the second goes deeper. -/
abbrev PrintsDeeper (print deeper : Value → Printed) : Prop :=
  ∀ value, Deepens (· = .tooDeep) (print value) (deeper value)

section

variable {print deeper : Value → Printed} (prints : PrintsDeeper print deeper)
include prints

theorem Parameter.display_deepens (parameter : Parameter) :
    Deepens (· = .tooDeep) (parameter.display print) (parameter.display deeper) := by
  unfold display
  cases parameter.mode with
  | normal => exact .refl _
  | plain => exact .refl _
  | rest => exact .refl _
  | optional => exact (prints _).bind fun _ => .refl _

theorem Parameter.displayParts_deepens (announced : Bool) (parameters : List Parameter) :
    Deepens (· = .tooDeep) (displayParts print announced parameters)
      (displayParts deeper announced parameters) := by
  induction parameters generalizing announced with
  | nil => exact .refl _
  | cons parameter parameters ih =>
      refine (display_deepens prints parameter).bind fun own => ?_
      split
      · exact (ih true).bind fun _ => .refl _
      · exact (ih announced).bind fun _ => .refl _

theorem Callable.display_deepens (function : Callable) :
    Deepens (· = .tooDeep) (function.display print) (function.display deeper) :=
  Deepens.bind ((Parameter.displayParts_deepens prints false _).bind fun _ => .refl _)
    fun _ => .refl _

end

namespace Value

theorem display_deepens {limit larger : Nat} (within : limit ≤ larger) :
    PrintsDeeper (display limit) (display larger) := by
  induction limit generalizing larger with
  | zero => exact fun _ => .inr ⟨.tooDeep, rfl, rfl⟩
  | succ limit ih =>
      obtain ⟨larger, rfl⟩ := Nat.exists_eq_add_of_le' (Nat.le_of_add_left_le within)
      have inside := ih (Nat.le_of_succ_le_succ within)
      intro value
      cases value with
      | quoted inner => exact (inside inner).bind fun _ => .refl _
      | list items terminator =>
          refine (Deepens.mapM inside items).bind fun _ => ?_
          split
          · exact .refl _
          · exact (inside terminator).bind fun _ => .refl _
      | callable function => exact function.display_deepens inside
      | _ => exact .refl _

theorem princ_deepens {limit larger : Nat} (within : limit ≤ larger) :
    PrintsDeeper (princ limit) (princ larger) := by
  intro value
  cases value with
  | string text => exact .refl _
  | quoted inner => exact display_deepens within inner
  | _ => exact display_deepens within _

/-! ## Comparing -/

/-- Ways of comparing values of which the second goes deeper. -/
abbrev ComparesDeeper (compare deeper : Value → Value → Comparison) : Prop :=
  ∀ left right, Deepens (fun _ => True) (compare left right) (deeper left right)

section

variable {compare deeper : Value → Value → Comparison} (compares : ComparesDeeper compare deeper)
include compares

theorem equalItems_deepens (left right : Value) (firsts seconds : List Value) :
    Deepens (fun _ => True) (equalItems compare left right firsts seconds)
      (equalItems deeper left right firsts seconds) := by
  induction firsts generalizing seconds with
  | nil =>
      cases seconds with
      | nil => exact compares left right
      | cons second seconds => exact .refl _
  | cons first firsts ih =>
      cases seconds with
      | nil => exact .refl _
      | cons second seconds =>
          refine (compares first second).bind fun same => ?_
          split
          · exact ih seconds
          · exact .refl _

theorem equalParameters_deepens (firsts seconds : List Parameter) :
    Deepens (fun _ => True) (equalParameters compare firsts seconds)
      (equalParameters deeper firsts seconds) := by
  induction firsts generalizing seconds with
  | nil =>
      cases seconds with
      | nil => exact .refl _
      | cons second seconds => exact .refl _
  | cons first firsts ih =>
      cases seconds with
      | nil => exact .refl _
      | cons second seconds =>
          unfold equalParameters
          split
          · refine (compares _ _).bind fun same => ?_
            split
            · exact ih seconds
            · exact .refl _
          · exact .refl _

theorem equalSignatures_deepens (left right : List Parameter) :
    Deepens (fun _ => True) (equalSignatures compare left right)
      (equalSignatures deeper left right) := by
  unfold equalSignatures
  split
  · exact equalParameters_deepens compares left right
  · exact .refl _

end

theorem equal_deepens {limit larger : Nat} (within : limit ≤ larger) :
    ComparesDeeper (equal limit) (equal larger) := by
  induction limit generalizing larger with
  | zero => exact fun _ _ => .inr ⟨.outsideLists, rfl, trivial⟩
  | succ limit ih =>
      obtain ⟨larger, rfl⟩ := Nat.exists_eq_add_of_le' (Nat.le_of_add_left_le within)
      have inside := ih (Nat.le_of_succ_le_succ within)
      intro left right
      unfold equal
      split
      next => exact .refl _
      next => exact .refl _
      next => exact .refl _
      next => exact .refl _
      next => exact .refl _
      next => exact .refl _
      next first second => exact inside first second
      next firsts first seconds second =>
          exact (equalItems_deepens inside first second firsts seconds).mapError fun _ _ => trivial
      next firstName firsts first secondName seconds second =>
          split
          · exact .refl _
          · refine (equalSignatures_deepens inside firsts seconds).bind fun sameParameters => ?_
            split
            · refine (inside first second).bind fun sameBody => ?_
              split <;> exact .refl _
            · exact .refl _
      next => exact .refl _

end Value

end ConsLisp
