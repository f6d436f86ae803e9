import ConsLisp.Number.Literal

/-!
# What number literals look like

The readers of literals take a text apart.  Here the texts they accept are put together from a sign,
digits and a point.
-/

namespace ConsLisp.Number.Literal

/-- The minus sign of a negative number. -/
def minus (negative : Bool) : List Char :=
  if negative then ['-'] else []

theorem eq_of_sign {literal rest : List Char} {negative : Bool}
    (parts : sign literal = (negative, rest)) : literal = minus negative ++ rest := by
  unfold sign at parts
  split at parts <;> cases parts <;> rfl

theorem sign_minus_append (negative : Bool) {rest : List Char} (unsigned : rest.head? ≠ some '-') :
    sign (minus negative ++ rest) = (negative, rest) := by
  cases negative with
  | true => rfl
  | false =>
      simp only [minus, Bool.false_eq_true, if_false, List.nil_append]
      unfold sign
      split
      next => exact absurd rfl unsigned
      next => rfl

theorem isUnsigned_iff {digits : List Char} :
    isUnsigned digits = true ↔ digits ≠ [] ∧ ∀ char ∈ digits, isDigit char = true := by
  simp [isUnsigned]

/-- Digits do not begin with a sign, and neither do digits before a point. -/
theorem head?_ne_minus {digits : List Char} (each : ∀ char ∈ digits, isDigit char = true)
    {rest : List Char} (unsigned : rest.head? ≠ some '-') :
    (digits ++ rest).head? ≠ some '-' := by
  cases digits with
  | nil => exact unsigned
  | cons first others =>
      intro same
      cases same
      cases each '-' List.mem_cons_self

/-- An integer literal is a sign and digits, whose number and value are within their limits. -/
theorem integer?_eq_some_iff {literal : List Char} {number : Int} :
    integer? literal = some number ↔
      ∃ negative digits, literal = minus negative ++ digits ∧ isUnsigned digits = true ∧
        digits.length ≤ digitLimit ∧
        number = (if negative then -(digitsValue digits : Int) else digitsValue digits) ∧
        inRange number = true := by
  constructor
  · intro found
    obtain ⟨negative, digits, parts⟩ : ∃ negative digits, sign literal = (negative, digits) :=
      ⟨_, _, rfl⟩
    refine ⟨negative, digits, eq_of_sign parts, ?_⟩
    simp only [integer?, parts] at found
    grind
  · rintro ⟨negative, digits, rfl, unsigned, short, rfl, fits⟩
    have parts : sign (minus negative ++ digits) = (negative, digits) := by
      have first := @head?_ne_minus digits (isUnsigned_iff.mp unsigned).2 [] (by simp)
      rw [List.append_nil] at first
      exact sign_minus_append negative first
    simp only [integer?, parts, unsigned, short, decide_true, Bool.and_self, if_true, fits]

/-- A float literal is a sign and digits with a point before, among or after them. -/
theorem float?_eq_some_iff {literal : List Char} {number : Float} :
    float? literal = some number ↔
      ∃ negative whole fraction, literal = minus negative ++ (whole ++ '.' :: fraction) ∧
        isUnsigned (whole ++ fraction) = true ∧
        number = Binary.nearest negative (digitsValue (whole ++ fraction))
          (Nat.pow 10 fraction.length) := by
  constructor
  · intro found
    obtain ⟨negative, rest, parts⟩ : ∃ negative rest, sign literal = (negative, rest) :=
      ⟨_, _, rfl⟩
    simp only [float?, parts] at found
    split at found
    next fraction point =>
        refine ⟨negative, rest.takeWhile isDigit, fraction, ?_, by grind⟩
        rw [← point, List.takeWhile_append_dropWhile, ← eq_of_sign parts]
    next => cases found
  · rintro ⟨negative, whole, fraction, rfl, unsigned, rfl⟩
    have wholeDigits : ∀ char ∈ whole, isDigit char = true := fun char member =>
      (isUnsigned_iff.mp unsigned).2 char (List.mem_append_left fraction member)
    have parts : sign (minus negative ++ (whole ++ '.' :: fraction)) =
        (negative, whole ++ '.' :: fraction) :=
      sign_minus_append negative (head?_ne_minus wholeDigits (by simp))
    have before : (whole ++ '.' :: fraction).takeWhile isDigit = whole := by
      rw [List.takeWhile_append_of_pos wholeDigits]
      exact List.append_nil whole
    have behind : (whole ++ '.' :: fraction).dropWhile isDigit = '.' :: fraction := by
      rw [List.dropWhile_append_of_pos wholeDigits]
      rfl
    simp only [float?, parts, before, behind, unsigned, if_true]

end ConsLisp.Number.Literal
