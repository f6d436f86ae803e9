import ConsLisp.Text.Uppercase

/-!
# Folding twice

The characters of which upper-case forms are made up are their own upper-case forms, so a folded
text stays as it is when it is folded again.
-/

namespace ConsLisp.Text.Uppercase

/-! ## The characters that move and those they move to -/

/-- The code points a run moves. -/
def Run.codes (run : Run) : List Nat :=
  (List.range ((run.last - run.first) / run.stride + 1)).map fun step =>
    run.first + run.stride * step

/-- The code points with an upper-case form other than themselves. -/
def sources : List Nat :=
  (List.range 26).map (0x61 + ·) ++ expansions.map Prod.fst ++ runs.flatMap Run.codes

/-- The code points of which the other upper-case forms are made up. -/
def targets : List Nat :=
  (List.range 26).map (0x41 + ·) ++
    expansions.flatMap (fun expansion => expansion.2.map fun code => (Char.ofNat code).toNat) ++
    runs.flatMap fun run => run.codes.map fun code => (run.image code).toNat

/-- Numbers as the bits of a single one. -/
def mask : List Nat → Nat
  | [] => 0
  | number :: numbers => Nat.lor (Nat.shiftLeft 1 number) (mask numbers)

theorem testBit_mask (numbers : List Nat) (number : Nat) :
    (mask numbers).testBit number = decide (number ∈ numbers) := by
  induction numbers with
  | nil => simp [mask]
  | cons first numbers ih =>
      have bits : mask (first :: numbers) = 1 <<< first ||| mask numbers := rfl
      rw [bits, Nat.testBit_or, ih, Nat.one_shiftLeft, Nat.testBit_two_pow]
      simp [eq_comm]

theorem not_mem_of_land {first second : List Nat} (none : Nat.land (mask first) (mask second) = 0)
    {number : Nat} (member : number ∈ second) : number ∉ first := by
  intro other
  have bit : (mask first &&& mask second).testBit number = true := by
    rw [Nat.testBit_and, testBit_mask, testBit_mask]
    simp [other, member]
  have nothing : mask first &&& mask second = 0 := none
  rw [nothing, Nat.zero_testBit] at bit
  cases bit

/-- A code point of upper-case forms does not move, and it is beyond the digits and not the
backslash.  All are compared at once; one by one it would take minutes. -/
theorem of_mem_targets {code : Nat} (target : code ∈ targets) :
    code ∉ sources ∧ 0x41 ≤ code ∧ code ≠ 0x5C := by
  have apart : code ∉ 0x5C :: (List.range 0x41 ++ sources) :=
    not_mem_of_land (by decide +kernel) target
  simp only [List.mem_cons, List.mem_append, List.mem_range, not_or] at apart
  exact ⟨apart.2.2, Nat.le_of_not_lt apart.2.1, apart.1⟩

/-! ## Upper-case forms -/

theorem Run.mem_codes {run : Run} {code : Nat} (covers : run.covers code = true) :
    code ∈ run.codes := by
  simp only [Run.covers, Bool.and_eq_true, decide_eq_true_eq, beq_iff_eq] at covers
  obtain ⟨⟨above, below⟩, whole⟩ := covers
  refine List.mem_map.mpr ⟨(code - run.first) / run.stride, List.mem_range.mpr ?_, ?_⟩
  · exact Nat.lt_succ_of_le (Nat.div_le_div_right (Nat.sub_le_sub_right below _))
  · rw [Nat.mul_div_cancel' (Nat.dvd_of_mod_eq_zero whole)]
    omega

/-- A small letter moves to one of the capital letters. -/
theorem toUpper_cases (char : Char) :
    0x61 ≤ char.toNat ∧ char.toNat ∈ (List.range 26).map (0x61 + ·) ∧
        char.toUpper.toNat ∈ (List.range 26).map (0x41 + ·) ∨
      char.toUpper = char := by
  by_cases lower : 'a'.val ≤ char.val ∧ char.val ≤ 'z'.val
  · have above : 0x61 ≤ char.toNat := UInt32.le_iff_toNat_le.mp lower.1
    have below : char.toNat ≤ 0x7A := UInt32.le_iff_toNat_le.mp lower.2
    have moved : char.toUpper.toNat = char.toNat - 0x20 := by
      have sum : char.toUpper.toNat = (char.val + ('A'.val - 'a'.val)).toNat := by
        delta Char.toUpper
        rw [dif_pos lower]
        rfl
      have difference : ('A'.val - 'a'.val).toNat = Nat.pow 2 32 - 0x20 := rfl
      have own : char.val.toNat = char.toNat := rfl
      rw [sum, UInt32.toNat_add, difference, own, Nat.pow_eq]
      omega
    refine .inl ⟨above, List.mem_map.mpr ⟨char.toNat - 0x61, List.mem_range.mpr ?_, ?_⟩,
      List.mem_map.mpr ⟨char.toNat - 0x61, List.mem_range.mpr ?_, ?_⟩⟩ <;> omega
  · exact .inr (dif_neg lower)

/-- A character either moves, and then its form is made up of targets, or is its own form. -/
theorem ofChar_cases (char : Char) :
    0x61 ≤ char.toNat ∧ char.toNat ∈ sources ∧ (∀ image ∈ ofChar char, image.toNat ∈ targets) ∨
      ofChar char = [char] := by
  unfold ofChar
  split
  next ascii =>
      rcases toUpper_cases char with ⟨above, source, target⟩ | same
      · refine .inl ⟨above, List.mem_append_left _ (List.mem_append_left _ source), ?_⟩
        rw [List.forall_mem_singleton]
        exact List.mem_append_left _ (List.mem_append_left _ target)
      · exact .inr (congrArg ([·]) same)
  next beyond =>
      have above : 0x61 ≤ char.toNat := by omega
      split
      next codes found =>
          obtain ⟨before, after, whole, _⟩ := List.lookup_eq_some_iff.mp found
          have member : (char.toNat, codes) ∈ expansions := by simp [whole]
          refine .inl ⟨above, List.mem_append_left _ (List.mem_append_right _
            (List.mem_map.mpr ⟨_, member, rfl⟩)), fun image inside => ?_⟩
          obtain ⟨code, listed, rfl⟩ := List.mem_map.mp inside
          exact List.mem_append_left _ (List.mem_append_right _
            (List.mem_flatMap.mpr ⟨_, member, List.mem_map.mpr ⟨code, listed, rfl⟩⟩))
      next =>
          split
          next run found =>
              have member := List.mem_of_find?_eq_some found
              have covers : run.covers char.toNat = true := by simpa using List.find?_some found
              have code := Run.mem_codes covers
              refine .inl ⟨above, List.mem_append_right _
                (List.mem_flatMap.mpr ⟨run, member, code⟩), ?_⟩
              rw [List.forall_mem_singleton]
              exact List.mem_append_right _
                (List.mem_flatMap.mpr ⟨run, member, List.mem_map.mpr ⟨_, code, rfl⟩⟩)
          next => exact .inr rfl

/-- The characters of an upper-case form are their own upper-case forms. -/
theorem ofChar_of_mem_ofChar {char image : Char} (member : image ∈ ofChar char) :
    ofChar image = [image] := by
  rcases ofChar_cases char with ⟨_, _, targets⟩ | same
  · exact (ofChar_cases image).resolve_left fun moves =>
      (of_mem_targets (targets image member)).1 moves.2.1
  · rw [same] at member
    rw [List.mem_singleton.mp member, same]

theorem ofChar_ne_nil (char : Char) : ofChar char ≠ [] := by
  have all : expansions.all (fun expansion => !expansion.2.isEmpty) = true := by
    decide +kernel
  unfold ofChar
  split
  next => exact List.cons_ne_nil _ _
  next =>
      split
      next codes found =>
          obtain ⟨before, after, whole, _⟩ := List.lookup_eq_some_iff.mp found
          have own := List.all_eq_true.mp all (char.toNat, codes) (by simp [whole])
          simpa using own
      next => split <;> exact List.cons_ne_nil _ _

end ConsLisp.Text.Uppercase

namespace ConsLisp.Text

theorem flatMap_ofChar {chars : List Char}
    (each : ∀ char ∈ chars, Uppercase.ofChar char = [char]) :
    chars.flatMap Uppercase.ofChar = chars := by
  induction chars with
  | nil => rfl
  | cons char chars ih =>
      obtain ⟨own, others⟩ := List.forall_mem_cons.mp each
      rw [List.flatMap_cons, own, ih others, List.singleton_append]

theorem ofChar_of_mem_fold {text : String} {char : Char} (member : char ∈ (fold text).toList) :
    Uppercase.ofChar char = [char] := by
  rw [fold, String.toList_ofList] at member
  obtain ⟨source, _, inside⟩ := List.mem_flatMap.mp member
  exact Uppercase.ofChar_of_mem_ofChar inside

/-- Folding a folded text changes nothing. -/
theorem fold_fold (text : String) : fold (fold text) = fold text := by
  rw [fold, flatMap_ofChar fun _ => ofChar_of_mem_fold, String.ofList_toList]

end ConsLisp.Text
