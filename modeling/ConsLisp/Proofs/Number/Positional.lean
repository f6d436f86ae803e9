import ConsLisp.Proofs.Rereading

/-!
# Texts of floats without their exponents

A finite float is written with a point between digits, or with one digit and perhaps more behind a
point before an exponent.  Moving the point as far as the exponent says gives digits with a point
between them which denote the same number.
-/

namespace ConsLisp.Number

open Literal

/-! ## What a text denotes -/

/-- Digits with a point between them, with the sign and the magnitude they denote. -/
inductive Positional : List Char → Bool → ℚ → Prop where
  | intro {negative : Bool} {whole fraction : List Char} (before : isUnsigned whole = true)
      (behind : isUnsigned fraction = true) :
      Positional (minus negative ++ (whole ++ '.' :: fraction)) negative
        (digitsValue (whole ++ fraction) / 10 ^ fraction.length)

/-- Digits behind a point, if there are any. -/
def pointed (digits : List Char) : List Char :=
  if digits.isEmpty then [] else '.' :: digits

/-- An exponent has a sign also if it is positive. -/
def powerSign (small : Bool) : Char :=
  if small then '-' else '+'

/-- The number that an exponent is written for. -/
def signedPower (small : Bool) (power : List Char) : Int :=
  if small then -(digitsValue power) else digitsValue power

/-- One digit, other digits behind a point and an exponent of at least two digits, with the sign and
the magnitude they denote. -/
inductive Scientific : List Char → Bool → ℚ → Prop where
  | intro {negative small : Bool} {first : Char} {fraction power : List Char}
      (digits : ∀ char ∈ first :: fraction, isDigit char = true) (significant : first ≠ '0')
      (long : 2 ≤ power.length) (powerDigits : ∀ char ∈ power, isDigit char = true) :
      Scientific (minus negative ++ first :: pointed fraction ++ 'e' :: powerSign small :: power)
        negative
        (digitsValue (first :: fraction) / 10 ^ fraction.length * 10 ^ signedPower small power)

/-! ## Texts without their exponents -/

/-- The number that is written as some digits, perhaps with a sign and a point, and an exponent. -/
def Numeral.ofMantissa (text : List Char) (exponent : Int) : Numeral :=
  let (negative, digits) := sign text
  ⟨negative, digits.takeWhile (· ≠ '.'), (digits.dropWhile (· ≠ '.')).drop 1, some exponent⟩

/-- Writes a text that has an exponent without it. -/
def withoutExponent (text : String) : String :=
  match text.toList.dropWhile (· ≠ 'e') with
  | _ :: mark :: power =>
      (Numeral.ofMantissa (text.toList.takeWhile (· ≠ 'e'))
        (signedPower (mark = '-') power)).positional.render
  | _ => text

theorem withoutExponent_of_notMem {text : String} (none : 'e' ∉ text.toList) :
    withoutExponent text = text := by
  have nothing : text.toList.dropWhile (· ≠ 'e') = [] := by
    rw [List.dropWhile_eq_nil_iff]
    intro char member
    rw [decide_eq_true_eq]
    rintro rfl
    exact none member
  rw [withoutExponent, nothing]

namespace Numeral

section

variable {negative small : Bool} {first : Char} {fraction power : List Char}

theorem ofMantissa_eq (digits : ∀ char ∈ first :: fraction, isDigit char = true) (exponent : Int) :
    ofMantissa (minus negative ++ first :: pointed fraction) exponent =
      ⟨negative, [first], fraction, some exponent⟩ := by
  have own : isDigit first = true := digits first List.mem_cons_self
  have unsigned : (first :: pointed fraction).head? ≠ some '-' := by
    rintro ⟨⟩
    cases own
  have notPoint : first ≠ '.' := by
    rintro rfl
    cases own
  rw [ofMantissa, sign_minus_append negative unsigned]
  cases fraction with
  | nil => simp [pointed, notPoint]
  | cons second others => simp [pointed, notPoint]

theorem isNumeric_mantissa (digits : ∀ char ∈ first :: fraction, isDigit char = true) :
    ∀ char ∈ minus negative ++ first :: pointed fraction, Token.isNumeric char = true := by
  have numeric {char : Char} (member : char ∈ first :: fraction) : Token.isNumeric char = true := by
    simp [Token.isNumeric, digits char member]
  refine List.forall_mem_append.mpr ⟨fun char member => ?_, List.forall_mem_cons.mpr
    ⟨numeric List.mem_cons_self, fun char member => ?_⟩⟩
  · cases negative with
    | true =>
        rw [List.mem_singleton.mp member]
        rfl
    | false => cases member
  · unfold pointed at member
    split at member
    · cases member
    · rcases List.mem_cons.mp member with rfl | behind
      · rfl
      · exact numeric (List.mem_cons_of_mem first behind)

theorem withoutExponent_eq (digits : ∀ char ∈ first :: fraction, isDigit char = true)
    {text : String}
    (same : text.toList =
      minus negative ++ first :: pointed fraction ++ 'e' :: powerSign small :: power) :
    withoutExponent text = (Numeral.mk negative [first] fraction
      (some (signedPower small power))).positional.render := by
  have none : ∀ char ∈ minus negative ++ first :: pointed fraction,
      decide (char ≠ 'e') = true := by
    intro char member
    rw [decide_eq_true_eq]
    rintro rfl
    cases isNumeric_mantissa digits 'e' member
  have front : text.toList.takeWhile (· ≠ 'e') = minus negative ++ first :: pointed fraction := by
    rw [same, List.takeWhile_append_of_pos none]
    exact List.append_nil _
  have back : text.toList.dropWhile (· ≠ 'e') = 'e' :: powerSign small :: power := by
    rw [same, List.dropWhile_append_of_pos none]
    rfl
  simp only [withoutExponent, front, back, ofMantissa_eq digits]
  cases small <;> rfl

/-- Laying out the digits moves the point as far as the exponent says. -/
theorem positional_scientific (digits : ∀ char ∈ first :: fraction, isDigit char = true)
    (exponent : Int) :
    ∃ numeral, (Numeral.mk negative [first] fraction (some exponent)).positional = numeral ∧
      numeral.IsPositional ∧ numeral.negative = negative ∧
      numeral.toRat = digitsValue (first :: fraction) / 10 ^ fraction.length * 10 ^ exponent := by
  refine ⟨layOut negative (first :: fraction) (1 + exponent), rfl,
    isPositional_layOut negative _ (List.cons_ne_nil _ _) digits, negative_layOut negative _, ?_⟩
  have places : 1 + exponent - ((first :: fraction).length : Int) =
      exponent + -(fraction.length : Int) := by
    rw [List.length_cons]
    omega
  rw [toRat_layOut, places, zpow_add₀ (by norm_num), zpow_neg, zpow_natCast]
  ring

end

namespace IsPositional

variable {numeral : Numeral} (positional : numeral.IsPositional)

include positional

theorem denotes : Positional numeral.render.toList numeral.negative numeral.toRat := by
  rw [positional.toList_render]
  exact .intro (isUnsigned_iff.mpr ⟨positional.whole, positional.wholeDigits⟩)
    (isUnsigned_iff.mpr ⟨positional.fraction, positional.fractionDigits⟩)

theorem withoutExponent_render : withoutExponent numeral.render = numeral.render := by
  refine withoutExponent_of_notMem fun member => ?_
  cases positional.isNumeric_render 'e' member

end IsPositional

end Numeral

theorem Positional.exists_numeral {text : String} {negative : Bool} {magnitude : ℚ}
    (own : Positional text.toList negative magnitude) :
    ∃ numeral : Numeral, numeral.IsPositional ∧ text = numeral.render ∧
      numeral.negative = negative ∧ numeral.toRat = magnitude := by
  generalize same : text.toList = chars at own
  obtain @⟨negative, whole, fraction, before, behind⟩ := own
  obtain ⟨someWhole, wholeDigits⟩ := isUnsigned_iff.mp before
  obtain ⟨someFraction, fractionDigits⟩ := isUnsigned_iff.mp behind
  have positional : (Numeral.mk negative whole fraction none).IsPositional :=
    ⟨someWhole, wholeDigits, someFraction, fractionDigits, rfl⟩
  refine ⟨_, positional, String.toList_injective ?_, rfl, rfl⟩
  rw [same, positional.toList_render]
  rfl

theorem Scientific.exists_numeral {text : String} {negative : Bool} {magnitude : ℚ}
    (own : Scientific text.toList negative magnitude) :
    ∃ numeral : Numeral, numeral.IsPositional ∧ withoutExponent text = numeral.render ∧
      numeral.negative = negative ∧ numeral.toRat = magnitude := by
  generalize same : text.toList = chars at own
  obtain ⟨digits, _, _, _⟩ := own
  obtain ⟨numeral, moved, positional, sign, value⟩ := Numeral.positional_scientific digits _
  exact ⟨numeral, positional, moved ▸ Numeral.withoutExponent_eq digits same, sign, value⟩

/-! ## Texts of finite floats -/

theorem digitsValue_lt {digits : List Char} (each : ∀ char ∈ digits, isDigit char = true) :
    digitsValue digits < Nat.pow 10 digits.length := by
  induction digits with
  | nil => exact Nat.one_pos
  | cons first others ih =>
      obtain ⟨own, later⟩ := List.forall_mem_cons.mp each
      have below := ih later
      have digit : digitsValue [first] < 10 := by
        simp only [isDigit, Bool.and_eq_true, decide_eq_true_eq] at own
        have most : first.toNat ≤ 57 := own.2
        have value : digitsValue [first] = 0 * 10 + (first.toNat - 48) := rfl
        omega
      have whole := digitsValue_append [first] others
      rw [List.singleton_append] at whole
      simp only [Nat.pow_eq, List.length_cons, Nat.pow_succ] at *
      nlinarith

namespace Numeral

/-- What is kept of the digits of a positive number begins with a digit other than zero. -/
theorem exists_significant {number : Nat} (positive : 0 < number) :
    ∃ first others, dropTrailingZeros (Nat.toDigits 10 number) = first :: others ∧
      first ≠ '0' ∧ ∀ char ∈ first :: others, isDigit char = true := by
  have each (char : Char) (member : char ∈ Nat.toDigits 10 number) : isDigit char = true :=
    isDigit_of_mem_toDigits member
  have value := digitsValue_toDigits number
  have least := (Shortest.length_toDigits_bounds positive).1
  have parts := dropTrailingZeros_append (Nat.toDigits 10 number)
  generalize Nat.toDigits 10 number = digits at *
  generalize dropTrailingZeros digits = kept at *
  cases kept with
  | nil =>
      rw [← parts, List.nil_append, digitsValue_zeros] at value
      omega
  | cons first others =>
      refine ⟨first, others, rfl, ?_, fun char member => ?_⟩
      · -- With a zero in front the number would be smaller than its length says.
        rintro rfl
        rw [← parts, List.cons_append] at least value each
        generalize others ++ zeros _ = rest at least value each
        have same : digitsValue ('0' :: rest) = digitsValue rest := by
          simp [digitsValue]
        have below := digitsValue_lt (List.forall_mem_cons.mp each).2
        rw [List.length_cons, Nat.add_sub_cancel] at least
        omega
      · exact each char (parts ▸ List.mem_append_left _ member)

/-- A float is written with its digits around the point, or in front of an exponent. -/
theorem ofFinite_cases {mantissa : Nat} {exponent : Int}
    (canonical : Binary.Canonical mantissa exponent) (negative : Bool) :
    (ofFinite negative mantissa exponent).IsPositional ∧
        (ofFinite negative mantissa exponent).negative = negative ∨
      ∃ first fraction power, ofFinite negative mantissa exponent =
          ⟨negative, [first], fraction, some power⟩ ∧
        first ≠ '0' ∧ ∀ char ∈ first :: fraction, isDigit char = true := by
  rcases Nat.eq_zero_or_pos mantissa with rfl | some
  · have digit : ∀ char ∈ ['0'], isDigit char = true := List.forall_mem_singleton.mpr rfl
    exact .inl ⟨⟨List.cons_ne_nil _ _, digit, List.cons_ne_nil _ _, digit, rfl⟩, rfl⟩
  · obtain ⟨first, others, kept, significant, digits⟩ :=
      exists_significant (number_ofBinary_pos canonical some)
    rw [ofFinite, if_neg (Nat.ne_of_gt some)]
    simp only [kept]
    unfold ofDigits
    split
    · exact .inl ⟨isPositional_layOut negative _ (List.cons_ne_nil _ _) digits,
        negative_layOut negative _⟩
    · exact .inr ⟨first, others, _, rfl, significant, digits⟩

/-- An exponent is written with its sign and enough digits. -/
theorem exists_exponentText (exponent : Int) :
    ∃ small power, exponentText exponent = 'e' :: powerSign small :: power ∧
      2 ≤ power.length ∧ (∀ char ∈ power, isDigit char = true) ∧
      signedPower small power = exponent := by
  refine ⟨decide (exponent < 0), zeros (2 - (Nat.toDigits 10 exponent.natAbs).length) ++
    Nat.toDigits 10 exponent.natAbs, by simp [exponentText, powerSign], ?_, ?_, ?_⟩
  · rw [List.length_append, length_zeros]
    omega
  · exact List.forall_mem_append.mpr ⟨isDigit_zero, fun _ => isDigit_of_mem_toDigits⟩
  · rw [signedPower, digitsValue_append, digitsValue_zeros, digitsValue_toDigits, Nat.zero_mul,
      Nat.zero_add]
    simp only [decide_eq_true_eq]
    split <;> omega

theorem toList_render_scientific (negative : Bool) (first : Char) (fraction : List Char)
    (exponent : Int) :
    (Numeral.mk negative [first] fraction (some exponent)).render.toList =
      minus negative ++ first :: pointed fraction ++ exponentText exponent := by
  simp [render, minus, pointed]

/-- The text of a positional numeral is a float token. -/
theorem IsPositional.outcomes_render {numeral : Numeral} (positional : numeral.IsPositional) :
    (Lexer.ofText numeral.render).outcomes =
      [.ok (.float (Binary.nearest numeral.negative
        (digitsValue (numeral.whole ++ numeral.fraction))
        (Nat.pow 10 numeral.fraction.length)))] := by
  have classified := positional.ofWord_render positional.float?_render
  rw [← Token.classify_encodeList] at classified
  have spells := Spells.float positional.isNumeric_render classified
  rw [Lexer.ofText, Lexer.outcomes_text, spells.lex_eq]
  rfl

end Numeral

theorem withoutExponent_floatText (float : Float) :
    positionalFloatText float = withoutExponent (floatText float) := by
  rw [positionalFloatText, floatText, floatTextWith, floatTextWith]
  cases parts : Binary.ofFloat float with
  | nan => exact (withoutExponent_of_notMem (by decide)).symm
  | infinite negative =>
      cases negative <;> exact (withoutExponent_of_notMem (by decide)).symm
  | finite negative mantissa exponent =>
      obtain ⟨canonical, _⟩ := Binary.pack_of_ofFloat parts
      rcases Numeral.ofFinite_cases canonical negative with
        ⟨positional, _⟩ | ⟨first, fraction, power, same, _, digits⟩
      · have kept : (Numeral.ofFinite negative mantissa exponent).positional =
            Numeral.ofFinite negative mantissa exponent := by
          rw [Numeral.positional, positional.exponent]
        simp only [kept, id]
        exact positional.withoutExponent_render.symm
      · obtain ⟨small, power, written, _, _, rfl⟩ := Numeral.exists_exponentText power
        have text := Numeral.toList_render_scientific negative first fraction
          (signedPower small power)
        rw [written] at text
        simp only [same, id]
        exact (Numeral.withoutExponent_eq digits text).symm

/-- A finite float is written with a point or with an exponent, and with its own sign. -/
theorem exists_denoted_floatText {float : Float} {negative : Bool} {mantissa : Nat}
    {exponent : Int} (parts : Binary.ofFloat float = .finite negative mantissa exponent) :
    ∃ magnitude, Positional (floatText float).toList negative magnitude ∨
      Scientific (floatText float).toList negative magnitude := by
  obtain ⟨canonical, _⟩ := Binary.pack_of_ofFloat parts
  simp only [floatText, floatTextWith, parts, id]
  rcases Numeral.ofFinite_cases canonical negative with
    ⟨positional, sign⟩ | ⟨first, fraction, power, same, significant, digits⟩
  · exact ⟨_, .inl (sign ▸ positional.denotes)⟩
  · obtain ⟨small, power, written, long, powerDigits, rfl⟩ := Numeral.exists_exponentText power
    rw [same, Numeral.toList_render_scientific, written]
    exact ⟨_, .inr (.intro digits significant long powerDigits)⟩

/-- Floats are written positionally by taking the exponent out of their texts, and the texts of
finite floats are digits with a point between them or digits with an exponent.  Taking the exponent
out of any such text gives digits with a point between them which denote the same number with the
same sign, and they are one token: the float nearest to that number. -/
theorem withoutExponent_keeps_number :
    (∀ float, positionalFloatText float = withoutExponent (floatText float)) ∧
    (∀ float negative mantissa exponent,
      Binary.ofFloat float = .finite negative mantissa exponent →
        ∃ magnitude, Positional (floatText float).toList negative magnitude ∨
          Scientific (floatText float).toList negative magnitude) ∧
    ∀ text negative magnitude,
      Positional text.toList negative magnitude ∨ Scientific text.toList negative magnitude →
        Positional (withoutExponent text).toList negative magnitude ∧
        ∃ numerator denominator : Nat, 0 < denominator ∧ numerator / denominator = magnitude ∧
          (Lexer.ofText (withoutExponent text)).outcomes =
            [.ok (.float (Binary.nearest negative numerator denominator))] := by
  refine ⟨withoutExponent_floatText, fun _ _ _ _ => exists_denoted_floatText, ?_⟩
  intro text negative magnitude denoted
  have laidOut : ∃ numeral : Numeral, numeral.IsPositional ∧
      withoutExponent text = numeral.render ∧ numeral.negative = negative ∧
        numeral.toRat = magnitude := by
    rcases denoted with own | own
    · obtain ⟨numeral, positional, rfl, given⟩ := own.exists_numeral
      exact ⟨numeral, positional, positional.withoutExponent_render, given⟩
    · exact own.exists_numeral
  obtain ⟨numeral, positional, same, rfl, rfl⟩ := laidOut
  rw [same]
  refine ⟨positional.denotes, _, _, Nat.pow_pos (by decide), ?_, positional.outcomes_render⟩
  rw [Numeral.toRat]
  push_cast
  rfl

/-- Fifteen hundred-millionths below zero. -/
theorem withoutExponent_keeps_number_small :
    withoutExponent "-1.5e-07" = "-0.00000015" ∧
      Positional (withoutExponent "-1.5e-07").toList true (15 / 10 ^ 8) := by
  have digits : ∀ char ∈ ['1', '5'], isDigit char = true :=
    List.forall_mem_cons.mpr ⟨rfl, List.forall_mem_singleton.mpr rfl⟩
  have power : ∀ char ∈ ['0', '7'], isDigit char = true :=
    List.forall_mem_cons.mpr ⟨rfl, List.forall_mem_singleton.mpr rfl⟩
  have denoted : Scientific "-1.5e-07".toList true (15 / 10 ^ 8) := by
    have mantissa : digitsValue ['1', '5'] = 15 := rfl
    have exponent : signedPower true ['0', '7'] = -7 := rfl
    have own := @Scientific.intro true true '1' ['5'] ['0', '7'] digits (by decide) le_rfl power
    have value : ((15 : Nat) : ℚ) / 10 ^ ['5'].length * 10 ^ (-7 : Int) = 15 / 10 ^ 8 := by
      norm_num
    rwa [mantissa, exponent, value] at own
  exact ⟨rfl, (withoutExponent_keeps_number.2.2 _ _ _ (.inr denoted)).1⟩

end ConsLisp.Number
