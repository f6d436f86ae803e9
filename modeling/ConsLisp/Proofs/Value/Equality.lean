import ConsLisp.Proofs.Value.Depth
import ConsLisp.Proofs.Result
import ConsLisp.Proofs.Value.SameTree

/-!
# Equality as identity of trees

Comparing two values answers whether they are the same tree and hold no builtin, as far as the limit
lets it look.  So equality is symmetric and transitive, and the values that are equal to themselves
are those without builtins and NaNs.
-/

namespace ConsLisp

namespace Value

/-! ## Answers of a comparison -/

/-- A comparison answers whether something holds. -/
def Decides (outcome : Comparison) (claim : Prop) : Prop :=
  ∃ same, outcome = .ok same ∧ (same = true ↔ claim)

namespace Decides

variable {outcome : Comparison} {claim : Prop}

theorem no (never : ¬ claim) : Decides (.ok false) claim :=
  ⟨false, rfl, by simpa using never⟩

theorem yes (holds : claim) : Decides (.ok true) claim :=
  ⟨true, rfl, by simpa using holds⟩

theorem congr {other : Prop} (decides : Decides outcome claim) (same : claim ↔ other) :
    Decides outcome other := by
  obtain ⟨answer, given, exact⟩ := decides
  exact ⟨answer, given, exact.trans same⟩

theorem mapError {change : ComparisonError → ComparisonError} (decides : Decides outcome claim) :
    Decides (outcome.mapError change) claim := by
  obtain ⟨answer, rfl, exact⟩ := decides
  exact ⟨answer, rfl, exact⟩

/-- What is compared second is compared only if the first is the same. -/
theorem and {next : Comparison} {other : Prop} (decides : Decides outcome claim)
    (later : Decides next other) :
    Decides (outcome >>= fun same => if same then next else return false) (claim ∧ other) := by
  obtain ⟨answer, rfl, exact⟩ := decides
  cases answer with
  | false => exact no fun both => Bool.false_ne_true (exact.mpr both.1)
  | true => exact later.congr (by simp [← exact])

end Decides

theorem ok_true_of_and {first second : Comparison}
    (both : (first >>= fun same => if same then second else return false) = .ok true) :
    first = .ok true ∧ second = .ok true := by
  obtain ⟨answer, own, rest⟩ := Result.bind_eq_ok_iff.mp both
  cases answer with
  | false => cases rest
  | true => exact ⟨own, rest⟩

section

variable {compare : Value → Value → Comparison} {same : Value → Value → Prop}

theorem equalItems_decides {left right : Value} {firsts : List Value}
    (each : ∀ first ∈ firsts, ∀ second, Decides (compare first second) (same first second))
    (last : Decides (compare left right) (same left right)) (seconds : List Value) :
    Decides (equalItems compare left right firsts seconds)
      (List.Forall₂ same firsts seconds ∧ same left right) := by
  induction firsts generalizing seconds with
  | nil =>
      cases seconds with
      | nil => exact last.congr (by simp)
      | cons second seconds => exact .no (by simp)
  | cons first firsts ih =>
      cases seconds with
      | nil => exact .no (by simp)
      | cons second seconds =>
          obtain ⟨own, others⟩ := List.forall_mem_cons.mp each
          refine ((own second).and (ih others seconds)).congr ?_
          rw [List.forall₂_cons, and_assoc]

theorem equalParameters_decides {firsts : List Parameter}
    (each : ∀ first ∈ firsts, ∀ second, Decides (compare first.default second)
      (same first.default second)) (seconds : List Parameter) :
    Decides (equalParameters compare firsts seconds)
      (List.Forall₂ (SameParameter same) firsts seconds) := by
  induction firsts generalizing seconds with
  | nil =>
      cases seconds with
      | nil => exact .yes .nil
      | cons second seconds => exact .no (by simp)
  | cons first firsts ih =>
      cases seconds with
      | nil => exact .no (by simp)
      | cons second seconds =>
          obtain ⟨own, others⟩ := List.forall_mem_cons.mp each
          rw [List.forall₂_cons, SameParameter]
          unfold equalParameters
          split
          next heads =>
              rw [Bool.and_eq_true, decide_eq_true_eq, decide_eq_true_eq] at heads
              refine ((own second.default).and (ih others seconds)).congr ?_
              simp only [heads, true_and]
          next heads =>
              rw [Bool.and_eq_true, decide_eq_true_eq, decide_eq_true_eq] at heads
              exact .no fun both => heads ⟨both.1.1, both.1.2.1⟩

theorem equalSignatures_decides {firsts : List Parameter}
    (each : ∀ first ∈ firsts, ∀ second, Decides (compare first.default second)
      (same first.default second)) (seconds : List Parameter) :
    Decides (equalSignatures compare firsts seconds)
      (List.Forall₂ (SameParameter same) firsts seconds) := by
  unfold equalSignatures
  split
  next => exact equalParameters_decides each seconds
  next count => exact .no fun pairs => count pairs.length_eq

/-- All items that are found equal were compared, and so were the terminators. -/
theorem equalItems_eq_true {left right : Value} {firsts seconds : List Value}
    (equal : equalItems compare left right firsts seconds = .ok true) :
    (∀ first ∈ firsts, ∃ second, compare first second = .ok true) ∧
      compare left right = .ok true := by
  induction firsts generalizing seconds with
  | nil =>
      cases seconds with
      | nil => exact ⟨by simp, equal⟩
      | cons second seconds => cases equal
  | cons first firsts ih =>
      cases seconds with
      | nil => cases equal
      | cons second seconds =>
          obtain ⟨own, rest⟩ := ok_true_of_and equal
          obtain ⟨others, last⟩ := ih rest
          exact ⟨List.forall_mem_cons.mpr ⟨⟨second, own⟩, others⟩, last⟩

theorem equalParameters_eq_true {firsts seconds : List Parameter}
    (equal : equalParameters compare firsts seconds = .ok true) :
    ∀ first ∈ firsts, ∃ second, compare first.default second = .ok true := by
  induction firsts generalizing seconds with
  | nil => simp
  | cons first firsts ih =>
      cases seconds with
      | nil => cases equal
      | cons second seconds =>
          unfold equalParameters at equal
          split at equal
          next =>
              obtain ⟨own, rest⟩ := ok_true_of_and equal
              exact List.forall_mem_cons.mpr ⟨⟨second.default, own⟩, ih rest⟩
          next => cases equal

theorem equalItems_comm (comm : ∀ first second, compare first second = compare second first)
    (left right : Value) (firsts seconds : List Value) :
    equalItems compare left right firsts seconds =
      equalItems compare right left seconds firsts := by
  induction firsts generalizing seconds with
  | nil =>
      cases seconds with
      | nil => exact comm left right
      | cons second seconds => rfl
  | cons first firsts ih =>
      cases seconds with
      | nil => rfl
      | cons second seconds => rw [equalItems, equalItems, comm, ih]

theorem equalParameters_comm (comm : ∀ first second, compare first second = compare second first)
    (firsts seconds : List Parameter) :
    equalParameters compare firsts seconds = equalParameters compare seconds firsts := by
  induction firsts generalizing seconds with
  | nil =>
      cases seconds with
      | nil => rfl
      | cons second seconds => rfl
  | cons first firsts ih =>
      cases seconds with
      | nil => rfl
      | cons second seconds =>
          simp only [equalParameters, comm first.default, ih seconds, eq_comm (a := first.mode),
            eq_comm (a := first.name)]

end

/-! ## Values of one kind -/

/-- Two values of one kind, of which a comparison looks at the contents. -/
inductive OfOneKind : Value → Value → Prop where
  | nil : OfOneKind .nil .nil
  | truth : OfOneKind .truth .truth
  | integer (first second : Int) : OfOneKind (.integer first) (.integer second)
  | float (first second : Float) : OfOneKind (.float first) (.float second)
  | string (first second : String) : OfOneKind (.string first) (.string second)
  | symbol (first second : String) : OfOneKind (.symbol first) (.symbol second)
  | quoted (first second : Value) : OfOneKind (.quoted first) (.quoted second)
  | list (firsts seconds : List Value) (first second : Value) :
      OfOneKind (.list firsts first) (.list seconds second)
  | builtin (first second : Builtin) :
      OfOneKind (.callable (.builtin first)) (.callable (.builtin second))
  | lambda (firstName secondName : Option String) (firsts seconds : List Parameter)
      (first second : Value) :
      OfOneKind (.callable (.lambda firstName firsts first))
        (.callable (.lambda secondName seconds second))

theorem OfOneKind.symm {left right : Value} (alike : OfOneKind left right) :
    OfOneKind right left := by
  cases alike <;> constructor

/-- Values of different kinds are never equal. -/
theorem equal_of_not_ofOneKind {left right : Value} (apart : ¬ OfOneKind left right)
    (limit : Nat) : equal (limit + 1) left right = .ok false := by
  unfold equal
  split
  case h_10 => rfl
  all_goals exact absurd (by constructor) apart

theorem beq_comm_float (first second : Float) : (first == second) = (second == first) := by
  rw [Bool.eq_iff_iff, Float.beq_iff_ne_nan_and_eq, Float.beq_iff_ne_nan_and_eq]
  tauto

/-- It does not matter which value comes first, not even to the errors. -/
theorem equal_comm (limit : Nat) (left right : Value) :
    equal limit left right = equal limit right left := by
  induction limit generalizing left right with
  | zero => rfl
  | succ limit ih =>
      by_cases alike : OfOneKind left right
      · cases alike with
        | nil => rfl
        | truth => rfl
        | integer first second => exact congrArg Except.ok BEq.comm
        | float first second => exact congrArg Except.ok (beq_comm_float first second)
        | string first second => exact congrArg Except.ok BEq.comm
        | symbol first second => exact congrArg Except.ok BEq.comm
        | quoted first second => exact ih first second
        | list firsts seconds first second =>
            exact congrArg (Except.mapError _) (equalItems_comm ih first second firsts seconds)
        | builtin first second => rfl
        | lambda firstName secondName firsts seconds first second =>
            simp only [equal, equalSignatures, bne_comm (a := firstName.isSome),
              equalParameters_comm ih firsts, ih first, eq_comm (a := firsts.length),
              BEq.comm (a := firstName)]
      · rw [equal_of_not_ofOneKind alike, equal_of_not_ofOneKind (mt OfOneKind.symm alike)]

/-! ## What a comparison decides -/

theorem SameTree.ofOneKind {left right : Value} (same : SameTree left right) :
    OfOneKind left right := by
  cases same <;> constructor

def IsBuiltin (value : Value) : Prop :=
  ∃ operation, value = .callable (.builtin operation)

theorem withoutBuiltins_quoted {value : Value} :
    Without IsBuiltin (.quoted value) ↔ Without IsBuiltin value := by
  rw [without_quoted]
  exact and_iff_right (by rintro ⟨_, ⟨⟩⟩)

theorem withoutBuiltins_list {items : List Value} {terminator : Value} :
    Without IsBuiltin (.list items terminator) ↔
      (∀ item ∈ items, Without IsBuiltin item) ∧ Without IsBuiltin terminator := by
  rw [without_list]
  exact and_iff_right (by rintro ⟨_, ⟨⟩⟩)

theorem withoutBuiltins_lambda {name : Option String} {parameters : List Parameter} {body : Value} :
    Without IsBuiltin (.callable (.lambda name parameters body)) ↔
      (∀ parameter ∈ parameters, Without IsBuiltin parameter.default) ∧
        Without IsBuiltin body := by
  rw [without_lambda]
  exact and_iff_right (by rintro ⟨_, ⟨⟩⟩)

theorem equal_lambda (limit : Nat) (firstName secondName : Option String)
    (firsts seconds : List Parameter) (first second : Value) :
    equal (limit + 1) (.callable (.lambda firstName firsts first))
        (.callable (.lambda secondName seconds second)) =
      if firstName.isSome != secondName.isSome then .ok false
      else equalSignatures (equal limit) firsts seconds >>= fun same =>
        if same then
          equal limit first second >>= fun same =>
            if same then .ok (firstName == secondName) else .ok false
        else .ok false :=
  rfl

/-- Atoms of one kind are the same tree if their contents are the same. -/
theorem Decides.atom {left right : Value} (atom : left.nesting = 1) (notBuiltin : ¬ IsBuiltin left)
    {answer : Bool} (same : answer = true ↔ SameTree left right) :
    Decides (.ok answer) (Without IsBuiltin left ∧ SameTree left right) :=
  ⟨answer, rfl, same.trans (and_iff_right ((without_atom atom).mpr notBuiltin)).symm⟩

/-- Where the limit is not in the way, comparing answers whether two values are the same tree and
the first one holds no builtin. -/
theorem equal_decides {left : Value} {limit : Nat} (deep : left.nesting ≤ limit) (right : Value) :
    Decides (equal limit left right) (Without IsBuiltin left ∧ SameTree left right) := by
  -- Each level of the first value takes one of the limit; the second may be as deep as it likes.
  induction limit generalizing left right with
  | zero => exact absurd deep (Nat.not_le.mpr left.nesting_pos)
  | succ limit ih =>
      by_cases alike : OfOneKind left right
      · cases alike with
        | nil => exact .yes ⟨(without_atom rfl).mpr (by rintro ⟨_, ⟨⟩⟩), .nil⟩
        | truth => exact .yes ⟨(without_atom rfl).mpr (by rintro ⟨_, ⟨⟩⟩), .truth⟩
        | integer first second =>
            exact .atom rfl (by rintro ⟨_, ⟨⟩⟩) (beq_iff_eq.trans sameTree_integer_iff.symm)
        | float first second =>
            exact .atom rfl (by rintro ⟨_, ⟨⟩⟩) sameTree_float_iff.symm
        | string first second =>
            exact .atom rfl (by rintro ⟨_, ⟨⟩⟩) (beq_iff_eq.trans sameTree_string_iff.symm)
        | symbol first second =>
            exact .atom rfl (by rintro ⟨_, ⟨⟩⟩) (beq_iff_eq.trans sameTree_symbol_iff.symm)
        | quoted first second =>
            refine (ih (Nat.le_of_succ_le_succ deep) second).congr ?_
            rw [sameTree_quoted_iff, withoutBuiltins_quoted]
        | list firsts seconds first second =>
            obtain ⟨each, last⟩ := nesting_list_le_iff.mp deep
            refine (equalItems_decides (fun item member => ih (each item member)) (ih last second)
              seconds).mapError.congr ?_
            rw [List.forall₂_and_left, sameTree_list_iff, withoutBuiltins_list]
            tauto
        | builtin first second => exact .no fun both => both.1 _ .here ⟨first, rfl⟩
        | lambda firstName secondName firsts seconds first second =>
            obtain ⟨defaults, body⟩ := nesting_lambda_le_iff.mp deep
            have signatures : Decides (equalSignatures (equal limit) firsts seconds)
                (List.Forall₂ (SameParameter fun left right =>
                  Without IsBuiltin left ∧ SameTree left right) firsts seconds) :=
              equalSignatures_decides (fun parameter member => ih (defaults parameter member))
                seconds
            have names : Decides (.ok (firstName == secondName)) (firstName = secondName) :=
              ⟨_, rfl, beq_iff_eq⟩
            rw [sameTree_lambda_iff, withoutBuiltins_lambda, equal_lambda]
            split
            next differ =>
                refine .no fun both => ?_
                rw [both.2.2.2, bne_self_eq_false] at differ
                cases differ
            next =>
                refine (signatures.and ((ih body second).and names)).congr ?_
                rw [sameParameter_and, List.forall₂_and_left]
                tauto
      · rw [equal_of_not_ofOneKind alike]
        exact .no fun both => alike both.2.ofOneKind

theorem equalSignatures_eq_true {compare : Value → Value → Comparison}
    {firsts seconds : List Parameter} (equal : equalSignatures compare firsts seconds = .ok true) :
    ∀ first ∈ firsts, ∃ second, compare first.default second = .ok true := by
  unfold equalSignatures at equal
  split at equal
  next => exact equalParameters_eq_true equal
  next => cases equal

/-- Values are found equal only if all of them was looked at. -/
theorem nesting_le_of_equal {left right : Value} {limit : Nat}
    (same : equal limit left right = .ok true) : left.nesting ≤ limit := by
  induction limit generalizing left right with
  | zero => cases same
  | succ limit ih =>
      by_cases alike : OfOneKind left right
      · cases alike with
        | quoted first second => exact Nat.succ_le_succ (ih same)
        | list firsts seconds first second =>
            obtain ⟨each, last⟩ := equalItems_eq_true (Result.mapError_eq_ok_iff.mp same)
            refine nesting_list_le_iff.mpr ⟨fun item member => ?_, ih last⟩
            obtain ⟨other, compared⟩ := each item member
            exact ih compared
        | builtin first second => cases same
        | lambda firstName secondName firsts seconds first second =>
            rw [equal_lambda] at same
            split at same
            next => cases same
            next =>
                obtain ⟨signatures, same⟩ := ok_true_of_and same
                obtain ⟨body, _⟩ := ok_true_of_and same
                refine nesting_lambda_le_iff.mpr ⟨fun parameter member => ?_, ih body⟩
                obtain ⟨other, compared⟩ := equalSignatures_eq_true signatures parameter member
                exact ih compared
        | _ => exact Nat.le_add_left 1 limit
      · rw [equal_of_not_ofOneKind alike] at same
        cases same

/-! ## What a comparison says -/

theorem equal_answers {limit : Nat} {left right : Value} {same : Bool}
    (answer : equal limit left right = .ok same) :
    same = true ↔ Without IsBuiltin left ∧ SameTree left right := by
  obtain ⟨answered, ample, decided⟩ :=
    equal_decides (Nat.le_max_right limit left.nesting) right
  have enough : equal limit left right = equal (max limit left.nesting) left right :=
    (equal_deepens (Nat.le_max_left ..) left right).eq (by simp [answer])
  rw [answer, ample] at enough
  cases enough
  exact decided

theorem equal_true_iff {limit : Nat} {left right : Value} (deep : left.nesting ≤ limit) :
    equal limit left right = .ok true ↔ Without IsBuiltin left ∧ SameTree left right := by
  obtain ⟨same, answer, decided⟩ := equal_decides deep right
  rw [← decided, answer, Except.ok.injEq]

theorem equal_trans {limit : Nat} {first second third : Value}
    (left : equal limit first second = .ok true) (right : equal limit second third = .ok true) :
    equal limit first third = .ok true := by
  obtain ⟨without, firstSame⟩ := (equal_answers left).mp rfl
  obtain ⟨_, secondSame⟩ := (equal_answers right).mp rfl
  exact (equal_true_iff (nesting_le_of_equal left)).mpr ⟨without, firstSame.trans secondSame⟩

/-- Comparing two values answers when one is within the limit, and says exactly whether they are the
same tree without builtins.  It is symmetric and transitive, and reflexive where no builtin and no
NaN occurs. -/
theorem equal_exactly_on_same_trees (limit : Nat) (first second third : Value) :
    (first.nesting ≤ limit ∨ second.nesting ≤ limit →
      ∃ same, equal limit first second = .ok same) ∧
    (∀ same, equal limit first second = .ok same →
      (same = true ↔
        SameTree first second ∧ Without IsBuiltin first ∧ Without IsBuiltin second)) ∧
    (Without IsFloat first → (SameTree first second ↔ first = second)) ∧
    equal limit first second = equal limit second first ∧
    (equal limit first second = .ok true → equal limit second third = .ok true →
      equal limit first third = .ok true) ∧
    (first.nesting ≤ limit →
      (equal limit first first = .ok true ↔ Without IsBuiltin first ∧ Without IsNaN first)) := by
  refine ⟨?_, fun same answer => ?_, sameTree_iff_eq, equal_comm .., equal_trans, fun deep => ?_⟩
  · rintro (deep | deep)
    · obtain ⟨same, answer, _⟩ := equal_decides deep second
      exact ⟨same, answer⟩
    · obtain ⟨same, answer, _⟩ := equal_decides deep first
      exact ⟨same, equal_comm .. ▸ answer⟩
  · have forward := equal_answers answer
    have backward := equal_answers (equal_comm limit first second ▸ answer)
    exact ⟨fun yes => ⟨(forward.mp yes).2, (forward.mp yes).1, (backward.mp yes).1⟩,
      fun ⟨tree, without, _⟩ => forward.mpr ⟨without, tree⟩⟩
  · rw [equal_true_iff deep, sameTree_self_iff]

/-- The two zeros make the same tree, also as the default of a parameter. -/
theorem equal_exactly_on_same_trees_zeros :
    let positive := callable (.lambda (some "F") [⟨.optional, "X", .float 0.0⟩] (.symbol "X"))
    let negative := callable (.lambda (some "F") [⟨.optional, "X", .float (-0.0)⟩] (.symbol "X"))
    equal 2 positive negative = .ok true ∧ SameTree positive negative ∧
      Without IsBuiltin positive ∧ Without IsBuiltin negative ∧
      equal 2 positive positive = .ok true := by
  intro positive negative
  have same : equal 2 positive negative = .ok true := by decide
  obtain ⟨_, decided, _, symmetric, transitive, _⟩ :=
    equal_exactly_on_same_trees 2 positive negative positive
  obtain ⟨tree, first, second⟩ := (decided true same).mp rfl
  exact ⟨same, tree, first, second, transitive same (symmetric ▸ same)⟩

end Value

end ConsLisp
