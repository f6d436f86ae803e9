import Mathlib
import ConsLisp.Proofs.Value.Occurs

/-!
# Values that are the same tree

Two values are the same tree if they agree in kind and contents at every node, where floats need
only compare equal.  The relation is transitive; the values related to themselves are those without
NaNs, and on values without floats it is equality.
-/

namespace ConsLisp

namespace Value

/-! ## Levels -/

mutual

/-- The number of levels of a value, its own included. -/
def nesting : Value → Nat
  | .quoted value => value.nesting + 1
  | .list items terminator => max (nestingOfItems items) terminator.nesting + 1
  | .callable (.lambda _ parameters body) => max (nestingOfDefaults parameters) body.nesting + 1
  | _ => 1

def nestingOfItems : List Value → Nat
  | [] => 0
  | item :: items => max item.nesting (nestingOfItems items)

def nestingOfDefaults : List Parameter → Nat
  | [] => 0
  | ⟨_, _, default⟩ :: parameters => max default.nesting (nestingOfDefaults parameters)

end

theorem nestingOfItems_le_iff {items : List Value} {limit : Nat} :
    nestingOfItems items ≤ limit ↔ ∀ item ∈ items, item.nesting ≤ limit := by
  induction items with
  | nil => simp [nestingOfItems]
  | cons item items ih => rw [nestingOfItems, max_le_iff, ih, List.forall_mem_cons]

theorem nestingOfDefaults_le_iff {parameters : List Parameter} {limit : Nat} :
    nestingOfDefaults parameters ≤ limit ↔
      ∀ parameter ∈ parameters, parameter.default.nesting ≤ limit := by
  induction parameters with
  | nil => simp [nestingOfDefaults]
  | cons parameter parameters ih =>
      obtain ⟨mode, name, default⟩ := parameter
      rw [nestingOfDefaults, max_le_iff, ih, List.forall_mem_cons]

theorem nesting_pos (value : Value) : 0 < value.nesting := by
  cases value with
  | callable function => cases function <;> simp [nesting]
  | _ => simp [nesting]

theorem nesting_list_le_iff {items : List Value} {terminator : Value} {limit : Nat} :
    (list items terminator).nesting ≤ limit + 1 ↔
      (∀ item ∈ items, item.nesting ≤ limit) ∧ terminator.nesting ≤ limit := by
  rw [nesting, Nat.add_le_add_iff_right, max_le_iff, nestingOfItems_le_iff]

theorem nesting_lambda_le_iff {name : Option String} {parameters : List Parameter} {body : Value}
    {limit : Nat} :
    (callable (.lambda name parameters body)).nesting ≤ limit + 1 ↔
      (∀ parameter ∈ parameters, parameter.default.nesting ≤ limit) ∧ body.nesting ≤ limit := by
  rw [nesting, Nat.add_le_add_iff_right, max_le_iff, nestingOfDefaults_le_iff]

theorem Occurs.eq_of_nesting {part value : Value} (inside : part.Occurs value)
    (atom : value.nesting = 1) : part = value := by
  cases inside with
  | here => rfl
  | quoted => exact absurd (Nat.le_of_succ_le_succ atom.le) (nesting_pos _).not_ge
  | item => exact absurd (nesting_list_le_iff.mp atom.le).2 (nesting_pos _).not_ge
  | terminator => exact absurd (nesting_list_le_iff.mp atom.le).2 (nesting_pos _).not_ge
  | default => exact absurd (nesting_lambda_le_iff.mp atom.le).2 (nesting_pos _).not_ge
  | body => exact absurd (nesting_lambda_le_iff.mp atom.le).2 (nesting_pos _).not_ge

theorem without_atom {kind : Value → Prop} {value : Value} (atom : value.nesting = 1) :
    Without kind value ↔ ¬ kind value := by
  constructor
  · exact fun own => own _ .here
  · intro apart part inside
    rwa [inside.eq_of_nesting atom]

/-! ## The same tree -/

/-- Two values are of one kind at every node and have the same contents there, where floats need
only compare equal. -/
inductive SameTree : Value → Value → Prop where
  -- Items are paired by `zip`, which lets an induction reach them.
  | nil : SameTree .nil .nil
  | truth : SameTree .truth .truth
  | integer (number : Int) : SameTree (.integer number) (.integer number)
  | float {first second : Float} (same : (first == second) = true) :
      SameTree (.float first) (.float second)
  | string (text : String) : SameTree (.string text) (.string text)
  | symbol (name : String) : SameTree (.symbol name) (.symbol name)
  | quoted {first second : Value} (inside : SameTree first second) :
      SameTree (.quoted first) (.quoted second)
  | list {firsts seconds : List Value} {first second : Value}
      (count : firsts.length = seconds.length)
      (each : ∀ pair ∈ firsts.zip seconds, SameTree pair.1 pair.2) (last : SameTree first second) :
      SameTree (.list firsts first) (.list seconds second)
  | builtin (operation : Builtin) :
      SameTree (.callable (.builtin operation)) (.callable (.builtin operation))
  | lambda (name : Option String) {firsts seconds : List Parameter} {first second : Value}
      (count : firsts.length = seconds.length)
      (heads : ∀ pair ∈ firsts.zip seconds, pair.1.mode = pair.2.mode ∧ pair.1.name = pair.2.name)
      (defaults : ∀ pair ∈ firsts.zip seconds, SameTree pair.1.default pair.2.default)
      (body : SameTree first second) :
      SameTree (.callable (.lambda name firsts first)) (.callable (.lambda name seconds second))

/-- Two parameters of the same mode and name, with defaults that are related. -/
def SameParameter (same : Value → Value → Prop) (first second : Parameter) : Prop :=
  first.mode = second.mode ∧ first.name = second.name ∧ same first.default second.default

theorem sameParameter_and {holds : Value → Prop} {same : Value → Value → Prop} :
    SameParameter (fun first second => holds first ∧ same first second) =
      fun first second => holds first.default ∧ SameParameter same first second := by
  funext first second
  exact propext (by unfold SameParameter; tauto)

theorem sameTree_integer_iff {first second : Int} :
    SameTree (.integer first) (.integer second) ↔ first = second := by
  constructor
  · rintro ⟨⟩
    rfl
  · rintro rfl
    exact .integer first

theorem sameTree_string_iff {first second : String} :
    SameTree (.string first) (.string second) ↔ first = second := by
  constructor
  · rintro ⟨⟩
    rfl
  · rintro rfl
    exact .string first

theorem sameTree_symbol_iff {first second : String} :
    SameTree (.symbol first) (.symbol second) ↔ first = second := by
  constructor
  · rintro ⟨⟩
    rfl
  · rintro rfl
    exact .symbol first

theorem sameTree_float_iff {first second : Float} :
    SameTree (.float first) (.float second) ↔ (first == second) = true := by
  constructor
  · rintro ⟨⟩
    assumption
  · exact .float

theorem sameTree_quoted_iff {first second : Value} :
    SameTree (.quoted first) (.quoted second) ↔ SameTree first second := by
  constructor
  · rintro ⟨⟩
    assumption
  · exact .quoted

theorem sameTree_list_iff {firsts seconds : List Value} {first second : Value} :
    SameTree (.list firsts first) (.list seconds second) ↔
      List.Forall₂ SameTree firsts seconds ∧ SameTree first second := by
  rw [List.forall₂_iff_zip]
  constructor
  · rintro ⟨⟩
    exact ⟨⟨‹_›, fun member => ‹∀ pair ∈ _, SameTree pair.1 pair.2› _ member⟩, ‹_›⟩
  · rintro ⟨⟨count, each⟩, last⟩
    exact .list count (fun _ member => each member) last

theorem sameTree_lambda_iff {firstName secondName : Option String} {firsts seconds : List Parameter}
    {first second : Value} :
    SameTree (.callable (.lambda firstName firsts first))
        (.callable (.lambda secondName seconds second)) ↔
      List.Forall₂ (SameParameter SameTree) firsts seconds ∧ SameTree first second ∧
        firstName = secondName := by
  rw [List.forall₂_iff_zip]
  constructor
  · intro same
    cases same with
    | lambda _ count heads defaults body =>
        exact ⟨⟨count, fun member => ⟨(heads _ member).1, (heads _ member).2, defaults _ member⟩⟩,
          body, rfl⟩
  · rintro ⟨⟨count, each⟩, body, rfl⟩
    exact .lambda firstName count (fun _ member => ⟨(each member).1, (each member).2.1⟩)
      (fun _ member => (each member).2.2) body

theorem beq_trans_float {first second third : Float} (one : (first == second) = true)
    (other : (second == third) = true) : (first == third) = true := by
  rw [Float.beq_iff_ne_nan_and_eq] at *
  grind

theorem forall₂_through {α : Type} {first second both : α → α → Prop}
    (through : ∀ {one two three}, first one two → second two three → both one three)
    {ones twos threes : List α} (left : List.Forall₂ first ones twos)
    (right : List.Forall₂ second twos threes) : List.Forall₂ both ones threes := by
  induction left generalizing threes with
  | nil =>
      cases right
      exact .nil
  | cons own _ ih =>
      cases right with
      | cons next rest => exact .cons (through own next) (ih rest)

theorem SameTree.trans {first second third : Value} (left : SameTree first second)
    (right : SameTree second third) : SameTree first third := by
  induction left generalizing third with
  | float same =>
      cases right with
      | float also => exact .float (beq_trans_float same also)
  | quoted inside ih =>
      cases right with
      | quoted further => exact .quoted (ih further)
  | @list firsts seconds _ _ count each last ih ihLast =>
      cases right with
      | @list _ thirds _ _ countToo eachToo lastToo =>
          have one : List.Forall₂ (fun first second => ∀ third, SameTree second third →
              SameTree first third) firsts seconds :=
            List.forall₂_iff_zip.mpr ⟨count, fun member _ => ih _ member⟩
          have two : List.Forall₂ SameTree seconds thirds :=
            List.forall₂_iff_zip.mpr ⟨countToo, fun member => eachToo _ member⟩
          exact sameTree_list_iff.mpr ⟨forall₂_through (fun step => step _) one two, ihLast lastToo⟩
  | @lambda name firsts seconds _ _ count heads defaults body ih ihBody =>
      cases right with
      | @lambda _ _ thirds _ _ countToo headsToo defaultsToo bodyToo =>
          have one : List.Forall₂ (SameParameter fun first second => ∀ third,
              SameTree second third → SameTree first third) firsts seconds :=
            List.forall₂_iff_zip.mpr ⟨count, fun member =>
              ⟨(heads _ member).1, (heads _ member).2, fun _ => ih _ member⟩⟩
          have two : List.Forall₂ (SameParameter SameTree) seconds thirds :=
            List.forall₂_iff_zip.mpr ⟨countToo, fun member =>
              ⟨(headsToo _ member).1, (headsToo _ member).2, defaultsToo _ member⟩⟩
          refine sameTree_lambda_iff.mpr ⟨forall₂_through ?_ one two, ihBody bodyToo, rfl⟩
          rintro one two three ⟨mode, own, step⟩ ⟨modeToo, ownToo, next⟩
          exact ⟨mode.trans modeToo, own.trans ownToo, step _ next⟩
  | _ => exact right

theorem forall_fst_of_zip {α β : Type} {holds : α → Prop} {firsts : List α} {seconds : List β}
    (count : firsts.length = seconds.length) (each : ∀ pair ∈ firsts.zip seconds, holds pair.1) :
    ∀ first ∈ firsts, holds first := by
  rw [← List.map_fst_zip count.le, List.forall_mem_map]
  exact each

def IsNaN (value : Value) : Prop :=
  ∃ number : Float, value = .float number ∧ number.isNaN = true

/-- Only what holds no NaN is the same tree as anything. -/
theorem SameTree.withoutNaN {left right : Value} (same : SameTree left right) :
    Without IsNaN left := by
  induction same with
  | @float first second equal =>
      refine (without_atom rfl).mpr ?_
      rintro ⟨_, ⟨⟩, isNaN⟩
      rw [Float.isNaN_eq_decide_eq_nan, decide_eq_true_eq] at isNaN
      exact (Float.beq_iff_ne_nan_and_eq.mp equal).1 isNaN
  | quoted _ ih => exact without_quoted.mpr ⟨by rintro ⟨_, ⟨⟩, _⟩, ih⟩
  | list count _ _ ih ihLast =>
      exact without_list.mpr ⟨by rintro ⟨_, ⟨⟩, _⟩, forall_fst_of_zip count ih, ihLast⟩
  | lambda name count _ _ _ ih ihBody =>
      exact without_lambda.mpr ⟨by rintro ⟨_, ⟨⟩, _⟩, forall_fst_of_zip count ih, ihBody⟩
  | _ => exact (without_atom rfl).mpr (by rintro ⟨_, ⟨⟩, _⟩)

theorem sameTree_self_of_nesting {limit : Nat} {value : Value} (deep : value.nesting ≤ limit)
    (own : Without IsNaN value) : SameTree value value := by
  induction limit generalizing value with
  | zero => exact absurd deep (Nat.not_le.mpr value.nesting_pos)
  | succ limit ih =>
      cases value with
      | nil => exact .nil
      | truth => exact .truth
      | integer number => exact .integer number
      | float number =>
          refine .float (Float.beq_self_iff.mpr fun isNaN => own _ .here ⟨number, rfl, ?_⟩)
          rw [Float.isNaN_eq_decide_eq_nan, isNaN, decide_eq_true rfl]
      | string text => exact .string text
      | symbol name => exact .symbol name
      | quoted inner =>
          exact .quoted (ih (Nat.le_of_succ_le_succ deep) (without_quoted.mp own).2)
      | list items terminator =>
          obtain ⟨each, last⟩ := nesting_list_le_iff.mp deep
          obtain ⟨_, eachOwn, lastOwn⟩ := without_list.mp own
          refine sameTree_list_iff.mpr
            ⟨List.forall₂_same.mpr fun item member => ?_, ih last lastOwn⟩
          exact ih (each item member) (eachOwn item member)
      | callable function =>
          cases function with
          | builtin operation => exact .builtin operation
          | lambda name parameters body =>
              obtain ⟨each, inside⟩ := nesting_lambda_le_iff.mp deep
              obtain ⟨_, eachOwn, insideOwn⟩ := without_lambda.mp own
              refine sameTree_lambda_iff.mpr
                ⟨List.forall₂_same.mpr fun parameter member => ?_, ih inside insideOwn, rfl⟩
              exact ⟨rfl, rfl, ih (each parameter member) (eachOwn parameter member)⟩

theorem sameTree_self_iff {value : Value} : SameTree value value ↔ Without IsNaN value :=
  ⟨SameTree.withoutNaN, sameTree_self_of_nesting (Nat.le_refl _)⟩

/-- The value is a float. -/
def IsFloat (value : Value) : Prop :=
  ∃ number, value = .float number

theorem SameParameter.eq {first second : Parameter} (same : SameParameter Eq first second) :
    first = second := by
  cases first
  cases second
  obtain ⟨rfl, rfl, rfl⟩ := same
  rfl

theorem SameTree.eq_of_withoutFloats {left right : Value} (same : SameTree left right)
    (own : Without IsFloat left) : left = right := by
  induction same with
  | float => exact absurd ⟨_, rfl⟩ (own _ .here)
  | quoted _ ih => rw [ih (without_quoted.mp own).2]
  | @list firsts seconds _ _ count _ _ ih ihLast =>
      obtain ⟨_, each, last⟩ := without_list.mp own
      have items : List.Forall₂ Eq firsts seconds :=
        List.forall₂_iff_zip.mpr
          ⟨count, fun member => ih _ member (each _ (List.of_mem_zip member).1)⟩
      rw [List.forall₂_eq_eq_eq] at items
      rw [items, ihLast last]
  | @lambda name firsts seconds _ _ count heads _ _ ih ihBody =>
      obtain ⟨_, each, body⟩ := without_lambda.mp own
      have parameters : List.Forall₂ Eq firsts seconds := by
        refine List.forall₂_iff_zip.mpr ⟨count, fun member => SameParameter.eq ?_⟩
        have default := ih _ member (each _ (List.of_mem_zip member).1)
        exact ⟨(heads _ member).1, (heads _ member).2, default⟩
      rw [List.forall₂_eq_eq_eq] at parameters
      rw [parameters, ihBody body]
  | _ => rfl

/-- Where no float occurs, the same tree is the same value. -/
theorem sameTree_iff_eq {left right : Value} (own : Without IsFloat left) :
    SameTree left right ↔ left = right := by
  refine ⟨fun same => same.eq_of_withoutFloats own, ?_⟩
  rintro rfl
  refine sameTree_self_iff.mpr fun part occurs => ?_
  rintro ⟨number, isFloat, _⟩
  exact own part occurs ⟨number, isFloat⟩

end Value

end ConsLisp
