import ConsLisp.Proofs.Value.List

/-!
# Parts of values

What occurs in a value, and values in which nothing of some kind occurs.
-/

namespace ConsLisp.Value

/-- A value is part of itself, of its quote, of a list it is an item or the terminator of, and of a
function it is the body or a default of; and so are the parts of it. -/
inductive Occurs (part : Value) : Value → Prop where
  | here : Occurs part part
  | quoted {value : Value} (inside : Occurs part value) : Occurs part (.quoted value)
  | item {items : List Value} {terminator item : Value} (member : item ∈ items)
      (inside : Occurs part item) : Occurs part (.list items terminator)
  | terminator {items : List Value} {terminator : Value} (inside : Occurs part terminator) :
      Occurs part (.list items terminator)
  | default {name : Option String} {parameters : List Parameter} {body : Value}
      {parameter : Parameter} (member : parameter ∈ parameters)
      (inside : Occurs part parameter.default) :
      Occurs part (.callable (.lambda name parameters body))
  | body {name : Option String} {parameters : List Parameter} {body : Value}
      (inside : Occurs part body) : Occurs part (.callable (.lambda name parameters body))

/-- No part of the value is of a kind. -/
def Without (kind : Value → Prop) (value : Value) : Prop :=
  ∀ part : Value, part.Occurs value → ¬ kind part

variable {kind : Value → Prop}

theorem without_nil : Without kind .nil ↔ ¬ kind .nil := by
  constructor
  · exact fun own => own _ .here
  · rintro apart part ⟨⟩
    exact apart

theorem without_quoted {value : Value} :
    Without kind (.quoted value) ↔ ¬ kind (.quoted value) ∧ Without kind value := by
  constructor
  · exact fun own => ⟨own _ .here, fun part inside => own part (.quoted inside)⟩
  · rintro ⟨apart, own⟩ part inside
    cases inside with
    | here => exact apart
    | quoted inside => exact own part inside

theorem without_list {items : List Value} {terminator : Value} :
    Without kind (.list items terminator) ↔
      ¬ kind (.list items terminator) ∧ (∀ item ∈ items, Without kind item) ∧
        Without kind terminator := by
  constructor
  · exact fun own => ⟨own _ .here, fun item member part inside => own part (.item member inside),
      fun part inside => own part (.terminator inside)⟩
  · rintro ⟨apart, each, last⟩ part inside
    cases inside with
    | here => exact apart
    | item member inside => exact each _ member part inside
    | terminator inside => exact last part inside

theorem without_lambda {name : Option String} {parameters : List Parameter} {body : Value} :
    Without kind (.callable (.lambda name parameters body)) ↔
      ¬ kind (.callable (.lambda name parameters body)) ∧
        (∀ parameter ∈ parameters, Without kind parameter.default) ∧ Without kind body := by
  constructor
  · exact fun own => ⟨own _ .here,
      fun parameter member part inside => own part (.default member inside),
      fun part inside => own part (.body inside)⟩
  · rintro ⟨apart, defaults, inner⟩ part inside
    cases inside with
    | here => exact apart
    | default member inside => exact defaults _ member part inside
    | body inside => exact inner part inside

theorem Without.elements {items : List Value} {terminator : Value}
    (own : Without kind (.list items terminator)) :
    ∀ element ∈ Value.elements items terminator, Without kind element := by
  obtain ⟨_, each, last⟩ := without_list.mp own
  unfold Value.elements
  split
  · exact each
  · exact List.forall_mem_append.mpr ⟨each, List.forall_mem_singleton.mpr last⟩

/-! ## Kinds that are no lists -/

section

variable (noList : ∀ items terminator, ¬ kind (.list items terminator))
include noList

theorem Without.cons {head tail : Value} (first : Without kind head) (rest : Without kind tail) :
    Without kind (.cons head tail) := by
  cases notList : tail.isOf .list with
  | false =>
      rw [cons_of_not_list head notList, without_list]
      exact ⟨noList _ _, List.forall_mem_singleton.mpr first, rest⟩
  | true =>
      cases tail with
      | list items terminator =>
          obtain ⟨_, each, last⟩ := without_list.mp rest
          rw [cons_list, without_list]
          exact ⟨noList _ _, List.forall_mem_cons.mpr ⟨first, each⟩, last⟩
      | _ => cases notList

theorem Without.unpack (noNil : ¬ kind .nil) {items : List Value} {terminator : Value}
    (own : Without kind (.list items terminator)) :
    Without kind (Value.unpack items terminator).1 ∧
      Without kind (Value.unpack items terminator).2 := by
  obtain ⟨_, each, last⟩ := without_list.mp own
  match items, each with
  | [], _ => exact ⟨last, without_nil.mpr noNil⟩
  | [head], each => exact ⟨each head List.mem_cons_self, last⟩
  | head :: second :: others, each =>
      obtain ⟨first, rest⟩ := List.forall_mem_cons.mp each
      exact ⟨first, without_list.mpr ⟨noList _ _, rest, last⟩⟩

end

/-! ## Names -/

/-- The name occurs nowhere in the value. -/
abbrev Unmentioned (name : String) : Value → Prop :=
  Without (· = .symbol name)

theorem unmentioned_iff {name : String} {value : Value} :
    value.Unmentioned name ↔ ¬ (Value.symbol name).Occurs value := by
  constructor
  · exact fun own inside => own _ inside rfl
  · rintro apart _ inside rfl
    exact apart inside

theorem unmentioned_symbol {name other : String} :
    (Value.symbol other).Unmentioned name ↔ other ≠ name := by
  constructor
  · rintro own rfl
    exact own _ .here rfl
  · intro apart part inside same
    cases inside with
    | here => exact apart (Value.symbol.inj same)

end ConsLisp.Value
