import ConsLisp.Proofs.Session
import ConsLisp.Proofs.Value.Occurs

/-!
# Lists are canonical

A list without items is none, and one that ends in another list should have had its items.  Values
of both shapes can be written down, but no such form is read, and evaluation makes none out of
values that are free of them.  So none occurs in a session.
-/

namespace ConsLisp

namespace Value

/-- The bare end of a list, and a list that ends in a list. -/
inductive Spurious : Value → Prop where
  | bareEnd (terminator : Value) : Spurious (.list [] terminator)
  | continued (items more : List Value) (terminator : Value) :
      Spurious (.list items (.list more terminator))

/-- No spurious list occurs in the value. -/
def Canonical (value : Value) : Prop :=
  ∀ part : Value, part.Occurs value → ¬ part.Spurious

theorem not_spurious_iff {items : List Value} {terminator : Value} :
    ¬ Spurious (.list items terminator) ↔ items ≠ [] ∧ terminator.isOf .list = false := by
  constructor
  · intro genuine
    refine ⟨fun empty => genuine (empty ▸ .bareEnd terminator), ?_⟩
    cases terminator with
    | list more last => exact absurd (.continued items more last) genuine
    | _ => rfl
  · rintro ⟨nonempty, notList⟩ spurious
    cases spurious with
    | bareEnd => exact nonempty rfl
    | continued => cases notList

theorem canonical_quoted {value : Value} : Canonical (.quoted value) ↔ Canonical value :=
  without_quoted.trans (and_iff_right nofun)

theorem canonical_list {items : List Value} {terminator : Value} :
    Canonical (.list items terminator) ↔
      (items ≠ [] ∧ terminator.isOf .list = false) ∧
        (∀ item ∈ items, Canonical item) ∧ Canonical terminator :=
  without_list.trans (and_congr_left' not_spurious_iff)

theorem canonical_lambda {name : Option String} {parameters : List Parameter} {body : Value} :
    Canonical (.callable (.lambda name parameters body)) ↔
      (∀ parameter ∈ parameters, Canonical parameter.default) ∧ Canonical body :=
  without_lambda.trans (and_iff_right nofun)

namespace Canonical

theorem cons {head tail : Value} (first : Canonical head) (rest : Canonical tail) :
    Canonical (.cons head tail) := by
  cases notList : tail.isOf .list with
  | false =>
      rw [cons_of_not_list head notList, canonical_list]
      exact ⟨⟨List.cons_ne_nil _ _, notList⟩, List.forall_mem_singleton.mpr first, rest⟩
  | true =>
      cases tail with
      | list items terminator =>
          obtain ⟨⟨_, ends⟩, each, last⟩ := canonical_list.mp rest
          rw [cons_list, canonical_list]
          exact ⟨⟨List.cons_ne_nil _ _, ends⟩, List.forall_mem_cons.mpr ⟨first, each⟩, last⟩
      | _ => cases notList

/-- What remains of a list without its first item is a list only if there are more items. -/
theorem unpack {items : List Value} {terminator : Value}
    (own : Canonical (.list items terminator)) :
    Canonical (Value.unpack items terminator).1 ∧ Canonical (Value.unpack items terminator).2 := by
  obtain ⟨⟨nonempty, ends⟩, each, last⟩ := canonical_list.mp own
  match items, nonempty, each with
  | [], nonempty, _ => exact absurd rfl nonempty
  | [head], _, each => exact ⟨each head List.mem_cons_self, last⟩
  | head :: second :: others, _, each =>
      obtain ⟨first, rest⟩ := List.forall_mem_cons.mp each
      exact ⟨first, canonical_list.mpr ⟨⟨List.cons_ne_nil second others, ends⟩, rest, last⟩⟩

end Canonical

end Value

/-- Canonical lists everywhere, whatever the errors. -/
def Invariant.canonical : Invariant where
  valid := Value.Canonical
  allowed _ := True
  runtime _ := True.intro
  nil := nofun
  truth := nofun
  number
    | .integer _ => nofun
    | .float _ => nofun
  symbol _ := nofun
  builtin _ := nofun
  quoted := Value.canonical_quoted.mp
  unpack := Value.Canonical.unpack
  elements := Value.Without.elements
  cons := Value.Canonical.cons
  function _ defaults inside := Value.canonical_lambda.mpr ⟨defaults, inside⟩
  body own := (Value.canonical_lambda.mp own).2
  default own := (Value.canonical_lambda.mp own).1
  parameters _ := .inr True.intro

theorem Form.closed_canonical : Closed Value.Canonical :=
  Invariant.canonical.closed (fun _ => nofun) Value.canonical_quoted.mpr

/-- The frame a call makes of canonical forms and defaults is canonical. -/
theorem Engine.canonical_of_bind {limit budget : Nat} {parameters : List Parameter}
    {forms : List Value} {machine : Machine} {frame : Frame}
    (all : machine.environment.All Value.Canonical)
    (defaults : ∀ parameter ∈ parameters, parameter.default.Canonical)
    (each : ∀ form ∈ forms, form.Canonical)
    (bound : (((withBudget limit budget).bind .empty parameters forms).run machine).1 =
      .ok frame) : frame.All Value.Canonical := by
  have kept := bind_agree (withBudget_keeps Invariant.canonical limit budget) .empty each
    (fun _ _ => True.intro) defaults (.inr True.intro)
  have accepted := (kept.run all).2.2
  rw [bound] at accepted
  exact accepted.all

/-- Lists are canonical throughout.  Every form that is read is canonical, from any source.  Where
all bound values are, a canonical form evaluates only to canonical values and leaves only such
bound, whether it succeeds or not, and so does a call in the frame made for it.  Hence all values
bound in a session and all values its sources give are canonical. -/
theorem lists_stay_canonical :
    (∀ {σ : Type} [TokenSource σ] (limit : Nat) (source rest : σ) (form : Value),
      Form.read limit source = (.ok form, rest) → form.Canonical) ∧
    (∀ machine : Machine, machine.environment.All Value.Canonical →
      (∀ (limit : Nat) (form : Value), form.Canonical →
        ((evaluate limit form).run machine).2.environment.All Value.Canonical ∧
          ∀ value, ((evaluate limit form).run machine).1 = .ok value → value.Canonical) ∧
      ∀ (limit budget : Nat) (parameters : List Parameter) (forms : List Value) (frame : Frame),
        (∀ parameter ∈ parameters, parameter.default.Canonical) →
        (∀ form ∈ forms, form.Canonical) →
        (((Engine.withBudget limit budget).bind .empty parameters forms).run machine).1 =
          .ok frame → frame.All Value.Canonical) ∧
    ∀ session : Session, session.Reachable →
      session.environment.All Value.Canonical ∧
        ∀ (source : Source) (strict : Bool) (value : Value),
          (session.eval source strict).result = .ok value → value.Canonical := by
  refine ⟨fun limit source rest form read => Form.read_holds Form.closed_canonical read,
    fun machine all => ⟨fun limit form own => ?_, fun _ _ _ _ _ defaults each bound =>
      Engine.canonical_of_bind all defaults each bound⟩, fun session reachable => ?_⟩
  · obtain ⟨after, _, accepted⟩ := (evaluate_keeps Invariant.canonical limit own).run all
    refine ⟨after, fun value given => ?_⟩
    rwa [given] at accepted
  · have all : session.environment.All Invariant.canonical.valid :=
      reachable.all Form.closed_canonical
    exact ⟨all, fun source strict value given =>
      Session.valid_of_eval Form.closed_canonical all given⟩

/-- After a definition, `(cons 1 '(2 . 3))` is evaluated among the session's bindings. -/
theorem lists_stay_canonical_cons :
    let session := (Session.eval {} (.text "(defun f (x &optional (y '(1))) y)") true).session
    let form : Value :=
      .list [.symbol "CONS", .integer 1, .quoted (.list [.integer 2] (.integer 3))] .nil
    session.environment.All Value.Canonical ∧ form.Canonical ∧
      ((evaluate 9 form).run ⟨session.environment, ""⟩).2.environment.All Value.Canonical := by
  intro session form
  have bound : session.environment.All Value.Canonical :=
    (lists_stay_canonical.2.2 session (.eval (.fresh defaultLimit _) _ true)).1
  have inner : (Value.quoted (.list [.integer 2] (.integer 3))).Canonical := by
    rw [Value.canonical_quoted, Value.canonical_list]
    exact ⟨⟨List.cons_ne_nil _ _, rfl⟩, List.forall_mem_singleton.mpr nofun, nofun⟩
  have own : form.Canonical := by
    refine Value.canonical_list.mpr ⟨⟨List.cons_ne_nil _ _, rfl⟩, ?_, nofun⟩
    rintro item (_ | ⟨_, _ | ⟨_, _ | ⟨_, ⟨⟩⟩⟩⟩)
    · exact nofun
    · exact nofun
    · exact inner
  exact ⟨bound, own, ((lists_stay_canonical.2.1 ⟨session.environment, ""⟩ bound).1 9 form own).1⟩

end ConsLisp
