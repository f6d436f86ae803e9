import ConsLisp.Proofs.Evaluation.Calls

/-!
# Invariants of evaluation

An invariant is a property of values that every operation of evaluation hands on, together with the
errors that may occur.  Whatever evaluation does then keeps it: results have the property if the
form and all bound values had it, all values bound afterwards have it, errors are among those
allowed, and the environment evolves as evaluation lets it.  All of this is what a single run agrees
on with itself.
-/

namespace ConsLisp

structure Invariant where
  valid : Value → Prop
  allowed : Error → Prop
  runtime : ∀ {cause : Error}, cause.isRuntime = true → allowed cause
  nil : valid .nil
  truth : valid .truth
  number : ∀ number : Number, valid number.toValue
  symbol : ∀ name, valid (.symbol name)
  builtin : ∀ operation, valid (.callable (.builtin operation))
  quoted : ∀ {value}, valid (.quoted value) → valid value
  unpack : ∀ {items terminator}, valid (.list items terminator) →
    valid (Value.unpack items terminator).1 ∧ valid (Value.unpack items terminator).2
  elements : ∀ {items terminator}, valid (.list items terminator) →
    ∀ element ∈ Value.elements items terminator, valid element
  cons : ∀ {head tail}, valid head → valid tail → valid (.cons head tail)
  function : ∀ {name parameters body}, Parameter.isValid parameters = true →
    (∀ parameter ∈ parameters, valid parameter.default) → valid body →
    valid (.callable (.lambda name parameters body))
  body : ∀ {name parameters body}, valid (.callable (.lambda name parameters body)) → valid body
  default : ∀ {name parameters body}, valid (.callable (.lambda name parameters body)) →
    ∀ parameter ∈ parameters, valid parameter.default
  /-- Only the parameters of functions without the property may outnumber the forms of a call. -/
  parameters : ∀ {name parameters body}, valid (.callable (.lambda name parameters body)) →
    Parameter.isValid parameters = true ∨ allowed (.argument .missingForm)

/-- The invariant that asks for nothing. -/
def Invariant.trivial : Invariant where
  valid _ := True
  allowed _ := True
  runtime _ := True.intro
  nil := True.intro
  truth := True.intro
  number _ := True.intro
  symbol _ := True.intro
  builtin _ := True.intro
  quoted _ := True.intro
  unpack _ := ⟨True.intro, True.intro⟩
  elements _ _ _ := True.intro
  cons _ _ := True.intro
  function _ _ _ := True.intro
  body _ := True.intro
  default _ _ _ := True.intro
  parameters _ := .inr True.intro

theorem Environment.all_trivial (environment : Environment) :
    environment.All Invariant.trivial.valid :=
  ⟨fun _ _ _ _ => True.intro, fun _ _ => True.intro⟩

theorem Invariant.accepts_of_runtime {α : Type} {invariant : Invariant} {result : α → Prop}
    {outcome : Except Error α} (runtime : Runtime outcome)
    (holds : ∀ value, outcome = .ok value → result value) :
    Accepts invariant.allowed result outcome :=
  .intro holds fun cause failed => invariant.runtime (runtime cause failed)

/-- A single run, in which all values have the property. -/
def Invariant.run (invariant : Invariant) (limit : Nat) : Runs Unit where
  compared := ⊤
  limit _ := limit
  view _ environment := environment
  output _ text := text
  output_append _ _ _ := rfl
  good := Environment.All invariant.valid
  valid := invariant.valid
  allowed := invariant.allowed
  runtime own _ := invariant.runtime own
  nil := invariant.nil
  truth := invariant.truth
  number := invariant.number
  quoted := invariant.quoted
  unpack := invariant.unpack
  elements := invariant.elements
  cons := invariant.cons
  function _ _ := invariant.function
  body := invariant.body
  default := invariant.default
  parameters := invariant.parameters
  shown _ := .const (accepts_of_runtime (Value.runtime_shown limit _) fun _ _ => True.intro)
  equal _ _ := .const
    (accepts_of_runtime (.mapError ComparisonError.isRuntime_toError _) fun _ _ => True.intro)
  parameterList _ _ _ := .const
    (accepts_of_runtime (Parameter.runtime_ofForm limit _) fun _ found => ⟨limit, found⟩)
  lookup? all _ := ⟨fun _ => rfl, fun _ found => all.lookup? found⟩
  defineGlobal all _ holds := ⟨all.defineGlobal _ holds, fun _ => rfl⟩
  push all own := ⟨all.push own, fun _ => rfl⟩
  pop _ all _ := ⟨all.pop, fun _ => rfl⟩

/-- What a computation that keeps an invariant does to a machine as a whole. -/
theorem Runs.Agree.run {α : Type} {invariant : Invariant} {limit : Nat} {result : α → Prop}
    {action : Eval α} (agree : (invariant.run limit).Agree [] (fun _ => action) result)
    {machine : Machine} (all : machine.environment.All invariant.valid) :
    (action.run machine).2.environment.All invariant.valid ∧
      machine.environment.Evolves (action.run machine).2.environment ∧
      Accepts invariant.allowed result (action.run machine).1 := by
  obtain ⟨outcome, after, ran, rest⟩ := agree machine all
  have same : action.run machine = (outcome, after) := Filter.eventually_top.mp ran ()
  rw [same]
  exact rest

/-- Every budget keeps every invariant. -/
theorem Engine.withBudget_keeps (invariant : Invariant) (limit budget : Nat) :
    Agree (invariant.run limit) (Reach.all _) budget fun _ => withBudget limit budget :=
  withBudget_agree (invariant.runtime rfl) budget

/-- Evaluation keeps every invariant. -/
theorem evaluate_keeps (invariant : Invariant) (limit : Nat) {form : Value}
    (own : invariant.valid form) :
    (invariant.run limit).Agree [] (fun _ => evaluate limit form) invariant.valid :=
  (Engine.withBudget_keeps invariant limit limit).evaluate own True.intro

end ConsLisp
