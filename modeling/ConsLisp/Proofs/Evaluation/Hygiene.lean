import ConsLisp.Proofs.Environment.Addition
import ConsLisp.Proofs.Evaluation.Calls
import ConsLisp.Proofs.Value.Occurs

/-!
# Bindings that nothing mentions

Calls bind the names of parameters around whatever they evaluate, and names are resolved along the
chain of calls, so a binding may be seen from far away.  It is not seen by programs that nowhere
mention its name, even if a builtin has a parameter of that name.  To show this a form is run twice
side by side, once with the binding hidden.
-/

namespace ConsLisp

/-- Two runs, of which one does not see a binding that nothing mentions. -/
def Runs.hiding (limit : Nat) (name : String) (value : Value) (place : Nat) : Runs Bool where
  compared := ⊤
  limit _ := limit
  view hidden environment := if hidden then environment.hide name place else environment
  output _ text := text
  output_append _ _ _ := rfl
  good wider := ∃ environment, Environment.Adds name value place environment wider ∧
    environment.All (Value.Unmentioned name)
  valid := Value.Unmentioned name
  allowed _ := True
  runtime _ _ := True.intro
  nil := nofun
  truth := nofun
  number
    | .integer _ => nofun
    | .float _ => nofun
  quoted own := (Value.without_quoted.mp own).2
  unpack := Value.Without.unpack nofun nofun
  elements := Value.Without.elements
  cons := Value.Without.cons nofun
  function _ _ _ defaults inside := Value.without_lambda.mpr ⟨nofun, defaults, inside⟩
  body own := (Value.without_lambda.mp own).2.2
  default own := (Value.without_lambda.mp own).2.1
  parameters _ := .inr True.intro
  shown _ := .const (.intro (fun _ _ => True.intro) fun _ _ => True.intro)
  equal _ _ := .const (.intro (fun _ _ => True.intro) fun _ _ => True.intro)
  parameterList _ _ _ := .const (.intro (fun _ found => ⟨limit, found⟩) fun _ _ => True.intro)
  lookup? := by
    rintro wider other ⟨environment, adds, all⟩ own
    have same := adds.lookup? (Value.unmentioned_symbol.mp own)
    refine ⟨fun hidden => ?_, fun bound found => all.lookup? (same.trans found)⟩
    cases hidden with
    | true => exact adds.hide_eq.symm ▸ same
    | false => rfl
  defineGlobal := by
    rintro wider other new ⟨environment, adds, all⟩ own holds
    have still := adds.defineGlobal (Value.unmentioned_symbol.mp own) new
    refine ⟨⟨_, still, all.defineGlobal other holds⟩, fun hidden => ?_⟩
    cases hidden with
    | true => exact still.hide_eq.trans (adds.hide_eq.symm ▸ rfl)
    | false => rfl
  push := by
    rintro wider frame ⟨environment, adds, all⟩ own
    have still := adds.push frame
    refine ⟨⟨_, still, all.push own⟩, fun hidden => ?_⟩
    cases hidden with
    | true => exact still.hide_eq.trans (adds.hide_eq.symm ▸ rfl)
    | false => rfl
  pop := by
    rintro before wider ⟨earlier, added, _⟩ ⟨environment, adds, all⟩ longer
    have inside : place < environment.locals.length := by
      rw [← adds.length_locals, longer, added.length_locals]
      exact Nat.lt_succ_of_le added.place_le
    have still := adds.pop inside
    refine ⟨⟨_, still, all.pop⟩, fun hidden => ?_⟩
    cases hidden with
    | true => exact still.hide_eq.trans (adds.hide_eq.symm ▸ rfl)
    | false => rfl

/-- A binding that nothing mentions makes no difference.  Add to any frame of an environment a
binding of a name that it does not bind and that occurs neither in the form nor in any value bound
in the environment: then the form has the same value or fails with the same error, the output is
the same, and the environments afterwards differ in that binding only. -/
theorem evaluate_ignores_unmentioned_binding (limit : Nat) {form : Value} {machine : Machine}
    {wider : Environment} {name : String} {value : Value} {place : Nat}
    (adds : Environment.Adds name value place machine.environment wider)
    (unmentioned : ¬ (Value.symbol name).Occurs form)
    (nowhere : machine.environment.All fun bound => ¬ (Value.symbol name).Occurs bound) :
    let plain := (evaluate limit form).run machine
    let other := (evaluate limit form).run { machine with environment := wider }
    other.1 = plain.1 ∧ other.2.output = plain.2.output ∧
      Environment.Adds name value place plain.2.environment other.2.environment := by
  intro plain other
  let runs := Runs.hiding limit name value place
  have all : machine.environment.All (Value.Unmentioned name) :=
    nowhere.mono fun bound own => Value.unmentioned_iff.mpr own
  have agree : runs.Agree [] (fun _ => evaluate limit form) runs.valid :=
    (Engine.withBudget_agree True.intro limit).evaluate (Value.unmentioned_iff.mpr unmentioned)
      True.intro
  obtain ⟨outcome, after, ran, ⟨environment, still, _⟩, _⟩ :=
    agree { machine with environment := wider } ⟨_, adds, all⟩
  have ranHidden : evaluate limit form { machine with environment := wider.hide name place } =
      (outcome, { after with environment := after.environment.hide name place }) :=
    Filter.eventually_top.mp ran true
  have ranPlain : plain = (outcome, { after with environment := environment }) := by
    rw [adds.hide_eq, still.hide_eq] at ranHidden
    exact ranHidden
  have ranOther : other = (outcome, after) := Filter.eventually_top.mp ran false
  rw [ranPlain, ranOther]
  exact ⟨rfl, rfl, still⟩

/-- `(cons a '())` is evaluated in a frame that binds `A`, and again with `X` bound there too, which
is also the name of a parameter of `CONS`. -/
theorem evaluate_cons_ignores_x :
    let form : Value := .list [.symbol "CONS", .symbol "A", .quoted .nil] .nil
    let machine : Machine := ⟨⟨[⟨[("A", .integer 1)]⟩], .catalogue⟩, ""⟩
    let wider : Environment := ⟨[⟨[("A", .integer 1), ("X", .integer 2)]⟩], .catalogue⟩
    let plain := (evaluate 9 form).run machine
    let other := (evaluate 9 form).run { machine with environment := wider }
    Environment.Adds "X" (.integer 2) 1 machine.environment wider ∧
      other.1 = plain.1 ∧ other.2.output = plain.2.output ∧
      Environment.Adds "X" (.integer 2) 1 plain.2.environment other.2.environment := by
  intro form machine wider plain other
  have adds : Environment.Adds "X" (.integer 2) 1 machine.environment wider :=
    .locals (Frame.adds_insert rfl (.integer 2)) [] [] .catalogue
  have own : form.Unmentioned "X" := by
    refine Value.without_list.mpr ⟨nofun, ?_, nofun⟩
    rintro item (_ | ⟨_, _ | ⟨_, _ | ⟨_, ⟨⟩⟩⟩⟩)
    · exact Value.unmentioned_symbol.mpr (by decide)
    · exact Value.unmentioned_symbol.mpr (by decide)
    · exact Value.without_quoted.mpr ⟨nofun, nofun⟩
  have all : machine.environment.All fun bound => ¬ (Value.symbol "X").Occurs bound := by
    refine ⟨?_, (Environment.All.initial fun _ => nofun).globals⟩
    rintro frame (_ | ⟨_, ⟨⟩⟩) binding (_ | ⟨_, ⟨⟩⟩)
    exact nofun
  exact ⟨adds, evaluate_ignores_unmentioned_binding 9 adds (Value.unmentioned_iff.mp own) all⟩

end ConsLisp
