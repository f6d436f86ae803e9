import ConsLisp.Proofs.Evaluation.FirstOrder
import ConsLisp.Proofs.Interpretation

/-!
# Programs without functions of their own end

A form that mentions neither of the names that functions are made with is evaluated to a depth that
its weight bounds, in every session where no form mentioned them before.
-/

namespace ConsLisp

/-- Every evaluation and every call goes on with something that weighs less. -/
def Reach.byWeight : Reach Value.FirstOrder where
  forms level form := form.weight ≤ level
  calls level given := Value.weightItems given < level
  head within := Nat.le_of_lt_succ (Nat.lt_of_lt_of_le (Value.weight_unpack _ _).1 within)
  tail within := Nat.le_of_lt_succ (Nat.lt_of_lt_of_le (Value.weight_unpack _ _).2 within)
  sequence within _ member := Nat.le_of_lt <| Nat.lt_trans (Value.weight_lt_weightItems member) <|
    Nat.lt_of_succ_lt_succ (Nat.lt_of_lt_of_le (Value.weightItems_unpack _ _) within)
  call within := Nat.lt_of_succ_lt_succ (Nat.lt_of_lt_of_le (Value.weightItems_unpack _ _) within)
  argument within _ member :=
    Nat.le_of_lt_succ (Nat.lt_trans (Value.weight_lt_weightItems member) within)
  clause within member :=
    have lighter := Nat.le_of_lt_succ (Nat.lt_trans (Value.weight_lt_weightItems member) within)
    have parts := Value.weight_unpack _ _
    ⟨Nat.le_of_lt (Nat.lt_of_lt_of_le parts.1 lighter),
      Nat.le_of_lt (Nat.lt_of_lt_of_le parts.2 lighter)⟩
  symbol {_ first _ _} within := Nat.le_of_lt_succ <| Nat.lt_of_le_of_lt first.weight_pos <|
    Nat.lt_trans (Value.weight_lt_weightItems List.mem_cons_self) within
  rest within := Nat.lt_of_lt_of_le (Value.weightItems_lt_cons _ _) (Nat.le_of_lt_succ within)
  body own := absurd own Value.not_firstOrder_lambda

theorem Reach.byWeight_zero :
    (∀ form, ¬ byWeight.forms 0 form) ∧ ∀ given, ¬ byWeight.calls 0 given :=
  ⟨fun form => Nat.not_le.mpr form.weight_pos, fun _ => Nat.not_lt_zero _⟩

/-- Runs agree on whatever engines there are where nothing is in reach. -/
theorem Engine.agree_of_unreachable {ι : Type} {runs : Runs ι} {reach : Reach runs.valid}
    (nothing : (∀ form, ¬ reach.forms 0 form) ∧ ∀ given, ¬ reach.calls 0 given)
    (beneath : ι → Engine) : Agree runs reach 0 beneath :=
  ⟨fun _ within => absurd within (nothing.1 _), fun _ _ within => absurd within (nothing.2 _)⟩

namespace Value.FirstOrder

variable {form : Value} (own : form.FirstOrder) {machine : Machine}
  (clean : machine.environment.FirstOrder)
include own clean

/-- Evaluation never comes to what is further down than the weight of the form. -/
theorem raised_eq (limit : Nat) (first second : Engine) :
    (Engine.raised limit first form.weight).evaluate form machine =
      (Engine.raised limit second form.weight).evaluate form machine := by
  have start : Engine.Agree (.underLimit Engine limit) .byWeight 0 id :=
    Engine.agree_of_unreachable Reach.byWeight_zero id
  obtain ⟨outcome, after, ran, _⟩ :=
    (Engine.raised_agree start form.weight).evaluate own (Nat.le_refl _) machine clean
  have both := Filter.eventually_top.mp ran
  exact (both first).trans (both second).symm

/-- Any budget of at least the weight of the form does the same as any other. -/
theorem withBudget_eq (limit : Nat) {budget : Nat} (enough : form.weight ≤ budget)
    (beneath : Engine) :
    (Engine.withBudget limit budget).evaluate form machine =
      (Engine.raised limit beneath form.weight).evaluate form machine := by
  obtain ⟨more, rfl⟩ := Nat.exists_eq_add_of_le' enough
  rw [← Engine.raised_withBudget]
  exact own.raised_eq clean limit _ _

/-- There is a limit from which on evaluation does not fail for want of depth. -/
theorem exists_sufficient :
    ∃ sufficient, ∀ limit, sufficient ≤ limit → ∀ activity,
      ((evaluate limit form).run machine).1 ≠ .error (.tooDeep activity) := by
  have start : Engine.Agree .underLargeLimits .byWeight 0
      fun limit => Engine.withBudget limit (limit - form.weight) :=
    Engine.agree_of_unreachable Reach.byWeight_zero _
  obtain ⟨outcome, after, ran, _, _, accepted⟩ :=
    (Engine.raised_agree start form.weight).evaluate own (Nat.le_refl _) machine clean
  have shallow : ∀ activity, outcome ≠ .error (.tooDeep activity) := by
    rintro activity rfl
    exact accepted ⟨activity, rfl⟩
  refine Filter.eventually_atTop.mp ?_
  filter_upwards [ran, Filter.eventually_ge_atTop form.weight] with limit same enough activity
  have budget : limit - form.weight + form.weight = limit := Nat.sub_add_cancel enough
  have whole : evaluate limit form machine = (outcome, after) := by
    rw [evaluate, ← budget, ← Engine.raised_withBudget, budget]
    exact same
  rw [Eval.run, whole]
  exact shallow activity

/-- Whatever becomes of a form, environments stay as they have to be. -/
theorem environment_evaluate (limit : Nat) :
    ((evaluate limit form).run machine).2.environment.FirstOrder := by
  have agree : Engine.Agree (.underLimit Unit limit) (.all _) limit
      fun _ => Engine.withBudget limit limit :=
    Engine.withBudget_agree True.intro limit
  obtain ⟨outcome, after, ran, still, _⟩ := agree.evaluate own True.intro machine clean
  have whole : (evaluate limit form).run machine = (outcome, after) :=
    Filter.eventually_top.mp ran ()
  rw [whole]
  exact still

end Value.FirstOrder

/-! ## Forms that are read -/

/-- A form that some source gives and that mentions neither of the names that functions are made
with. -/
structure Value.IsPlain (form : Value) : Prop where
  read : ∃ (σ : Type) (_ : TokenSource σ) (limit : Nat) (source rest : σ),
    Form.read limit source = (.ok form, rest)
  defun : ¬ (Value.symbol "DEFUN").Occurs form
  lambda : ¬ (Value.symbol "LAMBDA").Occurs form

theorem Value.IsPlain.of_derives {depth : Nat} {tokens : List Token} {form : Value}
    (derived : Form.Derives depth tokens form) (shown : ∃ text, form.display depth = .ok text)
    (defun : form.Unmentioned "DEFUN") (lambda : form.Unmentioned "LAMBDA") : form.IsPlain :=
  ⟨⟨List Token, _, depth, tokens ++ [], [],
      Form.read_eq_ok_iff_derives.mpr ⟨tokens, rfl, derived, shown⟩⟩,
    unmentioned_iff.mp defun, unmentioned_iff.mp lambda⟩

/-- No function occurs in a form that is read. -/
theorem Form.closed_without_callables :
    Closed (Value.Without fun part => ∃ function, part = .callable function) := by
  refine .of_cons (fun found => ?_) (fun own => Value.without_quoted.mpr ⟨nofun, own⟩) nofun
    (Value.Without.cons nofun)
  cases Token.atom?_eq_some_iff.mp found with
  | _ => exact nofun

theorem Value.IsPlain.firstOrder {form : Value} (plain : form.IsPlain) : form.FirstOrder := by
  obtain ⟨⟨σ, _, limit, source, rest, read⟩, defun, lambda⟩ := plain
  have data := Form.read_holds Form.closed_without_callables read
  intro part inside functional
  cases functional with
  | @name operation makes =>
      cases operation with
      | defun => exact defun inside
      | lambda => exact lambda inside
      | _ => cases makes
  | builtin makes => exact data _ inside ⟨_, rfl⟩
  | lambda name parameters body => exact data _ inside ⟨_, rfl⟩

/-! ## Sessions -/

/-- A session that starts with the builtins and has run sources whose forms mention neither of the
names that functions are made with. -/
inductive Session.Plain : Session → Prop where
  | fresh (limit : Nat) (bufferSize : Except Error Nat) :
      Plain { limit := limit, bufferSize := bufferSize }
  | eval {session : Session} (plain : Plain session) {source : Source}
      (unmentioned : ∀ size forms cause, session.bufferSize = .ok size →
        Form.Yields session.limit (Lexer.ofSource size source) forms cause →
        ∀ form ∈ forms, ¬ (Value.symbol "DEFUN").Occurs form ∧
          ¬ (Value.symbol "LAMBDA").Occurs form) (strict : Bool) :
      Plain (session.eval source strict).session

theorem Evaluates.firstOrder {limit : Nat} {machine after : Machine} {forms : List Value}
    {value : Value} (evaluates : Evaluates limit machine forms value after)
    (each : ∀ form ∈ forms, form.FirstOrder) (clean : machine.environment.FirstOrder) :
    after.environment.FirstOrder := by
  induction evaluates with
  | none => exact clean
  | @next forms form earlier value middle after before ran ih =>
      obtain ⟨others, own⟩ := List.forall_mem_append.mp each
      have still := (List.forall_mem_singleton.mp own).environment_evaluate (ih others) limit
      rwa [ran] at still

theorem Breaks.firstOrder {limit : Nat} {machine after : Machine} {forms : List Value}
    {fault : Error} (breaks : Breaks limit machine forms fault after)
    (each : ∀ form ∈ forms, form.FirstOrder) (clean : machine.environment.FirstOrder) :
    after.environment.FirstOrder := by
  cases breaks with
  | @fails forms form earlier middle after fault before ran others =>
      obtain ⟨first, rest⟩ := List.forall_mem_append.mp each
      have own := (List.forall_mem_cons.mp rest).1
      have still := own.environment_evaluate (before.firstOrder first clean) limit
      rwa [ran] at still

/-- Running a source leaves environments as they have to be, wherever it ends. -/
theorem interpret_firstOrder {limit size : Nat} {source : Source}
    (readable : ∀ kind, source ≠ .unreadable kind) {forms : List Value} {cause : Error}
    (yields : Form.Yields limit (Lexer.ofSource size source) forms cause)
    (each : ∀ form ∈ forms, form.FirstOrder) {machine : Machine}
    (clean : machine.environment.FirstOrder) (strict : Bool) :
    ((interpret limit size strict source).run machine).2.environment.FirstOrder := by
  rcases evaluates_or_breaks limit machine forms with ⟨value, after, ran⟩ | ⟨fault, after, broken⟩
  · obtain ⟨quiet, loud⟩ := ran.interpret readable yields strict
    by_cases tolerated : cause.Tolerated strict
    · rw [quiet tolerated]
      exact ran.firstOrder each clean
    · rw [loud tolerated]
      exact ran.firstOrder each clean
  · rw [broken.interpret readable yields strict]
    exact broken.firstOrder each clean

theorem Session.Plain.firstOrder {session : Session} (plain : session.Plain) :
    session.environment.FirstOrder := by
  induction plain with
  | fresh limit bufferSize => exact .initial
  | @eval session _ source unmentioned strict ih =>
      unfold Session.eval
      split
      · exact ih
      next size buffered =>
          by_cases readable : ∀ kind, source ≠ .unreadable kind
          · obtain ⟨forms, cause, yields⟩ :=
              Form.exists_yields session.limit (Lexer.ofSource size source)
            refine interpret_firstOrder readable yields (fun form member => ?_) ih strict
            obtain ⟨here, rest, read⟩ := yields.exists_read form member
            obtain ⟨defun, lambda⟩ := unmentioned size forms cause buffered yields form member
            exact Value.IsPlain.firstOrder ⟨⟨Lexer, _, _, here, rest, read⟩, defun, lambda⟩
          · obtain ⟨kind, rfl⟩ := not_forall_not.mp readable
            exact ih

/-- Programs without functions of their own end.  In a session where no source mentions `DEFUN` or
`LAMBDA`, after any such forms of the next source, take another such form.  Its weight bounds how
far down evaluation goes: whatever engine is put there, a budget of that size or more does the
same.  And there is a limit from which on the form does not fail for want of depth. -/
theorem evaluation_ends_without_functions {session : Session} (plain : session.Plain)
    {earlier : List Value} {value : Value} {output : String} {machine : Machine}
    (before : Evaluates session.limit ⟨session.environment, output⟩ earlier value machine)
    (each : ∀ form ∈ earlier, form.IsPlain) {form : Value} (own : form.IsPlain) :
    (∀ (limit budget : Nat), form.weight ≤ budget → ∀ beneath : Engine,
      (Engine.withBudget limit budget).evaluate form machine =
        (Engine.raised limit beneath form.weight).evaluate form machine) ∧
    ∃ sufficient, ∀ limit, sufficient ≤ limit → ∀ activity,
      ((evaluate limit form).run machine).1 ≠ .error (.tooDeep activity) := by
  have clean : machine.environment.FirstOrder :=
    before.firstOrder (fun other member => (each other member).firstOrder) plain.firstOrder
  exact ⟨fun limit budget enough beneath =>
      own.firstOrder.withBudget_eq clean limit enough beneath,
    own.firstOrder.exists_sufficient clean⟩

/-- After `(setq f funcall)`, the form `(funcall f car nil)` goes no further down than it weighs. -/
theorem evaluation_of_funcall_ends :
    let form : Value := .list [.symbol "FUNCALL", .symbol "F", .symbol "CAR", .nil] .nil
    let machine : Machine := ⟨Environment.initial.defineGlobal "F" Builtin.funcall.value, ""⟩
    form.IsPlain ∧ form.weight = 10 ∧
      (∀ (limit budget : Nat), form.weight ≤ budget → ∀ beneath : Engine,
        (Engine.withBudget limit budget).evaluate form machine =
          (Engine.raised limit beneath form.weight).evaluate form machine) ∧
      ∃ sufficient, ∀ limit, sufficient ≤ limit → ∀ activity,
        ((evaluate limit form).run machine).1 ≠ .error (.tooDeep activity) := by
  intro form machine
  let first : Value := .list [.symbol "SETQ", .symbol "F", .symbol "FUNCALL"] .nil
  have ran : Evaluates 9 ⟨.initial, ""⟩ ([] ++ [first]) Builtin.funcall.value machine :=
    .next .none rfl
  have setq : first.IsPlain := by
    have each : ∀ phrase ∈ [(⟨[.symbol "setq"], .symbol "SETQ"⟩ : Form.Phrase),
        ⟨[.symbol "f"], .symbol "F"⟩, ⟨[.symbol "funcall"], .symbol "FUNCALL"⟩],
        Form.Derives 4 phrase.tokens phrase.form := by
      rintro phrase (_ | ⟨_, _ | ⟨_, _ | ⟨_, ⟨⟩⟩⟩⟩)
      all_goals exact .atom (.symbol (by decide) (by decide))
    refine .of_derives (.proper each (List.cons_ne_nil _ _) (by simp)) ⟨_, rfl⟩ ?_ ?_
    all_goals simp [first, Value.without_list, Value.unmentioned_symbol, Value.without_nil]
  have own : form.IsPlain := by
    have each : ∀ phrase ∈ [(⟨[.symbol "funcall"], .symbol "FUNCALL"⟩ : Form.Phrase),
        ⟨[.symbol "f"], .symbol "F"⟩, ⟨[.symbol "car"], .symbol "CAR"⟩, ⟨[.symbol "nil"], .nil⟩],
        Form.Derives 5 phrase.tokens phrase.form := by
      rintro phrase (_ | ⟨_, _ | ⟨_, _ | ⟨_, _ | ⟨_, ⟨⟩⟩⟩⟩⟩)
      on_goal 4 => exact .atom (.nil (by decide))
      all_goals exact .atom (.symbol (by decide) (by decide))
    refine .of_derives (.proper each (List.cons_ne_nil _ _) (by simp)) ⟨_, rfl⟩ ?_ ?_
    all_goals simp [form, Value.without_list, Value.unmentioned_symbol, Value.without_nil]
  exact ⟨own, rfl, evaluation_ends_without_functions (.fresh 9 (.ok 1)) ran
    (List.forall_mem_singleton.mpr setq) own⟩

end ConsLisp
