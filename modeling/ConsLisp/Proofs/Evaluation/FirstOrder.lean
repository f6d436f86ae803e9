import Mathlib.Order.Filter.AtTopBot.Basic
import ConsLisp.Proofs.Evaluation.Budget
import ConsLisp.Proofs.Evaluation.Calls
import ConsLisp.Proofs.Value.Occurs
import ConsLisp.Proofs.Value.Weight

/-!
# Evaluation without functions of one's own

Where neither the names nor the builtins occur that functions are made with, no function is made.
Values without functions can be printed and compared to the depth of their weight, so that all
limits that are large enough do the same.
-/

namespace ConsLisp

namespace Value

/-- What functions are made with, by name or as a builtin, and what is made. -/
inductive IsFunctional : Value → Prop where
  | name {operation : Builtin} (makes : operation.makesFunction = true) :
      IsFunctional (.symbol operation.name)
  | builtin {operation : Builtin} (makes : operation.makesFunction = true) :
      IsFunctional (.callable (.builtin operation))
  | lambda (name : Option String) (parameters : List Parameter) (body : Value) :
      IsFunctional (.callable (.lambda name parameters body))

/-- Neither functions nor what they are made with occur in the value. -/
abbrev FirstOrder : Value → Prop :=
  Without IsFunctional

theorem firstOrder_builtin {operation : Builtin} :
    FirstOrder operation.value ↔ operation.makesFunction = false := by
  constructor
  · exact fun own => Bool.eq_false_iff.mpr fun makes => own _ .here (.builtin makes)
  · intro harmless part inside functional
    cases inside with
    | here =>
        cases functional with
        | builtin makes => exact Bool.eq_false_iff.mp harmless makes

theorem not_firstOrder_lambda {name : Option String} {parameters : List Parameter} {body : Value} :
    ¬ FirstOrder (.callable (.lambda name parameters body)) :=
  fun own => own _ .here (.lambda name parameters body)

theorem exists_display_builtin (print : Value → Printed) (operation : Builtin) :
    ∃ text, Callable.display print (.builtin operation) = .ok text := by
  cases operation <;> exact ⟨_, rfl⟩

namespace FirstOrder

/-- A value can be printed to the depth of its weight. -/
theorem display_ne_tooDeep {value : Value} (own : value.FirstOrder) {limit : Nat}
    (deep : value.weight ≤ limit) : value.display limit ≠ .error .tooDeep := by
  induction limit generalizing value with
  | zero => exact absurd deep (Nat.not_le.mpr value.weight_pos)
  | succ limit ih =>
      intro failed
      cases value with
      | integer number =>
          rw [display, displayInteger] at failed
          split at failed
          · cases failed
          · cases failed
      | quoted inner =>
          rcases Result.bind_eq_error_iff.mp failed with inside | ⟨_, _, impossible⟩
          · exact ih (without_quoted.mp own).2 (Nat.le_of_succ_le_succ deep) inside
          · cases impossible
      | list items terminator =>
          obtain ⟨_, each, last⟩ := without_list.mp own
          rw [weight] at deep
          rcases Result.bind_eq_error_iff.mp failed with early | ⟨_, _, rest⟩
          · obtain ⟨item, member, inside⟩ := Result.exists_of_mapM_eq_error early
            have lighter := weight_lt_weightItems member
            exact ih (each item member) (by omega) inside
          · dsimp only at rest
            split at rest
            · cases rest
            · rcases Result.bind_eq_error_iff.mp rest with late | ⟨_, _, impossible⟩
              · exact ih last (by omega) late
              · cases impossible
      | callable function =>
          cases function with
          | lambda name parameters body => exact not_firstOrder_lambda own
          | builtin operation =>
              obtain ⟨text, shown⟩ := exists_display_builtin (display limit) operation
              cases shown.symm.trans failed
      | _ => cases failed

theorem not_tooDeep_of_shown {value : Value} (own : value.FirstOrder) {limit : Nat}
    (deep : value.weight ≤ limit) {cause : Error} (failed : value.shown limit = .error cause) :
    ¬ cause.IsTooDeep := by
  have printed := own.display_ne_tooDeep deep
  rw [shown] at failed
  cases outcome : value.display limit with
  | ok text =>
      rw [outcome] at failed
      cases failed
  | error fault =>
      rw [outcome] at failed
      cases fault with
      | tooDeep => exact absurd outcome printed
      | tooManyDigits =>
          cases failed
          exact nofun

theorem equalItems_ne_error {compare : Value → Value → Comparison} {left : Value}
    {firsts : List Value} (each : ∀ item ∈ firsts, ∀ other cause, compare item other ≠ .error cause)
    (last : ∀ other cause, compare left other ≠ .error cause) (right : Value)
    (seconds : List Value) (cause : ComparisonError) :
    equalItems compare left right firsts seconds ≠ .error cause := by
  induction firsts generalizing seconds with
  | nil =>
      cases seconds with
      | nil => exact last right cause
      | cons second seconds => exact nofun
  | cons first firsts ih =>
      cases seconds with
      | nil => exact nofun
      | cons second seconds =>
          obtain ⟨own, others⟩ := List.forall_mem_cons.mp each
          intro failed
          rcases Result.bind_eq_error_iff.mp failed with early | ⟨same, _, rest⟩
          · exact own second cause early
          · split at rest
            · exact ih others seconds rest
            · cases rest

/-- A value can be compared with any other to the depth of its weight. -/
theorem equal_ne_error {value : Value} (own : value.FirstOrder) {limit : Nat}
    (deep : value.weight ≤ limit) (other : Value) (cause : ComparisonError) :
    equal limit value other ≠ .error cause := by
  induction limit generalizing value other cause with
  | zero => exact absurd deep (Nat.not_le.mpr value.weight_pos)
  | succ limit ih =>
      intro failed
      unfold equal at failed
      split at failed
      next => cases failed
      next => cases failed
      next => cases failed
      next => cases failed
      next => cases failed
      next => cases failed
      next first second =>
          exact ih (without_quoted.mp own).2 (Nat.le_of_succ_le_succ deep) second cause failed
      next firsts first seconds second =>
          obtain ⟨_, each, last⟩ := without_list.mp own
          rw [weight] at deep
          have items : ∀ item ∈ firsts, ∀ other cause, equal limit item other ≠ .error cause :=
            fun item member => ih (each item member)
              (by have lighter := weight_lt_weightItems member; omega)
          have terminators : ∀ other cause, equal limit first other ≠ .error cause :=
            ih last (by omega)
          cases compared : equalItems (equal limit) first second firsts seconds with
          | error fault => exact equalItems_ne_error items terminators second seconds fault compared
          | ok same =>
              rw [compared] at failed
              cases failed
      next => exact not_firstOrder_lambda own
      next => cases failed

/-- All limits that are large enough print a value the same. -/
theorem settles_shown {value : Value} (own : value.FirstOrder) :
    Settles .atTop (fun cause => ¬ cause.IsTooDeep) (fun limit => value.shown limit)
      fun _ => True := by
  have shallow : ∀ cause, value.shown value.weight = .error cause → ¬ cause.IsTooDeep :=
    fun cause failed => own.not_tooDeep_of_shown (Nat.le_refl _) failed
  refine ⟨value.shown value.weight, ?_, .intro (fun _ _ => True.intro) shallow⟩
  filter_upwards [Filter.eventually_ge_atTop value.weight] with limit deep
  exact ((shown_deepens deep value).eq shallow).symm

theorem settles_equal {value : Value} (own : value.FirstOrder) (other : Value) :
    Settles .atTop (fun cause => ¬ cause.IsTooDeep)
      (fun limit => (equal limit value other).mapError ComparisonError.toError) fun _ => True := by
  have compared := own.equal_ne_error (Nat.le_refl _) other
  cases outcome : equal value.weight value other with
  | error cause => exact absurd outcome (compared cause)
  | ok same =>
      refine ⟨.ok same, ?_, True.intro⟩
      filter_upwards [Filter.eventually_ge_atTop value.weight] with limit deep
      rw [← (equal_deepens deep value other).eq fun cause failed => absurd failed (compared cause),
        outcome]
      rfl

end FirstOrder

end Value

/-! ## Environments -/

/-- Every name that does not make functions is bound to a first-order value. -/
def Frame.FirstOrder (frame : Frame) : Prop :=
  ∀ name value, frame.get? name = some value → (Value.symbol name).FirstOrder → value.FirstOrder

structure Environment.FirstOrder (environment : Environment) : Prop where
  locals : ∀ frame ∈ environment.locals, frame.FirstOrder
  globals : environment.globals.FirstOrder

namespace Frame

theorem firstOrder_catalogue : catalogue.FirstOrder := by
  intro name value found named
  obtain ⟨before, after, split, _⟩ := List.lookup_eq_some_iff.mp found
  have member : (name, value) ∈ catalogue.bindings := by simp [split]
  obtain ⟨operation, _, same⟩ := List.mem_map.mp (bindings_catalogue ▸ member)
  obtain ⟨rfl, rfl⟩ := Prod.mk.inj same
  refine Value.firstOrder_builtin.mpr ?_
  cases operation with
  | defun => exact absurd (.name rfl) (named _ .here)
  | lambda => exact absurd (.name rfl) (named _ .here)
  | _ => rfl

namespace FirstOrder

variable {frame : Frame}

theorem of_all (all : frame.All Value.FirstOrder) : frame.FirstOrder :=
  fun _ _ found _ => all.get? found

theorem insert (own : frame.FirstOrder) (name : String) {value : Value}
    (holds : value.FirstOrder) : (frame.insert name value).FirstOrder := by
  intro other bound found named
  by_cases same : other = name
  · subst same
    rw [get?_insert_self] at found
    exact Option.some.inj found ▸ holds
  · rw [get?_insert_of_ne frame same] at found
    exact own other bound found named

theorem erase (own : frame.FirstOrder) (name : String) : (frame.erase name).FirstOrder := by
  intro other bound found named
  rw [erase_eq_without] at found
  exact own other bound (get?_of_get?_without found) named

end FirstOrder

end Frame

namespace Environment.FirstOrder

variable {environment : Environment}

theorem initial : Environment.initial.FirstOrder :=
  ⟨fun _ member => (List.not_mem_nil member).elim, Frame.firstOrder_catalogue⟩

theorem lookup? (own : environment.FirstOrder) {name : String} {value : Value}
    (found : environment.lookup? name = some value) (named : (Value.symbol name).FirstOrder) :
    value.FirstOrder := by
  rcases Option.or_eq_some_iff.mp found with inner | ⟨_, global⟩
  · obtain ⟨frame, member, here⟩ := List.exists_of_findSome?_eq_some inner
    exact own.locals frame member name value here named
  · exact own.globals name value global named

theorem push (own : environment.FirstOrder) {frame : Frame} (inside : frame.FirstOrder) :
    (environment.push frame).FirstOrder :=
  ⟨List.forall_mem_cons.mpr ⟨inside, own.locals⟩, own.globals⟩

theorem pop (own : environment.FirstOrder) : environment.pop.FirstOrder :=
  ⟨fun frame member => own.locals frame (List.mem_of_mem_tail member), own.globals⟩

theorem defineGlobal (own : environment.FirstOrder) (name : String) {value : Value}
    (holds : value.FirstOrder) : (environment.defineGlobal name value).FirstOrder := by
  obtain ⟨locals, globals⟩ := environment
  obtain ⟨inside, outside⟩ := own
  cases locals with
  | nil => exact ⟨inside, (outside.erase name).insert name holds⟩
  | cons inner outer =>
      obtain ⟨first, rest⟩ := List.forall_mem_cons.mp inside
      exact ⟨List.forall_mem_cons.mpr ⟨first.erase name, rest⟩, outside.insert name holds⟩

end Environment.FirstOrder

/-! ## Runs -/

/-- Runs of which all see the same, where only first-order values are met. -/
def Runs.firstOrder {ι : Type} (compared : Filter ι) (limit : ι → Nat) (allowed : Error → Prop)
    (runtime : ∀ {cause : Error}, cause.isRuntime = true → ¬ cause.IsTooDeep → allowed cause)
    (shown : ∀ {value : Value}, value.FirstOrder →
      ConsLisp.Settles compared allowed (fun run => value.shown (limit run)) fun _ => True)
    (equal : ∀ {left right : Value}, left.FirstOrder → right.FirstOrder →
      ConsLisp.Settles compared allowed
        (fun run => (Value.equal (limit run) left right).mapError ComparisonError.toError)
        fun _ => True) : Runs ι where
  compared := compared
  limit := limit
  view _ environment := environment
  output _ text := text
  output_append _ _ _ := rfl
  good := Environment.FirstOrder
  valid := Value.FirstOrder
  allowed := allowed
  runtime := runtime
  nil := nofun
  truth := nofun
  number
    | .integer _ => nofun
    | .float _ => nofun
  quoted own := (Value.without_quoted.mp own).2
  unpack := Value.Without.unpack nofun nofun
  elements := Value.Without.elements
  cons := Value.Without.cons nofun
  function makes maker :=
    absurd makes (Bool.eq_false_iff.mp (Value.firstOrder_builtin.mp maker))
  body own := absurd own Value.not_firstOrder_lambda
  default own := absurd own Value.not_firstOrder_lambda
  parameters own := absurd own Value.not_firstOrder_lambda
  shown := shown
  equal := equal
  parameterList makes maker :=
    absurd makes (Bool.eq_false_iff.mp (Value.firstOrder_builtin.mp maker))
  lookup? own named := ⟨fun _ => rfl, fun _ found => own.lookup? found named⟩
  defineGlobal own _ holds := ⟨own.defineGlobal _ holds, fun _ => rfl⟩
  push own inside := ⟨own.push (.of_all inside), fun _ => rfl⟩
  pop _ own _ := ⟨own.pop, fun _ => rfl⟩

/-- Runs under the same limit, whatever their engines are. -/
def Runs.underLimit (ι : Type) (limit : Nat) : Runs ι :=
  .firstOrder ⊤ (fun _ => limit) (fun _ => True) (fun _ _ => True.intro)
    (fun _ => .const (.intro (fun _ _ => True.intro) fun _ _ => True.intro))
    fun _ _ => .const (.intro (fun _ _ => True.intro) fun _ _ => True.intro)

/-- Runs under all limits that are large enough, none of which fails for want of depth. -/
def Runs.underLargeLimits : Runs Nat :=
  .firstOrder .atTop id (fun cause => ¬ cause.IsTooDeep) (fun _ shallow => shallow)
    (fun own => own.settles_shown) fun own _ => own.settles_equal _

end ConsLisp
