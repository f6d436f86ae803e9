import Mathlib.Order.Filter.Basic
import ConsLisp.Proofs.Environment
import ConsLisp.Proofs.Evaluation.Machine
import ConsLisp.Proofs.Parameter
import ConsLisp.Proofs.Value.List

/-!
# Runs side by side

A computation may be run several times side by side, under different limits, on engines that differ,
with something hidden from some of the runs or with an output before some of them.  The runs agree
on it if they all end alike and change what they see of the machine alike.  What is needed for that
is said once: the values and errors that runs may come across, what each run sees of a machine, and
what they have in common.  The rules below are about a computation inside frames that it leaves
alone, which are none for a form and the frame of the call for a builtin.

A single run agrees with itself on whatever is an invariant of evaluation.
-/

namespace ConsLisp

/-- A result with a property, or an error that is allowed. -/
def Accepts {α : Type} (allowed : Error → Prop) (result : α → Prop) : Except Error α → Prop
  | .ok value => result value
  | .error cause => allowed cause

theorem Accepts.intro {α : Type} {allowed : Error → Prop} {result : α → Prop}
    {outcome : Except Error α} (holds : ∀ value, outcome = .ok value → result value)
    (fails : ∀ cause, outcome = .error cause → allowed cause) :
    Accepts allowed result outcome := by
  cases outcome with
  | ok value => exact holds value rfl
  | error cause => exact fails cause rfl

/-- A check comes out the same in all runs that are compared. -/
def Settles {ι α : Type} (compared : Filter ι) (allowed : Error → Prop)
    (check : ι → Except Error α) (result : α → Prop) : Prop :=
  ∃ outcome, (∀ᶠ run in compared, check run = outcome) ∧ Accepts allowed result outcome

/-- The builtins whose values or effects are functions. -/
def Builtin.makesFunction : Builtin → Bool
  | .defun | .lambda => true
  | _ => false

structure Runs (ι : Type) where
  /-- The runs to compare: all of them, or all from some point on. -/
  compared : Filter ι
  /-- How deep each run may print and compare. -/
  limit : ι → Nat
  /-- What each run sees of an environment. -/
  view : ι → Environment → Environment
  /-- What each run sees of an output. -/
  output : ι → String → String
  output_append : ∀ run text more, output run (text ++ more) = output run text ++ more
  /-- The environments that can be met. -/
  good : Environment → Prop
  /-- The values that can be met. -/
  valid : Value → Prop
  allowed : Error → Prop
  runtime : ∀ {cause : Error}, cause.isRuntime = true → ¬ cause.IsTooDeep → allowed cause
  nil : valid .nil
  truth : valid .truth
  number : ∀ number : Number, valid number.toValue
  quoted : ∀ {value}, valid (.quoted value) → valid value
  unpack : ∀ {items terminator}, valid (.list items terminator) →
    valid (Value.unpack items terminator).1 ∧ valid (Value.unpack items terminator).2
  elements : ∀ {items terminator}, valid (.list items terminator) →
    ∀ element ∈ Value.elements items terminator, valid element
  cons : ∀ {head tail}, valid head → valid tail → valid (.cons head tail)
  /-- Functions are made only where the builtins are met that make them. -/
  function : ∀ {operation : Builtin} {name parameters body}, operation.makesFunction = true →
    valid operation.value → Parameter.isValid parameters = true →
    (∀ parameter ∈ parameters, valid parameter.default) → valid body →
    valid (.callable (.lambda name parameters body))
  body : ∀ {name parameters body}, valid (.callable (.lambda name parameters body)) → valid body
  default : ∀ {name parameters body}, valid (.callable (.lambda name parameters body)) →
    ∀ parameter ∈ parameters, valid parameter.default
  /-- Only the parameters of functions without the property may outnumber the forms of a call. -/
  parameters : ∀ {name parameters body}, valid (.callable (.lambda name parameters body)) →
    Parameter.isValid parameters = true ∨ allowed (.argument .missingForm)
  shown : ∀ {value}, valid value →
    Settles compared allowed (fun run => value.shown (limit run)) fun _ => True
  equal : ∀ {left right}, valid left → valid right →
    Settles compared allowed
      (fun run => (Value.equal (limit run) left right).mapError ComparisonError.toError)
      fun _ => True
  parameterList : ∀ {operation : Builtin} {form}, operation.makesFunction = true →
    valid operation.value → valid form →
    Settles compared allowed (fun run => Parameter.ofForm (limit run) form) fun parameters =>
      ∃ depth, Parameter.ofForm depth form = .ok parameters
  /-- A name that can be met has the same value in all runs. -/
  lookup? : ∀ {environment name}, good environment → valid (.symbol name) →
    (∀ run, (view run environment).lookup? name = environment.lookup? name) ∧
      ∀ value, environment.lookup? name = some value → valid value
  defineGlobal : ∀ {environment name value}, good environment → valid (.symbol name) →
    valid value → good (environment.defineGlobal name value) ∧
      ∀ run, view run (environment.defineGlobal name value) =
        (view run environment).defineGlobal name value
  push : ∀ {environment frame}, good environment → frame.All valid →
    good (environment.push frame) ∧
      ∀ run, view run (environment.push frame) = (view run environment).push frame
  /-- A frame that was pushed can be popped again. -/
  pop : ∀ {environment after}, good environment → good after →
    after.locals.length = environment.locals.length + 1 →
      good after.pop ∧ ∀ run, view run after.pop = (view run after).pop

namespace Settles

variable {ι α β : Type} {compared : Filter ι} {allowed : Error → Prop}

theorem const {result : α → Prop} {outcome : Except Error α}
    (accepted : Accepts allowed result outcome) :
    Settles compared allowed (fun _ => outcome) result :=
  ⟨outcome, .of_forall fun _ => rfl, accepted⟩

theorem bind {middle : α → Prop} {result : β → Prop} {check : ι → Except Error α}
    {next : ι → α → Except Error β} (first : Settles compared allowed check middle)
    (second : ∀ value, middle value → Settles compared allowed (fun run => next run value) result) :
    Settles compared allowed (fun run => check run >>= next run) result := by
  obtain ⟨outcome, same, accepted⟩ := first
  cases outcome with
  | error cause =>
      refine ⟨.error cause, ?_, accepted⟩
      filter_upwards [same] with run equal
      rw [equal]
      rfl
  | ok value =>
      obtain ⟨final, sameToo, acceptedToo⟩ := second value accepted
      refine ⟨final, ?_, acceptedToo⟩
      filter_upwards [same, sameToo] with run equal equalToo
      rw [equal]
      exact equalToo

end Settles

namespace Runs

variable {ι α β : Type} {runs : Runs ι}

/-- Items with the property in front of a value with it make a value with it. -/
theorem ofItems (runs : Runs ι) {items : List Value} {terminator : Value}
    (each : ∀ item ∈ items, runs.valid item) (last : runs.valid terminator) :
    runs.valid (.ofItems items terminator) :=
  Value.holds_ofItems runs.cons each last

theorem ofBool (runs : Runs ι) (flag : Bool) : runs.valid (.ofBool flag) := by
  cases flag with
  | true => exact runs.truth
  | false => exact runs.nil

/-- A function made from forms with the property has it. -/
theorem lambda (runs : Runs ι) {operation : Builtin} (makes : operation.makesFunction = true)
    (maker : runs.valid operation.value) {depth : Nat} {form body : Value}
    {parameters : List Parameter} (read : Parameter.ofForm depth form = .ok parameters)
    (own : runs.valid form) (inside : runs.valid body) (name : Option String) :
    runs.valid (.callable (.lambda name parameters body)) := by
  obtain ⟨sound, defaults⟩ := Parameter.ofForm_eq_ok read
  refine runs.function makes maker sound (fun parameter member => ?_) inside
  obtain ⟨items, terminator, rfl, entry, found, nil | ⟨inner, last, rfl, literal⟩⟩ :=
    defaults parameter member
  · exact nil ▸ runs.nil
  · exact runs.elements (runs.elements own _ found) _ literal

/-! ## Checks -/

/-- A check that comes out the same in all runs. -/
abbrev Settles (runs : Runs ι) (check : ι → Except Error α) (result : α → Prop) : Prop :=
  ConsLisp.Settles runs.compared runs.allowed check result

theorem refuse (runs : Runs ι) (cause : String → Mismatch) {value : Value}
    (own : runs.valid value) (result : α → Prop) :
    runs.Settles (fun run => value.refuse (runs.limit run) cause) result :=
  (runs.shown own).bind fun _ _ => .const (runs.runtime rfl nofun)

/-- A check of the kind of a value gives what the view shows of it. -/
theorem expectAs (runs : Runs ι) (view : Value → Option α) (what : String) {value : Value}
    (own : runs.valid value) :
    runs.Settles (fun run => value.expectAs (runs.limit run) view what) fun seen =>
      view value = some seen := by
  cases seen : view value with
  | some shown =>
      simp only [Value.expectAs, seen]
      exact .const rfl
  | none =>
      simp only [Value.expectAs, seen]
      exact runs.refuse _ own _

theorem princ (runs : Runs ι) {value : Value} (own : runs.valid value) :
    runs.Settles (fun run => (value.princ (runs.limit run)).mapError PrintError.toError)
      fun _ => True := by
  cases value with
  | string text => exact .const True.intro
  | quoted inner => exact runs.shown (runs.quoted own)
  | _ => exact runs.shown own

/-! ## Computations -/

/-- A machine as a run sees it. -/
def see (runs : Runs ι) (run : ι) (machine : Machine) : Machine :=
  ⟨runs.view run machine.environment, runs.output run machine.output⟩

/-- All runs of a computation inside certain frames leave those as they are, end alike and change
what they see of the environment around them alike. -/
def Agree (runs : Runs ι) (top : List Frame) (action : ι → Eval α) (result : α → Prop) : Prop :=
  ∀ machine : Machine, runs.good machine.environment →
    ∃ (outcome : Except Error α) (after : Machine),
      (∀ᶠ run in runs.compared, action run ((runs.see run machine).under top) =
        (outcome, (runs.see run after).under top)) ∧
      runs.good after.environment ∧
      machine.environment.Evolves after.environment ∧ Accepts runs.allowed result outcome

namespace Agree

variable {top : List Frame}

theorem ofExcept {result : α → Prop} {check : ι → Except Error α}
    (settled : runs.Settles check result) :
    runs.Agree top (fun run => Eval.ofExcept (check run)) result := by
  intro machine good
  obtain ⟨outcome, same, accepted⟩ := settled
  refine ⟨outcome, machine, ?_, good, .refl _, accepted⟩
  filter_upwards [same] with run equal
  rw [equal]
  rfl

theorem fail {result : α → Prop} {cause : Error} (allowed : runs.allowed cause) :
    runs.Agree top (fun _ => Eval.fail cause) result :=
  ofExcept (.const allowed)

theorem pure {result : α → Prop} {value : α} (holds : result value) :
    runs.Agree top (fun _ => Pure.pure value) result :=
  fun machine good => ⟨.ok value, machine, .of_forall fun _ => rfl, good, .refl _, holds⟩

theorem bind {middle : α → Prop} {result : β → Prop} {action : ι → Eval α}
    {next : ι → α → Eval β} (first : runs.Agree top action middle)
    (second : ∀ value, middle value → runs.Agree top (fun run => next run value) result) :
    runs.Agree top (fun run => action run >>= next run) result := by
  intro machine good
  obtain ⟨outcome, after, ran, still, evolved, accepted⟩ := first machine good
  cases outcome with
  | error cause =>
      refine ⟨.error cause, after, ?_, still, evolved, accepted⟩
      filter_upwards [ran] with run same
      rw [Eval.bind_run, same]
  | ok value =>
      obtain ⟨final, last, ranToo, kept, evolvedToo, acceptedToo⟩ :=
        second value accepted after still
      refine ⟨final, last, ?_, kept, evolved.trans evolvedToo, acceptedToo⟩
      filter_upwards [ran, ranToo] with run same sameToo
      rw [Eval.bind_run, same]
      exact sameToo

theorem mono {first second : α → Prop} {action : ι → Eval α}
    (agree : runs.Agree top action first) (weaker : ∀ value, first value → second value) :
    runs.Agree top action second := by
  intro machine good
  obtain ⟨outcome, after, ran, still, evolved, accepted⟩ := agree machine good
  refine ⟨outcome, after, ran, still, evolved, ?_⟩
  cases outcome with
  | error cause => exact accepted
  | ok value => exact weaker value accepted

theorem write (text : String) : runs.Agree top (fun _ => Eval.write text) fun _ => True := by
  intro machine good
  refine ⟨.ok (), { machine with output := machine.output ++ text }, .of_forall fun run => ?_, good,
    .refl _, trivial⟩
  exact congrArg (fun output => (Except.ok (), Machine.mk _ output))
    (runs.output_append run machine.output text).symm

theorem lookup? {name : String} (own : runs.valid (.symbol name)) :
    runs.Agree [] (fun _ => Eval.lookup? name) fun found =>
      ∀ value, found = some value → runs.valid value := by
  intro machine good
  obtain ⟨same, holds⟩ := runs.lookup? good own
  refine ⟨.ok (machine.environment.lookup? name), machine, .of_forall fun run => ?_, good, .refl _,
    holds⟩
  exact congrArg (fun found => (Except.ok found, runs.see run machine)) (same run)

theorem defineGlobal {name : String} {value : Value} (own : runs.valid (.symbol name))
    (holds : runs.valid value) :
    runs.Agree [] (fun _ => Eval.defineGlobal name value) fun _ => True := by
  intro machine good
  obtain ⟨still, same⟩ := runs.defineGlobal good own holds
  refine ⟨.ok (), { machine with environment := machine.environment.defineGlobal name value },
    .of_forall fun run => ?_, still, .defineGlobal _ name value, trivial⟩
  exact congrArg
    (fun environment => (Except.ok (), Machine.mk environment (runs.output run machine.output)))
    (same run).symm

/-- A builtin finds its arguments in the frame of its call. -/
theorem argument {frame : Frame} {name : String} {value : Value}
    (found : frame.get? name = some value) :
    runs.Agree [frame] (fun _ => Eval.argument name) (· = value) :=
  fun machine good =>
    ⟨.ok value, machine, .of_forall fun _ => Eval.argument_run found _, good, .refl _, rfl⟩

theorem inCaller {frame : Frame} {result : α → Prop} {action : ι → Eval α}
    (agree : runs.Agree [] action result) :
    runs.Agree [frame] (fun run => Eval.inCaller (action run)) result := by
  intro machine good
  obtain ⟨outcome, after, ran, rest⟩ := agree machine good
  refine ⟨outcome, after, ?_, rest⟩
  filter_upwards [ran] with run same
  have plain : action run (runs.see run machine) = (outcome, runs.see run after) := same
  rw [Eval.inCaller_run, plain]

/-- The frame of a builtin's call is gone after it. -/
theorem inFrame {frame : Frame} {result : α → Prop} {action : ι → Eval α}
    (agree : runs.Agree [frame] action result) :
    runs.Agree [] (fun run => Eval.inFrame frame (action run)) result := by
  intro machine good
  obtain ⟨outcome, after, ran, rest⟩ := agree machine good
  refine ⟨outcome, after, ?_, rest⟩
  filter_upwards [ran] with run same
  show Eval.inFrame frame (action run) (runs.see run machine) = _
  rw [Eval.inFrame_run, same]
  rfl

/-- A function's body may change its own frame, which is gone after the call. -/
theorem inOwnFrame {frame : Frame} (own : frame.All runs.valid) {result : α → Prop}
    {action : ι → Eval α} (agree : runs.Agree [] action result) :
    runs.Agree [] (fun run => Eval.inFrame frame (action run)) result := by
  intro machine good
  obtain ⟨inside, pushed⟩ := runs.push good own
  obtain ⟨outcome, after, ran, still, evolved, accepted⟩ :=
    agree { machine with environment := machine.environment.push frame } inside
  obtain ⟨back, popped⟩ := runs.pop good still evolved.length_locals
  refine ⟨outcome, { after with environment := after.environment.pop }, ?_, back, evolved.pop,
    accepted⟩
  filter_upwards [ran] with run same
  have around : (runs.see run machine).under [frame] =
      runs.see run { machine with environment := machine.environment.push frame } :=
    congrArg (Machine.mk · (runs.output run machine.output)) (pushed run).symm
  have plain : action run ((runs.see run machine).under [frame]) =
      (outcome, runs.see run after) := around ▸ same
  show Eval.inFrame frame (action run) (runs.see run machine) = _
  rw [Eval.inFrame_run, plain]
  exact congrArg
    (fun environment => (outcome, Machine.mk environment (runs.output run after.output)))
    (popped run).symm

end Agree

end Runs

end ConsLisp
