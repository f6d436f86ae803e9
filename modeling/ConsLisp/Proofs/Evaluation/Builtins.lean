import ConsLisp.Proofs.Evaluation.Runs

/-!
# Runs agree on builtins

Each builtin finds its arguments in the frame of its call, under the names of its parameters, and
does the rest in the environment of its caller.
-/

namespace ConsLisp

/-- What can be evaluated and called within a number of levels, where every evaluation and every
call goes down by one of them. -/
structure Reach (valid : Value → Prop) where
  forms : Nat → Value → Prop
  calls : Nat → List Value → Prop
  head : ∀ {level items terminator}, forms (level + 1) (.list items terminator) →
    forms level (Value.unpack items terminator).1
  tail : ∀ {level items terminator}, forms (level + 1) (.list items terminator) →
    forms level (Value.unpack items terminator).2
  sequence : ∀ {level items terminator}, forms (level + 1) (.list items terminator) →
    ∀ form ∈ (Value.unpack items terminator).2.asForms, forms level form
  call : ∀ {level items terminator}, forms (level + 1) (.list items terminator) →
    calls level (Value.unpack items terminator).2.asForms
  argument : ∀ {level given}, calls (level + 1) given → ∀ form ∈ given, forms level form
  clause : ∀ {level given items terminator}, calls (level + 1) given →
    .list items terminator ∈ given →
      forms level (Value.unpack items terminator).1 ∧
        forms level (Value.unpack items terminator).2
  /-- The first argument of a call may be a name for what to call with the others. -/
  symbol : ∀ {level first rest name}, calls (level + 1) (first :: rest) →
    forms level (.symbol name)
  rest : ∀ {level first rest}, calls (level + 1) (first :: rest) → calls level rest
  body : ∀ {level name parameters body}, valid (.callable (.lambda name parameters body)) →
    forms level body

/-- Everything is within every number of levels. -/
def Reach.all (valid : Value → Prop) : Reach valid where
  forms _ _ := True
  calls _ _ := True
  head _ := True.intro
  tail _ := True.intro
  sequence _ _ _ := True.intro
  call _ := True.intro
  argument _ _ _ := True.intro
  clause _ _ := ⟨True.intro, True.intro⟩
  symbol _ := True.intro
  rest _ := True.intro
  body _ := True.intro

/-- Engines on which runs agree as far as a number of levels goes. -/
structure Engine.Agree {ι : Type} (runs : Runs ι) (reach : Reach runs.valid) (level : Nat)
    (engine : ι → Engine) : Prop where
  evaluate : ∀ {form : Value}, runs.valid form → reach.forms level form →
    runs.Agree [] (fun run => (engine run).evaluate form) runs.valid
  apply : ∀ {function : Callable} {arguments : Value}, runs.valid (.callable function) →
    runs.valid arguments → reach.calls level arguments.asForms →
      runs.Agree [] (fun run => (engine run).apply function arguments) runs.valid

/-- A name is bound to a value that can be met. -/
def Runs.Binds {ι : Type} (runs : Runs ι) (frame : Frame) (name : String) : Prop :=
  ∃ value, frame.get? name = some value ∧ runs.valid value

namespace Builtin

variable {ι : Type} {runs : Runs ι} {frame : Frame}

theorem argument_agree {name : String} (bound : runs.Binds frame name) :
    runs.Agree [frame] (fun _ => Eval.argument name) runs.valid := by
  obtain ⟨value, found, holds⟩ := bound
  exact (Runs.Agree.argument found).mono fun _ same => same ▸ holds

theorem argumentList_agree {name : String} {forms : List Value}
    (found : frame.get? name = some (.ofItems forms .nil)) :
    runs.Agree [frame] (fun _ => argumentList name) (· = forms) := by
  refine (Runs.Agree.argument found).bind ?_
  rintro _ rfl
  rw [Value.walk?_ofItems]
  exact .pure rfl

theorem expectAs_agree {α : Type} {top : List Frame} (view : Value → Option α) (what : String)
    {value : Value} (own : runs.valid value) :
    runs.Agree top (fun run => Eval.ofExcept (value.expectAs (runs.limit run) view what))
      fun seen => view value = some seen :=
  .ofExcept (runs.expectAs view what own)

/-! ## Numbers -/

theorem operands_agree (left : runs.Binds frame "X") (right : runs.Binds frame "Y") :
    runs.Agree [frame] (fun run => operands (runs.limit run)) fun _ => True :=
  (argument_agree left).bind fun _ first => (expectAs_agree _ _ first).bind fun _ _ =>
    (argument_agree right).bind fun _ second => (expectAs_agree _ _ second).bind fun _ _ =>
      .pure trivial

theorem accepts_computed (result : Except NumericError Number) :
    Accepts runs.allowed runs.valid (computed result) := by
  cases result with
  | error cause => exact runs.runtime rfl nofun
  | ok number => exact runs.number number

theorem accepts_divided (operation : Number → Number → Except NumericError Number)
    (left right : Number) : Accepts runs.allowed runs.valid (divided operation left right) := by
  unfold divided
  split
  · cases left.text with
    | error cause => exact runs.runtime rfl nofun
    | ok text => exact runs.runtime rfl nofun
  · exact accepts_computed _

theorem calculate_agree (operation : Number → Number → Except NumericError Number)
    (left : runs.Binds frame "X") (right : runs.Binds frame "Y") :
    runs.Agree [frame] (fun run => calculate (runs.limit run) operation) runs.valid :=
  (operands_agree left right).bind fun _ _ => .ofExcept (.const (accepts_computed _))

theorem calculateQuotient_agree (operation : Number → Number → Except NumericError Number)
    (left : runs.Binds frame "X") (right : runs.Binds frame "Y") :
    runs.Agree [frame] (fun run => calculateQuotient (runs.limit run) operation) runs.valid :=
  (operands_agree left right).bind fun _ _ => .ofExcept (.const (accepts_divided _ _ _))

theorem compareOperands_agree (test : Ordering → Bool) (left : runs.Binds frame "X")
    (right : runs.Binds frame "Y") :
    runs.Agree [frame] (fun run => compareOperands (runs.limit run) test) runs.valid :=
  (operands_agree left right).bind fun _ _ => .pure (runs.ofBool _)

/-! ## Single values -/

theorem testArgument_agree (test : Value → Bool) (bound : runs.Binds frame "X") :
    runs.Agree [frame] (fun _ => testArgument test) runs.valid :=
  (argument_agree bound).bind fun _ _ => .pure (runs.ofBool _)

theorem takeApart_agree {part : List Value → Value → Value}
    (holds : ∀ {items terminator}, runs.valid (.list items terminator) →
      runs.valid (part items terminator))
    (bound : runs.Binds frame "X") :
    runs.Agree [frame] (fun run => takeApart (runs.limit run) part) runs.valid := by
  refine (argument_agree bound).bind fun value own => ?_
  split
  · exact .pure runs.nil
  · refine (expectAs_agree Value.list? _ own).bind fun ⟨items, terminator⟩ seen =>
      .pure (holds ?_)
    cases value with
    | list =>
        cases seen
        exact own
    | _ => cases seen

theorem runEqual_agree (left : runs.Binds frame "X") (right : runs.Binds frame "Y") :
    runs.Agree [frame] (fun run => runEqual (runs.limit run)) runs.valid :=
  (argument_agree left).bind fun _ first => (argument_agree right).bind fun _ second =>
    (Runs.Agree.ofExcept (runs.equal first second)).bind fun _ _ => .pure (runs.ofBool _)

theorem writeArgument_agree {print : ι → Value → Printed}
    (printed : ∀ {value}, runs.valid value →
      runs.Settles (fun run => (print run value).mapError PrintError.toError) fun _ => True)
    (ending : String) (bound : runs.Binds frame "X") :
    runs.Agree [frame] (fun run => writeArgument (print run) ending) runs.valid :=
  (argument_agree bound).bind fun _ own =>
    (Runs.Agree.ofExcept (printed own)).bind fun _ _ =>
      (Runs.Agree.write _).bind fun _ _ => .pure own

theorem runCons_agree (head : runs.Binds frame "X") (tail : runs.Binds frame "Y") :
    runs.Agree [frame] (fun _ => runCons) runs.valid :=
  (argument_agree head).bind fun _ first => (argument_agree tail).bind fun _ second =>
    .pure (runs.cons first second)

/-! ## Forms -/

section

variable {reach : Reach runs.valid} {level : Nat} {engine : ι → Engine}
  (agree : Engine.Agree runs reach level engine)
include agree

theorem conjunction_agree {value : Value} {forms : List Value} (own : runs.valid value)
    (each : ∀ form ∈ forms, runs.valid form) (within : ∀ form ∈ forms, reach.forms level form) :
    runs.Agree [] (fun run => conjunction (engine run) value forms) runs.valid := by
  induction forms generalizing value with
  | nil => exact .pure own
  | cons form forms ih =>
      obtain ⟨first, others⟩ := List.forall_mem_cons.mp each
      obtain ⟨near, far⟩ := List.forall_mem_cons.mp within
      refine (agree.evaluate first near).bind fun result holds => ?_
      split
      · exact ih holds others far
      · exact .pure runs.nil

theorem disjunction_agree {forms : List Value} (each : ∀ form ∈ forms, runs.valid form)
    (within : ∀ form ∈ forms, reach.forms level form) :
    runs.Agree [] (fun run => disjunction (engine run) forms) runs.valid := by
  induction forms with
  | nil => exact .pure runs.nil
  | cons form forms ih =>
      obtain ⟨first, others⟩ := List.forall_mem_cons.mp each
      obtain ⟨near, far⟩ := List.forall_mem_cons.mp within
      refine (agree.evaluate first near).bind fun result holds => ?_
      split
      · exact .pure holds
      · exact ih others far

theorem conditional_agree {clauses : List Value}
    (each : ∀ clause ∈ clauses, runs.valid clause)
    (within : ∀ items terminator, .list items terminator ∈ clauses →
      reach.forms level (Value.unpack items terminator).1 ∧
        reach.forms level (Value.unpack items terminator).2) :
    runs.Agree [] (fun run => conditional (runs.limit run) (engine run) clauses) runs.valid := by
  induction clauses with
  | nil => exact .pure runs.nil
  | cons clause clauses ih =>
      obtain ⟨own, others⟩ := List.forall_mem_cons.mp each
      refine (expectAs_agree Value.list? _ own).bind fun ⟨items, terminator⟩ seen => ?_
      cases clause with
      | list =>
          cases seen
          have parts := runs.unpack own
          obtain ⟨near, nearToo⟩ := within items terminator List.mem_cons_self
          dsimp only
          generalize Value.unpack items terminator = parted at parts near nearToo ⊢
          refine (agree.evaluate parts.1 near).bind fun result holds => ?_
          split
          · split
            · exact .pure holds
            · exact agree.evaluate parts.2 nearToo
          · exact ih others fun items terminator member =>
              within items terminator (List.mem_cons_of_mem _ member)
      | _ => cases seen

theorem mapM_agree {forms : List Value} (each : ∀ form ∈ forms, runs.valid form)
    (within : ∀ form ∈ forms, reach.forms level form) :
    runs.Agree [] (fun run => forms.mapM (engine run).evaluate) fun values =>
      ∀ value ∈ values, runs.valid value := by
  induction forms with
  | nil => exact .pure fun _ member => by cases member
  | cons form forms ih =>
      obtain ⟨first, others⟩ := List.forall_mem_cons.mp each
      obtain ⟨near, far⟩ := List.forall_mem_cons.mp within
      simp only [List.mapM_cons]
      refine (agree.evaluate first near).bind fun value holds => ?_
      exact (ih others far).bind fun values rest =>
        .pure (List.forall_mem_cons.mpr ⟨holds, rest⟩)

theorem runAnd_agree {forms : List Value} (found : frame.get? "X" = some (.ofItems forms .nil))
    (each : ∀ form ∈ forms, runs.valid form) (within : ∀ form ∈ forms, reach.forms level form) :
    runs.Agree [frame] (fun run => runAnd (engine run)) runs.valid := by
  refine (argumentList_agree found).bind ?_
  rintro _ rfl
  exact (conjunction_agree agree runs.truth each within).inCaller

theorem runOr_agree {forms : List Value} (found : frame.get? "X" = some (.ofItems forms .nil))
    (each : ∀ form ∈ forms, runs.valid form) (within : ∀ form ∈ forms, reach.forms level form) :
    runs.Agree [frame] (fun run => runOr (engine run)) runs.valid := by
  refine (argumentList_agree found).bind ?_
  rintro _ rfl
  exact (disjunction_agree agree each within).inCaller

theorem runCond_agree {forms : List Value} (found : frame.get? "X" = some (.ofItems forms .nil))
    (each : ∀ form ∈ forms, runs.valid form)
    (within : ∀ items terminator, .list items terminator ∈ forms →
      reach.forms level (Value.unpack items terminator).1 ∧
        reach.forms level (Value.unpack items terminator).2) :
    runs.Agree [frame] (fun run => runCond (runs.limit run) (engine run)) runs.valid := by
  refine (argumentList_agree found).bind ?_
  rintro _ rfl
  exact (conditional_agree agree each within).inCaller

theorem runList_agree {forms : List Value} (found : frame.get? "X" = some (.ofItems forms .nil))
    (each : ∀ form ∈ forms, runs.valid form) (within : ∀ form ∈ forms, reach.forms level form) :
    runs.Agree [frame] (fun run => runList (engine run)) runs.valid := by
  refine (argumentList_agree found).bind ?_
  rintro _ rfl
  exact (mapM_agree agree each within).inCaller.bind fun _ values =>
    .pure (runs.ofItems values runs.nil)

theorem resolve_agree {value : Value} (own : runs.valid value)
    (within : ∀ name, reach.forms level (.symbol name)) :
    runs.Agree [frame] (fun run => resolve (engine run) value) runs.valid := by
  cases value with
  | symbol name => exact (agree.evaluate own (within name)).inCaller
  | _ => exact .pure own

theorem runFuncall_agree (function : runs.Binds frame "X") {forms : List Value}
    (found : frame.get? "Y" = some (.ofItems forms .nil))
    (each : ∀ form ∈ forms, runs.valid form) (named : ∀ name, reach.forms level (.symbol name))
    (within : reach.calls level forms) :
    runs.Agree [frame] (fun run => runFuncall (runs.limit run) (engine run)) runs.valid := by
  refine (argument_agree function).bind fun value own => ?_
  refine (resolve_agree agree own named).bind fun resolved holds => ?_
  refine (expectAs_agree Value.callable? _ holds).bind fun callee seen => ?_
  refine (Runs.Agree.argument found).bind ?_
  rintro _ rfl
  refine Runs.Agree.inCaller (agree.apply ?_ (runs.ofItems each runs.nil) ?_)
  · cases resolved with
    | callable =>
        cases seen
        exact holds
    | _ => cases seen
  · rwa [Value.asForms_ofItems]

end

/-! ## Definitions -/

theorem symbol_of_seen {value : Value} {name : String} (own : runs.valid value)
    (seen : value.symbol? = some name) : runs.valid (.symbol name) := by
  cases value with
  | symbol =>
      cases seen
      exact own
  | _ => cases seen

theorem runSetq_agree (name : runs.Binds frame "X") (value : runs.Binds frame "Y") :
    runs.Agree [frame] (fun run => runSetq (runs.limit run)) runs.valid :=
  (argument_agree name).bind fun _ own => (expectAs_agree _ _ own).bind fun _ seen =>
    (argument_agree value).bind fun _ holds =>
      (Runs.Agree.defineGlobal (symbol_of_seen own seen) holds).inCaller.bind fun _ _ =>
        .pure holds

theorem runDefun_agree (maker : runs.valid Builtin.defun.value) (name : runs.Binds frame "X")
    (parameters : runs.Binds frame "Y") (body : runs.Binds frame "Z") :
    runs.Agree [frame] (fun run => runDefun (runs.limit run)) runs.valid := by
  refine (argument_agree name).bind fun value own => ?_
  refine (expectAs_agree _ _ own).bind fun _ seen => ?_
  have named := symbol_of_seen own seen
  refine (argument_agree parameters).bind fun form holds => ?_
  refine (Runs.Agree.ofExcept (runs.parameterList rfl maker holds)).bind ?_
  rintro _ ⟨depth, read⟩
  refine (argument_agree body).bind fun _ inside => ?_
  have function := runs.lambda rfl maker read holds inside
  exact (Runs.Agree.defineGlobal named (function _)).inCaller.bind fun _ _ => .pure named

theorem runLambda_agree (maker : runs.valid Builtin.lambda.value)
    (parameters : runs.Binds frame "X") (body : runs.Binds frame "Y") :
    runs.Agree [frame] (fun run => runLambda (runs.limit run)) runs.valid := by
  refine (argument_agree parameters).bind fun form holds => ?_
  refine (Runs.Agree.ofExcept (runs.parameterList rfl maker holds)).bind ?_
  rintro _ ⟨depth, read⟩
  exact (argument_agree body).bind fun _ inside =>
    .pure (runs.lambda rfl maker read holds inside none)

/-! ## All builtins -/

/-- The frame of a builtin's call on certain forms. -/
structure Called (runs : Runs ι) (operation : Builtin) (forms : List Value) (frame : Frame) :
    Prop where
  count : Parameter.requiredCount operation.parameters ≤ forms.length
  each : ∀ form ∈ forms, runs.valid form
  given : ∀ {name}, name ∈ operation.signature.map Prod.snd → runs.Binds frame name
  listed : ∀ before {name}, operation.signature = before ++ [(.rest, name)] →
    frame.get? name = some (.ofItems (forms.drop before.length) .nil)

theorem run_agree {reach : Reach runs.valid} {level : Nat} {engine : ι → Engine}
    (agree : Engine.Agree runs reach level engine) {operation : Builtin}
    (own : runs.valid operation.value) {forms : List Value}
    (called : Called runs operation forms frame) (within : reach.calls (level + 1) forms) :
    runs.Agree [frame] (fun run => operation.run (runs.limit run) (engine run)) runs.valid := by
  obtain ⟨count, each, given, listed⟩ := called
  have near := reach.argument within
  cases operation with
  | add => exact calculate_agree _ (given (by decide)) (given (by decide))
  | subtract => exact calculate_agree _ (given (by decide)) (given (by decide))
  | multiply => exact calculate_agree _ (given (by decide)) (given (by decide))
  | divide => exact calculateQuotient_agree _ (given (by decide)) (given (by decide))
  | modulo => exact calculateQuotient_agree _ (given (by decide)) (given (by decide))
  | less => exact compareOperands_agree _ (given (by decide)) (given (by decide))
  | greater => exact compareOperands_agree _ (given (by decide)) (given (by decide))
  | equalNumbers => exact compareOperands_agree _ (given (by decide)) (given (by decide))
  | lessOrEqual => exact compareOperands_agree _ (given (by decide)) (given (by decide))
  | greaterOrEqual => exact compareOperands_agree _ (given (by decide)) (given (by decide))
  | isSymbol => exact testArgument_agree _ (given (by decide))
  | isNumber => exact testArgument_agree _ (given (by decide))
  | isString => exact testArgument_agree _ (given (by decide))
  | isList => exact testArgument_agree _ (given (by decide))
  | isAtom => exact testArgument_agree _ (given (by decide))
  | isNull => exact testArgument_agree _ (given (by decide))
  | equal => exact runEqual_agree (given (by decide)) (given (by decide))
  | not => exact testArgument_agree _ (given (by decide))
  | and => exact runAnd_agree agree (listed [] rfl) each near
  | or => exact runOr_agree agree (listed [] rfl) each near
  | cons => exact runCons_agree (given (by decide)) (given (by decide))
  | car => exact takeApart_agree (fun own => (runs.unpack own).1) (given (by decide))
  | cdr => exact takeApart_agree (fun own => (runs.unpack own).2) (given (by decide))
  | list => exact runList_agree agree (listed [] rfl) each near
  | quote => exact argument_agree (given (by decide))
  | cond => exact runCond_agree agree (listed [] rfl) each fun _ _ => reach.clause within
  | setq => exact runSetq_agree (given (by decide)) (given (by decide))
  | defun =>
      exact runDefun_agree own (given (by decide)) (given (by decide)) (given (by decide))
  | lambda => exact runLambda_agree own (given (by decide)) (given (by decide))
  | funcall =>
      cases forms with
      | nil => exact absurd count (by decide)
      | cons first rest =>
          exact runFuncall_agree agree (given (by decide)) (listed [(.normal, "X")] rfl)
            (List.forall_mem_cons.mp each).2 (fun _ => reach.symbol within) (reach.rest within)
  | print => exact writeArgument_agree runs.shown _ (given (by decide))
  | princ => exact writeArgument_agree runs.princ _ (given (by decide))
  | terpri => exact (Runs.Agree.write _).bind fun _ _ => .pure runs.nil

end Builtin

end ConsLisp
