import ConsLisp.Proofs.Evaluation.Invariant
import ConsLisp.Proofs.Interpretation

/-!
# What was written before

Evaluation adds to the output and never looks at it.  So forms do the same after whatever was
written before them, and what they write comes after that.
-/

namespace ConsLisp

/-- Runs that find different texts written before them. -/
def Runs.afterText (limit : Nat) : Runs String where
  compared := Filter.principal Set.univ
  limit _ := limit
  view _ environment := environment
  output before text := before ++ text
  output_append _ _ _ := String.append_assoc.symm
  good _ := True
  valid _ := True
  allowed _ := True
  runtime _ _ := True.intro
  nil := True.intro
  truth := True.intro
  number _ := True.intro
  quoted _ := True.intro
  unpack _ := ⟨True.intro, True.intro⟩
  elements _ _ _ := True.intro
  cons _ _ := True.intro
  function _ _ _ _ _ := True.intro
  body _ := True.intro
  default _ _ _ := True.intro
  parameters := @Invariant.trivial.parameters
  shown _ := .const (.intro (fun _ _ => True.intro) fun _ _ => True.intro)
  equal _ _ := .const (.intro (fun _ _ => True.intro) fun _ _ => True.intro)
  parameterList _ _ _ := .const (.intro (fun _ found => ⟨limit, found⟩) fun _ _ => True.intro)
  lookup? _ _ := ⟨fun _ => rfl, fun _ _ => True.intro⟩
  defineGlobal _ _ _ := ⟨True.intro, fun _ => rfl⟩
  push _ _ := ⟨True.intro, fun _ => rfl⟩
  pop _ _ _ := ⟨True.intro, fun _ => rfl⟩

/-- A machine with a text before its output. -/
def Machine.after (before : String) (machine : Machine) : Machine :=
  { machine with output := before ++ machine.output }

theorem Machine.after_empty (machine : Machine) : machine.after "" = machine :=
  congrArg (Machine.mk machine.environment) String.empty_append

/-- A form does the same whatever was written before. -/
theorem evaluate_after (limit : Nat) (form : Value) (before : String) (machine : Machine) :
    (evaluate limit form).run (machine.after before) =
      (((evaluate limit form).run machine).1, ((evaluate limit form).run machine).2.after before) := by
  have agree : (Runs.afterText limit).Agree [] (fun _ => evaluate limit form) fun _ => True :=
    (Engine.withBudget_agree True.intro limit).evaluate True.intro True.intro
  obtain ⟨outcome, after, ran, _⟩ := agree machine True.intro
  have each (text : String) :
      (evaluate limit form).run (machine.after text) = (outcome, after.after text) :=
    Filter.eventually_principal.mp ran text (Set.mem_univ text)
  have plain := each ""
  rw [machine.after_empty, after.after_empty] at plain
  rw [each before, plain]

namespace Evaluates

variable {limit : Nat} {machine middle last : Machine} {forms others : List Value}
  {value final : Value}

theorem after (evaluates : Evaluates limit machine forms value last) (before : String) :
    Evaluates limit (machine.after before) forms value (last.after before) := by
  induction evaluates with
  | none => exact .none
  | next first ran ih => exact ih.next (by rw [evaluate_after, ran])

/-- No forms have the value NIL. -/
theorem eq_nil_of_isEmpty (evaluates : Evaluates limit machine forms value last)
    (empty : forms.isEmpty = true) : value = .nil := by
  cases evaluates with
  | none => rfl
  | next before ran => simp at empty

/-- Forms and more forms after them; the value is that of the latter unless there are none. -/
theorem append (first : Evaluates limit machine forms value middle)
    (second : Evaluates limit middle others final last) :
    Evaluates limit machine (forms ++ others) (if others.isEmpty then value else final) last := by
  induction second with
  | none => simpa using first
  | @next others form earlier final before last _ ran ih =>
      rw [← List.append_assoc]
      simpa using ih.next ran

end Evaluates

end ConsLisp
