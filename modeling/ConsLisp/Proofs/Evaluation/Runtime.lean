import ConsLisp.Evaluation.Call
import ConsLisp.Proofs.Result

/-!
# Errors of a running program

Printing, comparing and reading a parameter list fail only with errors of the program that runs:
something cannot be evaluated, or a number cannot be represented.
-/

namespace ConsLisp

/-- Whether an error comes from the program that runs. -/
def Error.isRuntime : Error → Bool
  | .evaluation _ | .numeric _ => true
  | _ => false

/-- Something was nested too deeply. -/
def Error.IsTooDeep (cause : Error) : Prop :=
  ∃ activity, cause = .tooDeep activity

/-- A result, or an error of the program that runs. -/
def Runtime {α : Type} (outcome : Except Error α) : Prop :=
  ∀ cause, outcome = .error cause → cause.isRuntime = true

namespace Runtime

variable {α β : Type}

theorem ok (value : α) : Runtime (.ok value) :=
  fun _ impossible => by cases impossible

theorem error {cause : Error} (own : cause.isRuntime = true) :
    Runtime (.error cause : Except Error α) :=
  fun _ same => by cases same; exact own

theorem bind {first : Except Error α} {next : α → Except Error β} (runtime : Runtime first)
    (others : ∀ value, first = .ok value → Runtime (next value)) : Runtime (first >>= next) := by
  cases first with
  | error cause => exact error (runtime cause rfl)
  | ok value => exact others value rfl

theorem mapError {ε : Type} {change : ε → Error} (own : ∀ cause, (change cause).isRuntime = true)
    (outcome : Except ε α) : Runtime (outcome.mapError change) := by
  cases outcome with
  | error cause => exact error (own cause)
  | ok value => exact ok value

end Runtime

theorem PrintError.isRuntime_toError (cause : PrintError) : cause.toError.isRuntime = true := by
  cases cause <;> rfl

theorem ComparisonError.isRuntime_toError (cause : ComparisonError) :
    cause.toError.isRuntime = true := by
  cases cause <;> rfl

namespace Value

variable {α : Type}

theorem runtime_shown (limit : Nat) (value : Value) : Runtime (value.shown limit) :=
  .mapError PrintError.isRuntime_toError _

theorem runtime_refuse (limit : Nat) (cause : String → Mismatch) (value : Value) :
    Runtime (value.refuse limit cause : Except Error α) :=
  .bind (runtime_shown limit value) fun _ _ => .error rfl

theorem refuse_ne_ok (limit : Nat) (cause : String → Mismatch) (value : Value) (result : α) :
    (value.refuse limit cause : Except Error α) ≠ .ok result := by
  intro accepted
  obtain ⟨_, _, impossible⟩ := Result.bind_eq_ok_iff.mp accepted
  cases impossible

end Value

namespace Parameter

theorem runtime_nameOf (limit : Nat) (entry : Value) : Runtime (nameOf limit entry) := by
  unfold nameOf
  split
  · exact .ok _
  · exact Value.runtime_refuse limit _ entry

theorem runtime_optionalOf (limit : Nat) (entry : Value) : Runtime (optionalOf limit entry) := by
  unfold optionalOf
  split
  · exact .ok _
  · split
    · exact .bind (runtime_nameOf limit _) fun _ _ => .ok _
    · exact .bind (runtime_nameOf limit _) fun _ _ => .ok _
    · exact Value.runtime_refuse limit _ _
  · exact Value.runtime_refuse limit _ entry

theorem runtime_ofEntry (limit : Nat) (pending : Option Mode) (amongOptional : Bool)
    (entry : Value) : Runtime (ofEntry limit pending amongOptional entry) := by
  unfold ofEntry
  split
  · exact .bind (runtime_nameOf limit entry) fun _ _ => .ok _
  · split
    · exact runtime_optionalOf limit entry
    · exact .bind (runtime_nameOf limit entry) fun _ _ => .ok _

theorem runtime_ofEntries (limit : Nat) (form : Value) (pending : Option Mode)
    (amongOptional : Bool) (entries : List Value) :
    Runtime (ofEntries limit form pending amongOptional entries) := by
  fun_induction ofEntries limit form pending amongOptional entries with
  | case1 => exact .ok []
  | case2 => exact Value.runtime_refuse limit _ form
  | case3 => exact Value.runtime_refuse limit _ form
  | case4 _ _ _ _ ih => exact ih
  | case5 _ _ _ _ _ _ ih => exact ih
  | case6 amongOptional entry entries pending _ ih =>
      exact .bind (runtime_ofEntry limit pending amongOptional entry) fun _ _ =>
        .bind ih fun _ _ => .ok _

theorem runtime_ofForm (limit : Nat) (form : Value) : Runtime (ofForm limit form) := by
  unfold ofForm
  split
  · exact .ok []
  · refine .bind (runtime_ofEntries limit _ none false _) fun parameters _ => ?_
    split
    · exact .ok parameters
    · exact Value.runtime_refuse limit _ _
  · exact Value.runtime_refuse limit _ form

end Parameter

end ConsLisp
