import ConsLisp.Proofs.Session

/-!
# Errors evaluation can end in

In a session every function has a valid parameter list, wherever it occurs in a value.  So calls
always find the forms and arguments they need, and evaluation fails only with errors of the program
that runs.
-/

namespace ConsLisp

/-- Values in which every function has a valid parameter list. -/
inductive Value.Sound : Value → Prop where
  | nil : Sound .nil
  | truth : Sound .truth
  | integer (number : Int) : Sound (.integer number)
  | float (number : Float) : Sound (.float number)
  | string (text : String) : Sound (.string text)
  | symbol (name : String) : Sound (.symbol name)
  | quoted {value : Value} (inner : Sound value) : Sound (.quoted value)
  | list {items : List Value} {terminator : Value} (each : ∀ item ∈ items, Sound item)
      (last : Sound terminator) : Sound (.list items terminator)
  | builtin (operation : Builtin) : Sound (.callable (.builtin operation))
  | lambda {name : Option String} {parameters : List Parameter} {body : Value}
      (valid : Parameter.isValid parameters = true)
      (defaults : ∀ parameter ∈ parameters, Sound parameter.default) (inside : Sound body) :
      Sound (.callable (.lambda name parameters body))

namespace Value.Sound

theorem cons {head tail : Value} (first : Sound head) (rest : Sound tail) :
    Sound (.cons head tail) := by
  have pair : Sound (.list [head] tail) :=
    .list (fun item member => List.mem_singleton.mp member ▸ first) rest
  cases rest with
  | list each last =>
      refine .list ?_ last
      rintro item (_ | ⟨_, member⟩)
      · exact first
      · exact each item member
  | _ => exact pair

theorem unpack {items : List Value} {terminator : Value} (sound : Sound (.list items terminator)) :
    Sound (Value.unpack items terminator).1 ∧ Sound (Value.unpack items terminator).2 := by
  cases sound with
  | list each last =>
      match items, each with
      | [], _ => exact ⟨last, .nil⟩
      | [head], each => exact ⟨each head List.mem_cons_self, last⟩
      | head :: second :: others, each =>
          exact ⟨each head List.mem_cons_self,
            .list (fun item member => each item (List.mem_cons_of_mem head member)) last⟩

theorem elements {items : List Value} {terminator : Value}
    (sound : Sound (.list items terminator)) :
    ∀ element ∈ Value.elements items terminator, Sound element := by
  cases sound with
  | list each last =>
      intro element member
      unfold Value.elements at member
      split at member
      · exact each element member
      · rcases List.mem_append.mp member with inside | final
        · exact each element inside
        · exact List.mem_singleton.mp final ▸ last

end Value.Sound

/-- Soundness of all functions, with no errors but those of the program that runs. -/
def Invariant.sound : Invariant where
  valid := Value.Sound
  allowed cause := cause.isRuntime = true
  runtime own := own
  nil := .nil
  truth := .truth
  number
    | .integer number => .integer number
    | .float number => .float number
  symbol := .symbol
  builtin := .builtin
  quoted sound := by cases sound; assumption
  unpack := Value.Sound.unpack
  elements := Value.Sound.elements
  cons := Value.Sound.cons
  function := .lambda
  body sound := by cases sound; assumption
  default sound := by cases sound; assumption
  parameters sound := by cases sound; exact .inl ‹_›

theorem Form.closed_sound : Closed Value.Sound :=
  Invariant.sound.closed .string .quoted

/-- The frame of a builtin's call binds every name the builtin reads, whatever it was called
with. -/
theorem Engine.binds_of_bind {limit budget : Nat} {operation : Builtin} {forms : List Value}
    {machine : Machine} {frame : Frame}
    (bound : (((withBudget limit budget).bind .empty operation.parameters forms).run machine).1 =
      .ok frame) :
    ∀ parameter ∈ operation.parameters, frame.binds parameter.name = true := by
  -- Which names get bound does not depend on the values, so the trivial invariant will do.
  have kept : (Invariant.trivial.run limit).Agree []
      (fun _ => (withBudget limit budget).bind .empty operation.parameters forms)
      (Bound Invariant.trivial.valid .empty operation.parameters forms) :=
    bind_agree (withBudget_keeps Invariant.trivial limit budget) .empty (fun _ _ => True.intro)
      (fun _ _ => True.intro) (fun _ _ => True.intro) (.inr True.intro)
  have accepted := (kept.run machine.environment.all_trivial).2.2
  rw [bound] at accepted
  exact accepted.given (Parameter.isTail_of_isValid operation.isValid_parameters)

/-- In a session, a form read from any source evaluates to a value, or fails because it cannot be
evaluated or because a number cannot be represented.  No error of the reader, no unresolved name or
argument and no missing argument form is ever the outcome; and a builtin finds each of its
arguments in the frame of its own call. -/
theorem evaluate_fails_as_program {session : Session} (reachable : session.Reachable) {σ : Type}
    [TokenSource σ] {limit : Nat} {source rest : σ} {form : Value}
    (read : Form.read limit source = (.ok form, rest)) (output : String) :
    ((∃ value, ((evaluate session.limit form).run ⟨session.environment, output⟩).1 = .ok value) ∨
      (∃ cause, ((evaluate session.limit form).run ⟨session.environment, output⟩).1 =
        .error (.evaluation cause)) ∨
      ∃ cause, ((evaluate session.limit form).run ⟨session.environment, output⟩).1 =
        .error (.numeric cause)) ∧
    ∀ (budget : Nat) (operation : Builtin) (forms : List Value) (machine : Machine) (frame : Frame),
      (((Engine.withBudget session.limit budget).bind .empty operation.parameters forms).run
        machine).1 = .ok frame →
      ∀ parameter ∈ operation.parameters, frame.binds parameter.name = true := by
  refine ⟨?_, fun _ _ _ _ _ bound => Engine.binds_of_bind bound⟩
  have sound : Invariant.sound.valid form := Form.read_holds Form.closed_sound read
  have all : (Machine.mk session.environment output).environment.All Invariant.sound.valid :=
    reachable.all Form.closed_sound
  have accepted := ((evaluate_keeps Invariant.sound session.limit sound).run all).2.2
  cases outcome : ((evaluate session.limit form).run ⟨session.environment, output⟩).1 with
  | ok value => exact .inl ⟨value, rfl⟩
  | error cause =>
      rw [outcome] at accepted
      cases cause with
      | evaluation cause => exact .inr (.inl ⟨cause, rfl⟩)
      | numeric cause => exact .inr (.inr ⟨cause, rfl⟩)
      | _ => cases accepted

/-- A function was defined first; now `(car 1)` is read and evaluated. -/
theorem evaluate_fails_as_program_car :
    let session := (Session.eval {} (.text "(defun f (x &rest y) (car y))") true).session
    let form : Value := .list [.symbol "CAR", .integer 1] .nil
    Form.read 4 [Token.parenLeft, .symbol "car", .integer 1, .parenRight] = (.ok form, []) ∧
      ((∃ value, ((evaluate session.limit form).run ⟨session.environment, ""⟩).1 = .ok value) ∨
        (∃ cause, ((evaluate session.limit form).run ⟨session.environment, ""⟩).1 =
          .error (.evaluation cause)) ∨
        ∃ cause, ((evaluate session.limit form).run ⟨session.environment, ""⟩).1 =
          .error (.numeric cause)) := by
  intro session form
  have reachable : session.Reachable := .eval (.fresh defaultLimit _) _ true
  have name : Token.Denotes (.symbol "car") (.symbol "CAR") := .symbol (by decide) (by decide)
  have each : ∀ phrase ∈ [(⟨[.symbol "car"], .symbol "CAR"⟩ : Form.Phrase),
      ⟨[.integer 1], .integer 1⟩], Form.Derives 3 phrase.tokens phrase.form := by
    rintro phrase (_ | ⟨_, _ | ⟨_, ⟨⟩⟩⟩)
    · exact .atom name
    · exact .atom (.integer 1)
  have derived := Form.Derives.proper each (List.cons_ne_nil _ _) (by simp)
  have shown : ∃ text, form.display 4 = .ok text :=
    derived.prints 4 (by simp [Token.IsWritable, Number.lt_unwritable]) (Nat.le_refl 4)
  have read := Form.read_eq_ok_iff.mpr ⟨derived.readFrom_start [], shown⟩
  exact ⟨read, (evaluate_fails_as_program reachable read "").1⟩

end ConsLisp
