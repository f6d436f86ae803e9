import Mathlib.Logic.Function.Iterate
import ConsLisp.Proofs.Form.Concatenation
import ConsLisp.Proofs.Token.Supply

/-!
# Reading comes to an end

A lexer and a reader of forms can be asked again and again, also after an error.  Each answer that
is not the end uses up part of the source, so the end comes, and once it has come it is all that
there is.
-/

namespace ConsLisp

/-! ## Processes -/

section

variable {α σ : Type} (step : σ → α × σ) (ended : α → Prop)

/-- What a process has come to after so many steps. -/
def afterSteps (count : Nat) (state : σ) : σ :=
  (fun state => (step state).2)^[count] state

theorem afterSteps_succ (count : Nat) (state : σ) :
    afterSteps step (count + 1) state = afterSteps step count (step state).2 :=
  rfl

/-- An end that is followed by itself only is never left. -/
theorem ended_afterSteps
    (stays : ∀ state, ended (step state).1 → ended (step (step state).2).1) {state : σ}
    (reached : ended (step state).1) (count : Nat) :
    ended (step (afterSteps step count state)).1 := by
  induction count generalizing state with
  | zero => exact reached
  | succ count ih => exact ih (stays state reached)

/-- A process each step of which lessens a measure until it has ended does end. -/
theorem exists_last_step (measure : σ → Nat)
    (falls : ∀ state, ¬ ended (step state).1 → measure (step state).2 < measure state)
    (stays : ∀ state, ended (step state).1 → ended (step (step state).2).1) (state : σ) :
    ∃ count ≤ measure state,
      (∀ earlier < count, ¬ ended (step (afterSteps step earlier state)).1) ∧
      ∀ later ≥ count, ended (step (afterSteps step later state)).1 := by
  induction bound : measure state using Nat.strongRecOn generalizing state with
  | ind size ih =>
      by_cases reached : ended (step state).1
      · exact ⟨0, Nat.zero_le _, fun earlier before => absurd before (Nat.not_lt_zero _),
          fun later _ => ended_afterSteps step ended stays reached later⟩
      · have smaller := falls state reached
        obtain ⟨count, few, before, behind⟩ := ih _ (bound ▸ smaller) (step state).2 rfl
        refine ⟨count + 1, by omega, fun earlier less => ?_, fun later more => ?_⟩
        · cases earlier with
          | zero => exact reached
          | succ earlier => exact before earlier (Nat.lt_of_succ_lt_succ less)
        · obtain ⟨later, rfl⟩ := Nat.exists_eq_add_of_le' more
          exact behind (later + count) (Nat.le_add_left count later)

end

namespace Form

/-! ## Calls of the reader -/

section

variable {σ : Type} [TokenSource σ] {limit : Nat} {source : σ}

/-- Reading takes the steps of its source one after the other, and always one at least. -/
theorem readFrom_steps (limit : Nat) (reading : Reading) (source : σ) :
    ∃ steps, (readFrom limit reading source).2 =
      afterSteps TokenSource.next (steps + 1) source := by
  have once {found : Except LexicalError (Option Token)} {source rest : σ}
      (step : TokenSource.next source = (found, rest)) :
      rest = afterSteps TokenSource.next 1 source :=
    (congrArg Prod.snd step).symm
  fun_induction readFrom limit reading source with
  | case1 reading source cause rest step => exact ⟨0, once step⟩
  | case2 reading source rest step => exact ⟨0, once step⟩
  | case3 reading source token rest step => exact ⟨0, once step⟩
  | case4 reading source token rest step => exact ⟨0, once step⟩
  | case5 reading source token rest step => exact ⟨0, once step⟩
  | case6 reading source token rest step next fed within ih =>
      obtain ⟨steps, same⟩ := ih
      refine ⟨steps + 1, ?_⟩
      rw [same, afterSteps_succ TokenSource.next (steps + 1) source, step]

/-- Printing a form takes nothing from the source. -/
theorem read_snd (limit : Nat) (source : σ) :
    (read limit source).2 = (readFrom limit .start source).2 := by
  unfold read
  split
  next step => rw [step]
  next step => rw [step]

theorem read_steps (limit : Nat) (source : σ) :
    ∃ steps, (read limit source).2 = afterSteps TokenSource.next (steps + 1) source := by
  rw [read_snd]
  exact readFrom_steps limit .start source

/-- Where the source gives neither a token nor an error, the input counts as empty. -/
theorem read_of_ended (ended : (TokenSource.next source).1 = .ok none) :
    read limit source = (.error (.parse .emptyInput), (TokenSource.next source).2) := by
  have step : TokenSource.next source = (.ok none, (TokenSource.next source).2) :=
    Prod.ext ended rfl
  rw [read, readFrom, step]
  rfl

theorem read_eq_emptyInput_iff :
    (read limit source).1 = .error (.parse .emptyInput) ↔
      (TokenSource.next source).1 = .ok none := by
  constructor
  · intro empty
    exact next_of_emptyInput (Prod.ext empty rfl)
  · intro ended
    rw [read_of_ended ended]

end

end Form

namespace TokenStream

variable {limit : Nat}

theorem afterSteps_ofSource (lexer : Lexer) (steps : Nat) :
    afterSteps TokenSource.next steps (ofSource lexer) =
      ofSource (afterSteps Lexer.next steps lexer) := by
  induction steps generalizing lexer with
  | zero => rfl
  | succ steps ih => exact ih lexer.next.2

/-- A call takes steps of the lexer.  One token may have been taken in advance; if there is none,
the call takes a step at least. -/
theorem read_lexer_steps (limit : Nat) (stream : TokenStream Lexer) :
    ∃ steps, (Form.read limit stream).2 = ofSource (afterSteps Lexer.next steps stream.source) ∧
      (stream.peeked = none → 0 < steps) := by
  obtain ⟨steps, same⟩ := Form.read_steps limit stream
  obtain ⟨peeked, lexer⟩ := stream
  cases peeked with
  | some token => exact ⟨steps, same.trans (afterSteps_ofSource lexer steps), nofun⟩
  | none =>
      exact ⟨steps + 1, same.trans (afterSteps_ofSource lexer (steps + 1)),
        fun _ => Nat.succ_pos steps⟩

/-- A stream that has ended is at its end for good. -/
theorem read_read_of_emptyInput {stream : TokenStream Lexer}
    (empty : (Form.read limit stream).1 = .error (.parse .emptyInput)) :
    (Form.read limit (Form.read limit stream).2).1 = .error (.parse .emptyInput) := by
  have ended := Form.read_eq_emptyInput_iff.mp empty
  rw [Form.read_of_ended ended, Form.read_eq_emptyInput_iff]
  obtain ⟨peeked, lexer⟩ := stream
  cases peeked with
  | some token => cases ended
  | none => exact Lexer.next_next_of_ended ended

/-- Calls one after the other come to where the input is empty. -/
theorem exists_emptyInput (limit : Nat) (stream : TokenStream Lexer) :
    ∃ calls,
      (∀ earlier < calls, (Form.read limit (afterSteps (Form.read limit) earlier stream)).1 ≠
        .error (.parse .emptyInput)) ∧
      ∀ later ≥ calls, (Form.read limit (afterSteps (Form.read limit) later stream)).1 =
        .error (.parse .emptyInput) := by
  obtain ⟨calls, -, before, behind⟩ := exists_last_step (Form.read limit)
    (· = .error (.parse .emptyInput)) (fun stream : TokenStream Lexer => stream.remaining)
    (Form.read_lt limit) (fun _ => read_read_of_emptyInput) stream
  exact ⟨calls, before, behind⟩

end TokenStream

/-- There are at most as many steps with a token or an error as there are bytes and failing
reads. -/
theorem Lexer.exists_end (lexer : Lexer) :
    ∃ steps ≤ lexer.parts.length,
      (∀ earlier < steps, (afterSteps next earlier lexer).next.1 ≠ .ok none) ∧
      ∀ later ≥ steps, (afterSteps next later lexer).next.1 = .ok none := by
  refine exists_last_step next (· = .ok none) (fun lexer => lexer.parts.length)
    (fun lexer given => ?_) (fun _ => next_next_of_ended) lexer
  obtain ⟨used, same, some⟩ := lexer.next_parts
  have positive := List.length_pos_iff.mpr (some given)
  rw [same, List.length_append]
  omega

/-- Reading always makes progress.  Each step of a lexer that gives a token or an error takes at
least one byte or one failing read from the front of what is before it.  So there are at most as
many such steps as there are bytes and failing reads, and after them a lexer gives nothing any
more.  Each call of the reader that does not find the input empty takes a step that gives a token or
an error, if none was taken in advance.  So calls past all errors come to where the input is empty,
and from then on it stays so. -/
theorem reading_comes_to_end (limit : Nat) :
    (∀ lexer : Lexer, lexer.next.1 ≠ .ok none →
      ∃ used, used ≠ [] ∧ lexer.parts = used ++ lexer.next.2.parts) ∧
    (∀ lexer : Lexer, ∃ steps ≤ lexer.parts.length,
      (∀ earlier < steps, (afterSteps Lexer.next earlier lexer).next.1 ≠ .ok none) ∧
      ∀ later ≥ steps, (afterSteps Lexer.next later lexer).next.1 = .ok none) ∧
    (∀ stream : TokenStream Lexer, (Form.read limit stream).1 ≠ .error (.parse .emptyInput) →
      ∃ steps,
        (Form.read limit stream).2 = .ofSource (afterSteps Lexer.next steps stream.source) ∧
        (stream.peeked = none → 0 < steps ∧ stream.source.next.1 ≠ .ok none)) ∧
    ∀ stream : TokenStream Lexer, ∃ calls,
      (∀ earlier < calls, (Form.read limit (afterSteps (Form.read limit) earlier stream)).1 ≠
        .error (.parse .emptyInput)) ∧
      ∀ later ≥ calls, (Form.read limit (afterSteps (Form.read limit) later stream)).1 =
        .error (.parse .emptyInput) := by
  refine ⟨fun lexer given => ?_, Lexer.exists_end, fun stream given => ?_,
    TokenStream.exists_emptyInput limit⟩
  · obtain ⟨used, same, some⟩ := lexer.next_parts
    exact ⟨used, some given, same⟩
  · obtain ⟨steps, same, some⟩ := stream.read_lexer_steps limit
    refine ⟨steps, same, fun fresh => ⟨some fresh, fun ended => given ?_⟩⟩
    obtain ⟨peeked, lexer⟩ := stream
    cases fresh
    exact Form.read_eq_emptyInput_iff.mpr ended

/-- A read fails inside the word `1-`, and a parenthesis that closes nothing comes after it. -/
theorem reading_comes_to_end_after_failure :
    let lexer := Lexer.ofSource 1
      (.stream [.ofText "1-", .failure "broken pipe", .interrupted, .ofText ")"])
    lexer.next.1 ≠ .ok none ∧
      (Form.read 9 (TokenStream.ofSource lexer)).1 ≠ .error (.parse .emptyInput) ∧
      (∃ used, used ≠ [] ∧ lexer.parts = used ++ lexer.next.2.parts) ∧
      (∃ steps, 0 < steps ∧ (Form.read 9 (TokenStream.ofSource lexer)).2 =
        .ofSource (afterSteps Lexer.next steps lexer)) ∧
      lexer.parts.length = 4 ∧ (afterSteps Lexer.next 4 lexer).next.1 = .ok none := by
  intro lexer
  obtain ⟨uses, ends, takes, -⟩ := reading_comes_to_end 9
  have given : lexer.next.1 ≠ .ok none := by
    have failed : lexer.next.1 = .error (.readFailure "broken pipe") := rfl
    simp [failed]
  have notEmpty : (Form.read 9 (TokenStream.ofSource lexer)).1 ≠ .error (.parse .emptyInput) :=
    fun empty => given (Form.read_eq_emptyInput_iff.mp empty)
  obtain ⟨steps, same, fresh⟩ := takes (.ofSource lexer) notEmpty
  have count : lexer.parts.length = 4 := rfl
  obtain ⟨last, few, -, behind⟩ := ends lexer
  exact ⟨given, notEmpty, uses lexer given, ⟨steps, (fresh rfl).1, same⟩, count,
    behind 4 (count ▸ few)⟩

end ConsLisp
