import ConsLisp.Form.Stream
import ConsLisp.Proofs.Token.Delivery

/-!
# Sources that give the same tokens

The reader knows a source only by its steps: related sources whose steps give the same and lead to
related sources are read alike.  A lexer without errors is thus read like the sequence of its
tokens.
-/

namespace ConsLisp

section

variable {α σ τ : Type}

/-- The same result, and sources that are still related. -/
def Agree (related : σ → τ → Prop) (first : α × σ) (second : α × τ) : Prop :=
  first.1 = second.1 ∧ related first.2 second.2

theorem Agree.of_eq {related : σ → τ → Prop} {first : α × σ} {second : α × τ}
    (agree : Agree related first second) {result : α} {rest : σ} (given : first = (result, rest)) :
    ∃ remains, second = (result, remains) ∧ related rest remains := by
  subst given
  exact ⟨second.2, Prod.ext agree.1.symm rfl, agree.2⟩

variable [TokenSource σ] [TokenSource τ] {related : σ → τ → Prop}

/-- Related sources give the same at every step. -/
def Alike (related : σ → τ → Prop) : Prop :=
  ∀ {source : σ} {other : τ}, related source other →
    Agree related (TokenSource.next source) (TokenSource.next other)

namespace Form

theorem readFrom_alike (alike : Alike related) (limit : Nat) (reading : Reading) {source : σ}
    {other : τ} (same : related source other) :
    Agree related (readFrom limit reading source) (readFrom limit reading other) := by
  fun_induction readFrom limit reading source generalizing other with
  | case1 reading source cause rest step =>
      obtain ⟨remains, stepped, still⟩ := (alike same).of_eq step
      rw [readFrom, stepped]
      exact ⟨rfl, still⟩
  | case2 reading source rest step =>
      obtain ⟨remains, stepped, still⟩ := (alike same).of_eq step
      rw [readFrom, stepped]
      exact ⟨rfl, still⟩
  | case3 reading source token rest step cause refused =>
      obtain ⟨remains, stepped, still⟩ := (alike same).of_eq step
      rw [readFrom, stepped]
      simp only [refused]
      exact ⟨rfl, still⟩
  | case4 reading source token rest step value finished =>
      obtain ⟨remains, stepped, still⟩ := (alike same).of_eq step
      rw [readFrom, stepped]
      simp only [finished]
      exact ⟨rfl, still⟩
  | case5 reading source token rest step next fed deep =>
      obtain ⟨remains, stepped, still⟩ := (alike same).of_eq step
      rw [readFrom, stepped]
      simp only [fed, if_pos deep]
      exact ⟨rfl, still⟩
  | case6 reading source token rest step next fed within ih =>
      obtain ⟨remains, stepped, still⟩ := (alike same).of_eq step
      have goesOn : readFrom limit reading other = readFrom limit next remains := by
        rw [readFrom, stepped]
        simp only [fed, if_neg within]
      rw [goesOn]
      exact ih still

theorem read_alike (alike : Alike related) (limit : Nat) {source : σ} {other : τ}
    (same : related source other) : Agree related (read limit source) (read limit other) := by
  obtain ⟨equal, still⟩ := readFrom_alike alike limit .start same
  unfold read
  revert equal still
  rcases readFrom limit .start source with ⟨result, rest⟩
  rcases readFrom limit .start other with ⟨again, remains⟩
  rintro rfl still
  cases result with
  | ok value => exact ⟨rfl, still⟩
  | error cause => exact ⟨rfl, still⟩

theorem readAll_ok {limit : Nat} {source rest : σ} {value : Value}
    (step : read limit source = (.ok value, rest)) :
    readAll limit source =
      ((readAll limit rest).1.map (value :: ·), (readAll limit rest).2) := by
  rw [readAll, step]

theorem readAll_end {limit : Nat} {source rest : σ}
    (step : read limit source = (.error (.parse .emptyInput), rest)) :
    readAll limit source = (.ok [], rest) := by
  rw [readAll, step]

theorem readAll_error {limit : Nat} {source rest : σ} {cause : Error}
    (step : read limit source = (.error cause, rest)) (notEnd : cause ≠ .parse .emptyInput) :
    readAll limit source = (.error cause, rest) := by
  rw [readAll, step]
  split
  next impossible => cases impossible
  next ended => cases ended; exact absurd rfl notEnd
  next same => cases same; rfl

theorem readAll_alike (alike : Alike related) (limit : Nat) {source : σ} {other : τ}
    (same : related source other) : Agree related (readAll limit source) (readAll limit other) := by
  induction source using @readAll.induct σ inferInstance limit generalizing other with
  | case1 source value rest step ih =>
      obtain ⟨remains, stepped, still⟩ := (read_alike alike limit same).of_eq step
      obtain ⟨equal, after⟩ := ih still
      rw [readAll_ok step, readAll_ok stepped]
      exact ⟨congrArg (Except.map (value :: ·)) equal, after⟩
  | case2 source rest step =>
      obtain ⟨remains, stepped, still⟩ := (read_alike alike limit same).of_eq step
      rw [readAll_end step, readAll_end stepped]
      exact ⟨rfl, still⟩
  | case3 source cause rest notEnd step =>
      obtain ⟨remains, stepped, still⟩ := (read_alike alike limit same).of_eq step
      rw [readAll_error step notEnd, readAll_error stepped notEnd]
      exact ⟨rfl, still⟩

end Form

end

namespace Lexer

/-- A lexer without errors is read like the sequence of its tokens. -/
theorem alike_outcomes :
    Alike fun (lexer : Lexer) (tokens : List Token) => lexer.outcomes = tokens.map .ok := by
  intro lexer tokens same
  show Agree _ lexer.next (TokenSource.next tokens)
  cases step : lexer.next with
  | mk result rest =>
      rcases result with cause | found
      · rw [outcomes_error step] at same
        cases tokens <;> simp at same
      rcases found with none | token
      · rw [outcomes_end step] at same
        obtain rfl := List.map_eq_nil_iff.mp same.symm
        have finished := lexer.next_finished
        rw [step] at finished
        exact ⟨rfl, outcomes_of_remaining_zero (finished rfl)⟩
      · rw [outcomes_token step] at same
        cases tokens with
        | nil => simp at same
        | cons first others =>
            simp only [List.map_cons, List.cons.injEq, Except.ok.injEq] at same
            obtain ⟨rfl, later⟩ := same
            exact ⟨rfl, later⟩

end Lexer

end ConsLisp
