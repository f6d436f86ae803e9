import ConsLisp.Token.Scan

/-!
# Laws of scanning

A scan goes on where it stopped, and symbols without a role of their own are taken all alike.
-/

namespace ConsLisp.Scan

variable {α : Type} {role : α → Role}

/-- Goes on with more symbols from wherever a scan has come. -/
def Progress.resume (role : α → Role) (more : List α) : Progress α → Progress α
  | .unfinished scan => run role scan more
  | .found lexeme rest => .found lexeme (rest ++ more)

theorem run_append (scan : Scan α) (symbols more : List α) :
    run role scan (symbols ++ more) = (run role scan symbols).resume role more := by
  induction symbols generalizing scan with
  | nil => rfl
  | cons symbol symbols ih =>
      rw [List.cons_append, run, run]
      cases scan.step (role symbol) symbol with
      | more next => exact ih next
      | take lexeme => rfl
      | leave lexeme => rfl

/-- Takes symbols that have no role, which a comment skips. -/
def receive (scan : Scan α) (symbols : List α) : Scan α :=
  match scan.mode with
  | .comment => scan
  | .code | .string _ =>
      { scan with
        pending := symbols.reverse ++ scan.pending
        escaping := scan.escaping && symbols.isEmpty }

theorem step_ordinary (scan : Scan α) (symbol : α) :
    scan.step .ordinary symbol = .more (scan.receive [symbol]) := by
  obtain ⟨mode, pending, escaping, escaped⟩ := scan
  cases mode <;> cases escaping <;> rfl

theorem receive_nil (scan : Scan α) : scan.receive [] = scan := by
  obtain ⟨mode, pending, escaping, escaped⟩ := scan
  cases mode <;> cases escaping <;> rfl

theorem receive_receive (scan : Scan α) (symbols more : List α) :
    (scan.receive symbols).receive more = scan.receive (symbols ++ more) := by
  obtain ⟨mode, pending, escaping, escaped⟩ := scan
  have none : (symbols.isEmpty && more.isEmpty) = (symbols ++ more).isEmpty := by
    cases symbols <;> rfl
  cases mode with
  | comment => rfl
  | code => simp [receive, Bool.and_assoc, none]
  | string alone => simp [receive, Bool.and_assoc, none]

theorem run_receive {symbols : List α} (plain : ∀ symbol ∈ symbols, role symbol = .ordinary)
    (scan : Scan α) (rest : List α) :
    run role scan (symbols ++ rest) = run role (scan.receive symbols) rest := by
  induction symbols generalizing scan with
  | nil => rw [receive_nil, List.nil_append]
  | cons symbol symbols ih =>
      have later := ih (fun other member => plain other (List.mem_cons_of_mem symbol member))
        (scan.receive [symbol])
      rw [List.cons_append, run, plain symbol List.mem_cons_self, step_ordinary]
      rw [receive_receive] at later
      exact later

/-- A scan is inside a string because it was before or because the symbol opens one. -/
theorem mode_of_more {scan next : Scan α} {role : Role} {symbol : α} {alone : Bool}
    (stepped : scan.step role symbol = .more next) (inside : next.mode = .string alone) :
    (scan.mode = .string alone ∧
        (next.pending = scan.pending ∨ next.pending = symbol :: scan.pending)) ∨
      (role = .doubleQuote ∧ alone = scan.pending.isEmpty ∧
        next.pending = symbol :: scan.pending) := by
  obtain ⟨mode, pending, escaping, escaped⟩ := scan
  cases mode with
  | comment =>
      simp only [step] at stepped
      grind
  | code =>
      simp only [step, stepCode, push] at stepped
      cases role <;> grind
  | string outer =>
      simp only [step, push] at stepped
      grind

end ConsLisp.Scan

namespace ConsLisp

/-! ## How much of the source a lexeme holds -/

/-- The number of symbols in a word or string. -/
def Lexeme.length {α : Type} : Lexeme α → Nat
  | .parenLeft | .parenRight | .tick => 0
  | .string content => content.length
  | .escapedWord symbols => symbols.length
  | .word symbols => symbols.length

namespace Scan

variable {α : Type} {role : α → Role}

/-- A scan that has taken so many symbols holds at most these, and fewer after a semicolon or a
backslash. -/
structure Within (scan : Scan α) (taken : Nat) : Prop where
  length_le : scan.pending.length ≤ taken
  length_lt : scan.mode = .comment ∨ scan.escaping = true → scan.pending.length < taken

theorem within_start : Within (start : Scan α) 0 :=
  ⟨Nat.le_refl 0, by rintro (impossible | impossible) <;> cases impossible⟩

theorem pendingWord_length (scan : Scan α) : scan.pendingWord.length = scan.pending.length := by
  unfold pendingWord
  cases scan.escaped <;> simp [Lexeme.length]

section

variable {scan next : Scan α} {own : Role} {symbol : α} {lexeme : Lexeme α}

/-- A scan that goes on has kept the symbol or skipped it. -/
theorem pending_of_more (stepped : scan.step own symbol = .more next) :
    (next.pending = symbol :: scan.pending ∧ next.mode ≠ .comment ∧ next.escaping = false) ∨
      next.pending = scan.pending := by
  obtain ⟨mode, pending, escaping, escaped⟩ := scan
  cases mode with
  | comment =>
      simp only [step] at stepped
      grind
  | code =>
      simp only [step, stepCode, push] at stepped
      cases own <;> grind
  | string alone =>
      simp only [step, push] at stepped
      grind

theorem closed_length_le (scan : Scan α) (alone : Bool) :
    (scan.closed alone).length ≤ scan.pending.length := by
  cases alone with
  | false => exact Nat.le_of_eq scan.pendingWord_length
  | true =>
      simp only [closed, if_true, Lexeme.length, List.length_dropLast, List.length_drop,
        List.length_reverse]
      omega

theorem length_of_take (stepped : scan.step own symbol = .take lexeme) :
    lexeme.length ≤ scan.pending.length + 1 := by
  have word := pendingWord_length scan
  have closed := closed_length_le (scan.push symbol)
  unfold step at stepped
  cases mode : scan.mode with
  | comment => grind
  | code =>
      simp only [mode, stepCode] at stepped
      cases own <;> grind [Lexeme.length]
  | string alone => grind [push]

theorem length_of_leave (stepped : scan.step own symbol = .leave lexeme) :
    lexeme.length = scan.pending.length := by
  rw [← pendingWord_length]
  unfold step at stepped
  cases mode : scan.mode with
  | comment => grind
  | code =>
      simp only [mode, stepCode] at stepped
      cases own <;> grind
  | string alone => grind

end

namespace Within

variable {scan next : Scan α} {taken : Nat} {own : Role} {symbol : α} {lexeme : Lexeme α}

theorem more (within : scan.Within taken) (stepped : scan.step own symbol = .more next) :
    next.Within (taken + 1) := by
  have le := within.length_le
  rcases pending_of_more stepped with ⟨kept, outside, plain⟩ | skipped
  · refine ⟨by simpa [kept] using le, ?_⟩
    rintro (comment | escaping)
    · exact absurd comment outside
    · rw [plain] at escaping
      cases escaping
  · have lt : next.pending.length < taken + 1 := by
      rw [skipped]
      omega
    exact ⟨Nat.le_of_lt lt, fun _ => lt⟩

theorem found (within : scan.Within taken) {symbols rest : List α}
    (finished : run role scan symbols = .found lexeme rest) :
    lexeme.length + rest.length ≤ taken + symbols.length := by
  induction symbols generalizing scan taken with
  | nil => cases finished
  | cons symbol symbols ih =>
      rw [run] at finished
      rw [List.length_cons]
      split at finished
      next next stepped =>
          have bound := ih (within.more stepped) finished
          omega
      next stepped =>
          cases finished
          have bound := length_of_take stepped
          have le := within.length_le
          omega
      next stepped =>
          cases finished
          have bound := length_of_leave stepped
          have le := within.length_le
          rw [List.length_cons]
          omega

theorem unfinished (within : scan.Within taken) {symbols : List α}
    (goesOn : run role scan symbols = .unfinished next) : next.Within (taken + symbols.length) := by
  induction symbols generalizing scan taken with
  | nil =>
      cases goesOn
      exact within
  | cons symbol symbols ih =>
      rw [run] at goesOn
      split at goesOn
      next after stepped =>
          have later := ih (within.more stepped) goesOn
          rwa [List.length_cons, Nat.add_comm symbols.length, ← Nat.add_assoc]
      next => cases goesOn
      next => cases goesOn

end Within

end Scan

end ConsLisp
