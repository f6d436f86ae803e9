import ConsLisp.Token.Lexer

/-!
# A lexer makes progress

Every step of a lexer that gives a token or an error uses up at least one byte or one failing
read.
-/

namespace ConsLisp

namespace Scan

variable {α : Type}

/-- One when the scan has taken a symbol that its lexeme will hold. -/
def weight (scan : Scan α) : Nat :=
  match scan.mode with
  | .string _ => 1
  | .code | .comment => if scan.pending.isEmpty then 0 else 1

theorem weight_le_one (scan : Scan α) : scan.weight ≤ 1 := by
  unfold weight
  split <;> (try split) <;> omega

/-- A symbol left for the next lexeme ends one that holds a symbol already. -/
theorem weight_of_leave {scan : Scan α} {role : Role} {symbol : α} {lexeme : Lexeme α}
    (left : scan.step role symbol = .leave lexeme) : scan.weight = 1 := by
  unfold weight
  cases mode : scan.mode with
  | string alone => rfl
  | comment =>
      simp only [step, mode] at left
      grind
  | code =>
      cases pending : scan.pending with
      | cons first others => rfl
      | nil =>
          simp only [step, mode, stepCode, pending, List.isEmpty_nil, if_true] at left
          cases role <;> grind

theorem length_of_found {role : α → Role} {scan : Scan α} {symbols rest : List α}
    {lexeme : Lexeme α} (found : scan.run role symbols = .found lexeme rest) :
    rest.length + 1 ≤ symbols.length + scan.weight := by
  induction symbols generalizing scan with
  | nil => simp [run] at found
  | cons symbol symbols ih =>
      rw [run] at found
      split at found
      next after stepped =>
          have bound := ih found
          have weights := after.weight_le_one
          simp only [List.length_cons]
          omega
      next stepped =>
          cases found
          simp only [List.length_cons]
          omega
      next stepped =>
          cases found
          have weights := weight_of_leave stepped
          omega

theorem weight_of_unfinished {role : α → Role} {scan next : Scan α} {symbols : List α}
    (unfinished : scan.run role symbols = .unfinished next) :
    next.weight ≤ symbols.length + scan.weight := by
  induction symbols generalizing scan with
  | nil =>
      cases unfinished
      exact Nat.le_add_left _ _
  | cons symbol symbols ih =>
      rw [run] at unfinished
      split at unfinished
      next after stepped =>
          have bound := ih unfinished
          have weights := after.weight_le_one
          simp only [List.length_cons]
          omega
      next => cases unfinished
      next => cases unfinished

theorem weight_of_ending {scan : Scan α} (some : scan.ending ≠ .nothing) : scan.weight = 1 := by
  unfold ending weight at *
  cases mode : scan.mode <;> simp_all

end Scan

/-- What a read still has to give: its bytes, or one failure. -/
def Chunk.size : Chunk → Nat
  | .bytes content => content.length
  | .interrupted => 0
  | .failure _ => 1

def Chunk.total : List Chunk → Nat
  | [] => 0
  | chunk :: reads => chunk.size + total reads

namespace Lexer

/-- The bytes and failing reads a lexer has not used up. -/
def remaining (lexer : Lexer) : Nat :=
  lexer.buffer.length + Chunk.total lexer.reads

theorem weight_of_ending {scan : Scan UInt8} (given : ending scan ≠ .ok none) :
    scan.weight = 1 := by
  apply Scan.weight_of_ending
  intro nothing
  simp [ending, nothing] at given

theorem refill_remaining (scan : Scan UInt8) (reads : List Chunk)
    (given : (refill scan reads).1 ≠ .ok none) :
    (refill scan reads).2.remaining + 1 ≤ Chunk.total reads + scan.weight := by
  induction reads generalizing scan with
  | nil =>
      have weights := weight_of_ending given
      simp [refill, remaining, weights]
  | cons chunk reads ih =>
      cases chunk with
      | interrupted =>
          rw [refill] at given ⊢
          have bound := ih scan given
          simp only [Chunk.total, Chunk.size]
          omega
      | failure reason =>
          simp only [refill, remaining, Chunk.total, Chunk.size, List.length_nil]
          omega
      | bytes bytes =>
          simp only [Chunk.total, Chunk.size]
          by_cases empty : bytes.isEmpty
          · rw [refill, if_pos empty] at given ⊢
            have weights := weight_of_ending given
            simp only [remaining, List.length_nil, Chunk.total]
            omega
          · rw [refill, if_neg empty] at given ⊢
            split
            next found =>
                have bound := Scan.length_of_found found
                simp only [remaining]
                omega
            next next unfinished =>
                simp only [unfinished] at given
                have weights := Scan.weight_of_unfinished unfinished
                have bound := ih next given
                omega

/-- A step that gives a token or an error leaves less than there was. -/
theorem next_remaining (lexer : Lexer) (given : lexer.next.1 ≠ .ok none) :
    lexer.next.2.remaining < lexer.remaining := by
  unfold next at *
  have fresh : (Scan.start : Scan UInt8).weight = 0 := rfl
  split
  next found =>
      have bound := Scan.length_of_found found
      simp only [remaining]
      omega
  next scan unfinished =>
      simp only [unfinished] at given
      have weights := Scan.weight_of_unfinished unfinished
      have bound := refill_remaining scan lexer.reads given
      simp only [remaining] at *
      omega

theorem refill_finished (scan : Scan UInt8) (reads : List Chunk)
    (finished : (refill scan reads).1 = .ok none) : (refill scan reads).2.remaining = 0 := by
  fun_induction refill scan reads with
  | case1 => rfl
  | case2 scan reads ih => exact ih finished
  | case3 => cases finished
  | case4 => rfl
  | case5 scan bytes reads nonempty lexeme rest =>
      cases given : Token.ofLexeme lexeme <;> simp [given, Except.map] at finished
  | case6 scan bytes reads nonempty next unfinished ih => exact ih finished

/-- A lexer that has found the end has nothing left. -/
theorem next_finished (lexer : Lexer) (finished : lexer.next.1 = .ok none) :
    lexer.next.2.remaining = 0 := by
  unfold next at *
  split
  next lexeme rest found =>
      simp only [found] at finished
      cases given : Token.ofLexeme lexeme <;> simp [given, Except.map] at finished
  next scan unfinished =>
      simp only [unfinished] at finished
      exact refill_finished scan lexer.reads finished

end Lexer

end ConsLisp
