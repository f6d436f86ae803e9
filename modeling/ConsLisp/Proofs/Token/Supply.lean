import ConsLisp.Token.Progress

/-!
# What a lexer uses up

A lexer takes bytes and failing reads in the order in which its source has them and never goes back.
Whatever it gives, a token or an error, it has taken at least one of them for.
-/

namespace ConsLisp

namespace Chunk

/-- A byte, or a read that fails. -/
inductive Part where
  | byte (byte : UInt8)
  | failure (reason : String)

/-- The bytes and failing reads that can be come to, in order.  Nothing is behind an empty chunk. -/
def parts : List Chunk → List Part
  | [] => []
  | .interrupted :: reads => parts reads
  | .failure reason :: reads => .failure reason :: parts reads
  | .bytes content :: reads => if content.isEmpty then [] else content.map .byte ++ parts reads

end Chunk

theorem Scan.exists_used_of_found {α : Type} {role : α → Role} {scan : Scan α}
    {symbols rest : List α} {lexeme : Lexeme α}
    (found : scan.run role symbols = .found lexeme rest) : ∃ used, symbols = used ++ rest := by
  induction symbols generalizing scan with
  | nil => cases found
  | cons symbol symbols ih =>
      rw [run] at found
      split at found
      next after stepped =>
          obtain ⟨used, rfl⟩ := ih found
          exact ⟨symbol :: used, rfl⟩
      next =>
          cases found
          exact ⟨[symbol], rfl⟩
      next =>
          cases found
          exact ⟨[], rfl⟩

namespace Lexer

/-- The bytes and failing reads that are still before a lexer. -/
def parts (lexer : Lexer) : List Chunk.Part :=
  lexer.buffer.map .byte ++ Chunk.parts lexer.reads

/-- A scan that is gone on with takes something, unless what it has taken before is enough. -/
theorem refill_parts (scan : Scan UInt8) (reads : List Chunk) :
    ∃ used, Chunk.parts reads = used ++ (refill scan reads).2.parts ∧
      ((refill scan reads).1 ≠ .ok none → 0 < used.length + scan.weight) := by
  fun_induction refill scan reads with
  | case1 scan =>
      refine ⟨[], rfl, fun given => ?_⟩
      rw [weight_of_ending given]
      exact Nat.one_pos
  | case2 scan reads ih => exact ih
  | case3 scan reason reads =>
      exact ⟨[.failure reason], rfl, fun _ => Nat.add_pos_left Nat.one_pos _⟩
  | case4 scan bytes reads empty =>
      refine ⟨[], if_pos empty, fun given => ?_⟩
      rw [weight_of_ending given]
      exact Nat.one_pos
  | case5 scan bytes reads nonempty lexeme rest found =>
      obtain ⟨used, rfl⟩ := Scan.exists_used_of_found found
      have bound := Scan.length_of_found found
      refine ⟨used.map .byte, ?_, fun _ => ?_⟩
      · rw [Chunk.parts, if_neg nonempty, List.map_append, List.append_assoc]
        rfl
      · rw [List.length_append] at bound
        rw [List.length_map]
        omega
  | case6 scan bytes reads nonempty next unfinished ih =>
      obtain ⟨used, same, -⟩ := ih
      refine ⟨bytes.map .byte ++ used, ?_, fun _ => ?_⟩
      · rw [Chunk.parts, if_neg nonempty, List.append_assoc, same]
      · have some : bytes.length ≠ 0 := by simpa using nonempty
        rw [List.length_append, List.length_map]
        omega

/-- A step takes bytes and failing reads from the front, and at least one if it gives a token or an
error. -/
theorem next_parts (lexer : Lexer) :
    ∃ used, lexer.parts = used ++ lexer.next.2.parts ∧ (lexer.next.1 ≠ .ok none → used ≠ []) := by
  have fresh : (Scan.start : Scan UInt8).weight = 0 := rfl
  unfold next
  split
  next lexeme rest found =>
      obtain ⟨used, same⟩ := Scan.exists_used_of_found found
      have bound := Scan.length_of_found found
      refine ⟨used.map .byte, ?_, fun _ none => ?_⟩
      · rw [parts, same, List.map_append, List.append_assoc]
        rfl
      · rw [List.map_eq_nil_iff.mp none] at same
        rw [same, List.nil_append] at bound
        omega
  next scan unfinished =>
      obtain ⟨used, same, some⟩ := refill_parts scan lexer.reads
      have weights := Scan.weight_of_unfinished unfinished
      refine ⟨lexer.buffer.map .byte ++ used, ?_, fun given none => ?_⟩
      · rw [parts, same, List.append_assoc]
      · have bound := some given
        have empty := congrArg List.length none
        rw [List.length_append, List.length_map, List.length_nil] at empty
        omega

/-- A lexer that has found the end finds it again. -/
theorem next_next_of_ended {lexer : Lexer} (ended : lexer.next.1 = .ok none) :
    lexer.next.2.next.1 = .ok none := by
  refine Classical.byContradiction fun given => ?_
  have progress := lexer.next.2.next_remaining given
  have nothing := lexer.next_finished ended
  omega

end Lexer

end ConsLisp
