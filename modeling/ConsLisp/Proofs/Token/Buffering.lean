import ConsLisp.Proofs.Token.Characters
import ConsLisp.Proofs.Token.Delivery

/-!
# Buffering is invisible

A stream may hand over its content in pieces of any size, as bytes or as text, and may be
interrupted before any of them and before its end; a source held in memory is read in blocks of any
size.  The tokens and errors are those of the whole content in one chunk.
-/

namespace ConsLisp

open Text.Utf8

/-- Reads that are interrupted any number of times before one of them succeeds. -/
structure Delivery where
  interruptions : Nat
  content : List UInt8 ⊕ String

namespace Delivery

/-- The bytes that are handed over. -/
def bytes (delivery : Delivery) : List UInt8 :=
  match delivery.content with
  | .inl bytes => bytes
  | .inr text => encode text

def reads (delivery : Delivery) : List Chunk :=
  List.replicate delivery.interruptions .interrupted ++
    match delivery.content with
    | .inl bytes => [.bytes bytes]
    | .inr text => [.ofText text]

theorem reads_eq (delivery : Delivery) :
    delivery.reads =
      List.replicate delivery.interruptions .interrupted ++ [.bytes delivery.bytes] := by
  unfold reads bytes
  cases delivery.content with
  | inl bytes => rfl
  | inr text => rfl

end Delivery

namespace Chunk

theorem Deliver.after_interruptions {reads : List Chunk} {bytes : List UInt8}
    (later : Deliver reads bytes) (interruptions : Nat) :
    Deliver (List.replicate interruptions .interrupted ++ reads) bytes := by
  induction interruptions with
  | zero => exact later
  | succ interruptions ih => exact .interrupted ih

/-- Pieces that are handed over one after the other deliver all their bytes. -/
theorem deliver_pieces {deliveries : List Delivery}
    (nonempty : ∀ delivery ∈ deliveries, delivery.bytes ≠ []) {reads : List Chunk}
    {bytes : List UInt8} (later : Deliver reads bytes) :
    Deliver (deliveries.flatMap Delivery.reads ++ reads)
      (deliveries.flatMap Delivery.bytes ++ bytes) := by
  induction deliveries with
  | nil => exact later
  | cons delivery deliveries ih =>
      have others := ih fun other member => nonempty other (List.mem_cons_of_mem delivery member)
      have first := Deliver.more (nonempty delivery List.mem_cons_self) others
      simp only [List.flatMap_cons, List.append_assoc, Delivery.reads_eq]
      exact first.after_interruptions delivery.interruptions

end Chunk

namespace Lexer

theorem delivers_characters (size : Nat) (text : String) :
    (ofSource size (.characters text)).Delivers (encode text) := by
  have nonempty : ∀ chars : List Char, chars ≠ [] → encodeList chars ≠ [] := by
    intro chars some none
    have empty := Scan.encodeList_isEmpty chars
    rw [none] at empty
    exact some (List.isEmpty_iff.mp empty.symm)
  have cut := Source.blocks_deliver encodeList nonempty encodeList_append size text.toList
  refine ⟨encode text, ?_, rfl⟩
  simp only [ofSource, Source.reads, Chunk.ofText, encode, String.toList_ofList]
  exact cut

end Lexer

end ConsLisp
