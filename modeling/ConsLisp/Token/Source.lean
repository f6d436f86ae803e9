import ConsLisp.Text.Utf8

/-!
# Sources

Where bytes come from.  A source delivers chunks one read at a time; a read may also be interrupted,
which is no more than a request to try again, or fail.  The first empty chunk ends a source for
good.
-/

namespace ConsLisp

/-- The result of one read. -/
inductive Chunk where
  | bytes (bytes : List UInt8)
  | interrupted
  | failure (reason : String)

/-- A chunk of text counts as its UTF-8 bytes. -/
def Chunk.ofText (text : String) : Chunk :=
  .bytes (Text.Utf8.encode text)

inductive Source where
  /-- A text held in memory, read as its UTF-8 bytes. -/
  | text (text : String)
  /-- Bytes held in memory. -/
  | bytes (bytes : List UInt8)
  /-- A stream that delivers these chunks, whatever size is asked for. -/
  | stream (chunks : List Chunk)
  /-- A stream of characters that delivers as many as are asked for. -/
  | characters (text : String)
  /-- A thing of the named kind, from which nothing can be read. -/
  | unreadable (kind : String)

namespace Source

/-- Cuts a list into blocks of a size, the last of which may be shorter; a size of zero asks for
everything at once. -/
def blocks {α : Type} (size : Nat) (items : List α) : List (List α) :=
  if items.length ≤ size || size = 0 then [items]
  else items.take size :: blocks size (items.drop size)
termination_by items.length
decreasing_by simp_all; omega

/-- The size of a read when nothing else is said. -/
def defaultBufferSize : Nat := 8192

/-- The size to read with when `asked` is asked for: zero stands for the default, and a negative
number for everything at once. -/
def bufferSize (asked : Int) : Nat :=
  if asked = 0 then defaultBufferSize else asked.toNat

/-- The reads that exhaust a source when `size` is asked for each time. -/
def reads (size : Nat) : Source → List Chunk
  | .text content => (blocks size (Text.Utf8.encode content)).map .bytes
  | .bytes content => (blocks size content).map .bytes
  | .stream chunks => chunks
  | .characters content =>
      (blocks size content.toList).map fun block => .ofText (String.ofList block)
  | .unreadable _ => []

/-- Whether a source held in memory is empty, so that there is nothing to run. -/
def isEmpty : Source → Bool
  | .text content => content.isEmpty
  | .bytes content => content.isEmpty
  | _ => false

end Source

end ConsLisp
