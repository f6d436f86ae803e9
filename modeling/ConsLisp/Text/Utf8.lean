/-!
# Texts as bytes

UTF-8 encoding, and a decoder that never fails: every maximal run of bytes that starts a character
without completing it, and every byte that can start none, becomes one replacement character.
-/

namespace ConsLisp.Text.Utf8

def encode (text : String) : List UInt8 :=
  text.toList.flatMap String.utf8EncodeChar

/-- What stands for bytes that are no character. -/
def replacement : Char := '�'

/-- A character under construction: the bytes still owed, the bounds of the next one, and the bits
collected so far. -/
structure Pending where
  owed : Nat
  low : Nat
  high : Nat
  bits : Nat

/-- What a byte can be when no character is under construction. -/
inductive Opening where
  | whole (char : Char)
  | partly (pending : Pending)
  | malformed

/-- The role of a byte between characters.  The bounds of the second byte rule out overlong forms,
surrogates and code points past the last one. -/
def opening (byte : Nat) : Opening :=
  if byte < 0x80 then .whole (Char.ofNat byte)
  else if byte < 0xC2 then .malformed
  else if byte < 0xE0 then .partly ⟨1, 0x80, 0xBF, byte - 0xC0⟩
  else if byte = 0xE0 then .partly ⟨2, 0xA0, 0xBF, 0⟩
  else if byte = 0xED then .partly ⟨2, 0x80, 0x9F, 0xD⟩
  else if byte < 0xF0 then .partly ⟨2, 0x80, 0xBF, byte - 0xE0⟩
  else if byte = 0xF0 then .partly ⟨3, 0x90, 0xBF, 0⟩
  else if byte < 0xF4 then .partly ⟨3, 0x80, 0xBF, byte - 0xF0⟩
  else if byte = 0xF4 then .partly ⟨3, 0x80, 0x8F, 4⟩
  else .malformed

/-- Takes one more byte into a character under construction, if it may follow. -/
def Pending.extend? (pending : Pending) (byte : Nat) : Option Opening :=
  if pending.low ≤ byte && byte ≤ pending.high then
    let bits := pending.bits * 0x40 + (byte - 0x80)
    if pending.owed ≤ 1 then some (.whole (Char.ofNat bits))
    else some (.partly ⟨pending.owed - 1, 0x80, 0xBF, bits⟩)
  else none

/-- Decodes bytes after those of a character under construction, if there is one. -/
def decodeFrom : Option Pending → List UInt8 → List Char
  | none, [] => []
  | some _, [] => [replacement]
  | none, byte :: rest =>
      match opening byte.toNat with
      | .whole char => char :: decodeFrom none rest
      | .partly next => decodeFrom (some next) rest
      | .malformed => replacement :: decodeFrom none rest
  | some pending, byte :: rest =>
      match pending.extend? byte.toNat with
      | some (.whole char) => char :: decodeFrom none rest
      | some (.partly next) => decodeFrom (some next) rest
      | some .malformed => replacement :: decodeFrom none rest
      | none =>
          match opening byte.toNat with
          | .whole char => replacement :: char :: decodeFrom none rest
          | .partly next => replacement :: decodeFrom (some next) rest
          | .malformed => replacement :: replacement :: decodeFrom none rest

def decode (bytes : List UInt8) : String :=
  String.ofList (decodeFrom none bytes)

end ConsLisp.Text.Utf8
