import ConsLisp.Proofs.Text.Utf8
import ConsLisp.Proofs.Token.Scan

/-!
# Scanning bytes and characters

All roles but the ordinary one belong to characters of a single byte.  Scanning the bytes of a text
therefore does what scanning its characters does, and no lexeme begins or ends inside a character.
-/

namespace ConsLisp

open Text.Utf8

theorem Role.ofByte_of_ascii {char : Char} (ascii : char.toNat < 0x80) :
    Role.ofByte (UInt8.ofNat char.toNat) = Role.ofChar char := by
  rw [ofByte, ofChar, toNat_ofNat_of_lt (Nat.lt_trans ascii (by decide))]

theorem Role.ofCode_of_le {code : Nat} (beyond : 0x80 ≤ code) : Role.ofCode code = .ordinary := by
  unfold ofCode
  have apart : ∀ small < 0x80, code ≠ small := fun small bound same => by omega
  simp [apart]

theorem Role.ofByte_of_mem_encodeChar {char : Char} (beyond : 0x80 ≤ char.toNat) :
    ∀ byte ∈ String.utf8EncodeChar char, Role.ofByte byte = .ordinary :=
  fun byte member => ofCode_of_le (le_of_mem_encodeChar beyond byte member)

theorem Role.eq_of_ofChar_doubleQuote {char : Char} (quotes : Role.ofChar char = .doubleQuote) :
    char = '"' := by
  have code : char.toNat = 0x22 := by
    simp only [ofChar, ofCode] at quotes
    grind
  exact Char.toNat_inj.mp code

theorem Role.eq_of_ofChar_backslash {char : Char} (escapes : Role.ofChar char = .backslash) :
    char = '\\' := by
  have code : char.toNat = 0x5C := by
    simp only [ofChar, ofCode] at escapes
    grind
  exact Char.toNat_inj.mp code

/-- The same lexeme in bytes. -/
def Lexeme.encode : Lexeme Char → Lexeme UInt8
  | .parenLeft => .parenLeft
  | .parenRight => .parenRight
  | .tick => .tick
  | .string content => .string (encodeList content)
  | .escapedWord chars => .escapedWord (encodeList chars)
  | .word chars => .word (encodeList chars)

namespace Scan

/-- The same scan in bytes. -/
def encode (scan : Scan Char) : Scan UInt8 :=
  { mode := scan.mode
    pending := (encodeList scan.pending.reverse).reverse
    escaping := scan.escaping
    escaped := scan.escaped }

def Step.encode : Step Char → Step UInt8
  | .more scan => .more scan.encode
  | .take lexeme => .take lexeme.encode
  | .leave lexeme => .leave lexeme.encode

def Progress.encode : Progress Char → Progress UInt8
  | .unfinished scan => .unfinished scan.encode
  | .found lexeme rest => .found lexeme.encode (encodeList rest)

/-- What is pending inside a string that is a token of its own begins with its quote. -/
def Quoted (scan : Scan Char) : Prop :=
  scan.mode = .string true → ∃ content, scan.pending.reverse = '"' :: content

theorem quoted_start : Quoted start := by
  intro impossible
  cases impossible

theorem encodeList_isEmpty (chars : List Char) : (encodeList chars).isEmpty = chars.isEmpty := by
  cases chars with
  | nil => rfl
  | cons char chars =>
      rw [encodeList_cons]
      cases encoded : String.utf8EncodeChar char with
      | nil => exact absurd encoded String.utf8EncodeChar_ne_nil
      | cons byte bytes => rfl

theorem encode_pending_isEmpty (scan : Scan Char) :
    scan.encode.pending.isEmpty = scan.pending.isEmpty := by
  simp [encode, encodeList_isEmpty]

theorem encode_push {char : Char} (ascii : char.toNat < 0x80) (scan : Scan Char) :
    (scan.push char).encode = scan.encode.push (UInt8.ofNat char.toNat) := by
  simp [encode, push, encodeList_cons_of_ascii ascii]

theorem encode_pendingWord (scan : Scan Char) :
    scan.encode.pendingWord = scan.pendingWord.encode := by
  obtain ⟨mode, pending, escaping, escaped⟩ := scan
  cases escaped <;> simp [pendingWord, encode, Lexeme.encode]

theorem encode_receive (scan : Scan Char) (char : Char) :
    (scan.receive [char]).encode = scan.encode.receive (String.utf8EncodeChar char) := by
  obtain ⟨mode, pending, escaping, escaped⟩ := scan
  have nonempty := String.utf8EncodeChar_ne_nil (c := char)
  cases mode <;> simp [receive, encode, nonempty, encodeList_cons]

theorem stepCode_encode {char : Char} (ascii : char.toNat < 0x80) (scan : Scan Char) (role : Role) :
    scan.encode.stepCode role (UInt8.ofNat char.toNat) = (scan.stepCode role char).encode := by
  have pushed := encode_push ascii scan
  unfold stepCode
  rw [encode_pending_isEmpty, encode_pendingWord, ← pushed]
  cases role <;> cases scan.pending.isEmpty <;> rfl

/-- The quotes around a string are dropped in bytes as in characters. -/
theorem closed_encode {char : Char} (ascii : char.toNat < 0x80) {scan : Scan Char} {alone : Bool}
    (quoted : Quoted scan) (inside : scan.mode = .string alone) :
    (scan.encode.push (UInt8.ofNat char.toNat)).closed alone =
      ((scan.push char).closed alone).encode := by
  rw [← encode_push ascii]
  cases alone with
  | false => exact encode_pendingWord (scan.push char)
  | true =>
      obtain ⟨content, same⟩ := quoted inside
      have opened := encodeList_cons_of_ascii (show '"'.toNat < 0x80 by decide)
      have ended := encodeList_cons_of_ascii ascii []
      simp [closed, encode, push, same, Lexeme.encode, opened, ended]

theorem step_encode {char : Char} (ascii : char.toNat < 0x80) {scan : Scan Char}
    (quoted : Quoted scan) (role : Role) :
    scan.encode.step role (UInt8.ofNat char.toNat) = (scan.step role char).encode := by
  have pushed := encode_push ascii scan
  have empty := encode_pending_isEmpty scan
  have sameMode : scan.encode.mode = scan.mode := rfl
  have sameEscaping : scan.encode.escaping = scan.escaping := rfl
  unfold step
  rw [sameMode, sameEscaping, empty, encode_pendingWord, ← pushed, stepCode_encode ascii]
  cases mode : scan.mode with
  | comment =>
      by_cases ends : role = .newline <;> cases scan.pending.isEmpty <;> simp [ends, Step.encode]
      rfl
  | code =>
      cases scan.escaping <;> by_cases escapes : role = .backslash <;> simp [escapes, Step.encode]
      all_goals rfl
  | string alone =>
      have done := closed_encode ascii quoted mode
      rw [← pushed] at done
      cases scan.escaping <;> by_cases escapes : role = .backslash <;>
        by_cases closes : role = .doubleQuote <;> simp [escapes, closes, Step.encode, done]
      all_goals rfl

theorem quoted_of_more {scan next : Scan Char} {char : Char} (quoted : Quoted scan)
    (stepped : scan.step (Role.ofChar char) char = .more next) : Quoted next := by
  intro inside
  rcases mode_of_more stepped inside with ⟨same, kept | pushed⟩ | ⟨opens, fresh, pushed⟩
  · rw [kept]
    exact quoted same
  · obtain ⟨content, begun⟩ := quoted same
    exact ⟨content ++ [char], by simp [pushed, begun]⟩
  · have empty := List.isEmpty_iff.mp fresh.symm
    exact ⟨[], by simp [pushed, empty, Role.eq_of_ofChar_doubleQuote opens]⟩

theorem run_encode {scan : Scan Char} (quoted : Quoted scan) (chars : List Char) :
    run Role.ofByte scan.encode (encodeList chars) = (run Role.ofChar scan chars).encode := by
  induction chars generalizing scan with
  | nil => rfl
  | cons char chars ih =>
      rw [run]
      by_cases ascii : char.toNat < 0x80
      · rw [encodeList_cons_of_ascii ascii, run, Role.ofByte_of_ascii ascii,
          step_encode ascii quoted]
        cases stepped : scan.step (Role.ofChar char) char with
        | more next => exact ih (quoted_of_more quoted stepped)
        | take lexeme => rfl
        | leave lexeme => simp [Step.encode, Progress.encode, encodeList_cons_of_ascii ascii]
      -- The bytes of such a character are all ordinary and are taken in one go.
      · have plain : Role.ofChar char = .ordinary := Role.ofCode_of_le (Nat.le_of_not_lt ascii)
        have stepped := step_ordinary scan char
        have still := quoted_of_more quoted (plain.symm ▸ stepped)
        rw [encodeList_cons, run_receive (Role.ofByte_of_mem_encodeChar (Nat.le_of_not_lt ascii)),
          ← encode_receive, plain, stepped]
        exact ih still

end Scan

end ConsLisp
