import ConsLisp.Text.Utf8

/-!
# Encoding and decoding

Decoding undoes encoding.  A character below 128 is one byte of the same code, and every byte of
any other character is at least 128.
-/

namespace ConsLisp.Text.Utf8

/-- The bytes of characters. -/
def encodeList (chars : List Char) : List UInt8 :=
  chars.flatMap String.utf8EncodeChar

@[simp] theorem encodeList_nil : encodeList [] = [] := rfl

theorem encodeList_cons (char : Char) (chars : List Char) :
    encodeList (char :: chars) = String.utf8EncodeChar char ++ encodeList chars := rfl

@[simp] theorem encodeList_append (first second : List Char) :
    encodeList (first ++ second) = encodeList first ++ encodeList second :=
  List.flatMap_append

theorem encodeChar_of_ascii {char : Char} (ascii : char.toNat < 0x80) :
    String.utf8EncodeChar char = [UInt8.ofNat char.toNat] :=
  if_pos (Nat.le_of_lt_succ ascii)

theorem encodeList_cons_of_ascii {char : Char} (ascii : char.toNat < 0x80) (chars : List Char) :
    encodeList (char :: chars) = UInt8.ofNat char.toNat :: encodeList chars := by
  rw [encodeList_cons, encodeChar_of_ascii ascii, List.singleton_append]

theorem encodeChar_two {char : Char} (low : 0x80 ≤ char.toNat) (high : char.toNat ≤ 0x7FF) :
    String.utf8EncodeChar char =
      [UInt8.ofNat (char.toNat / 0x40 + 0xC0), UInt8.ofNat (char.toNat % 0x40 + 0x80)] := by
  have code : char.val.toNat = char.toNat := rfl
  have lead : char.toNat / 64 % 32 = char.toNat / 64 := by omega
  simp only [String.utf8EncodeChar, code]
  rw [if_neg (by omega), if_pos high, lead]

theorem encodeChar_three {char : Char} (low : 0x800 ≤ char.toNat) (high : char.toNat ≤ 0xFFFF) :
    String.utf8EncodeChar char =
      [UInt8.ofNat (char.toNat / 0x1000 + 0xE0), UInt8.ofNat (char.toNat / 0x40 % 0x40 + 0x80),
        UInt8.ofNat (char.toNat % 0x40 + 0x80)] := by
  have code : char.val.toNat = char.toNat := rfl
  have lead : char.toNat / 4096 % 16 = char.toNat / 4096 := by omega
  simp only [String.utf8EncodeChar, code]
  rw [if_neg (by omega), if_neg (by omega), if_pos high, lead]

theorem isValidChar_toNat (char : Char) : char.toNat.isValidChar :=
  char.valid

theorem encodeChar_four {char : Char} (low : 0x10000 ≤ char.toNat) :
    String.utf8EncodeChar char =
      [UInt8.ofNat (char.toNat / 0x40000 + 0xF0), UInt8.ofNat (char.toNat / 0x1000 % 0x40 + 0x80),
        UInt8.ofNat (char.toNat / 0x40 % 0x40 + 0x80), UInt8.ofNat (char.toNat % 0x40 + 0x80)] := by
  have code : char.val.toNat = char.toNat := rfl
  have valid := isValidChar_toNat char
  unfold Nat.isValidChar at valid
  have lead : char.toNat / 262144 % 8 = char.toNat / 262144 := by omega
  simp only [String.utf8EncodeChar, code]
  rw [if_neg (by omega), if_neg (by omega), if_neg (by omega), lead]

theorem toNat_ofNat_of_lt {code : Nat} (small : code < 256) : (UInt8.ofNat code).toNat = code := by
  rw [UInt8.toNat_ofNat']
  exact Nat.mod_eq_of_lt small

/-- Bytes of characters below 128 are those characters one by one. -/
theorem map_ofNat_encodeList {chars : List Char} (ascii : ∀ char ∈ chars, char.toNat < 0x80) :
    (encodeList chars).map (fun byte => Char.ofNat byte.toNat) = chars := by
  induction chars with
  | nil => rfl
  | cons char chars ih =>
      have small := ascii char List.mem_cons_self
      rw [encodeList_cons_of_ascii small, List.map_cons, toNat_ofNat_of_lt (by omega),
        Char.ofNat_toNat, ih fun other member => ascii other (List.mem_cons_of_mem char member)]

theorem le_of_mem_encodeChar {char : Char} (beyond : 0x80 ≤ char.toNat) :
    ∀ byte ∈ String.utf8EncodeChar char, 0x80 ≤ byte.toNat := by
  have valid := isValidChar_toNat char
  unfold Nat.isValidChar at valid
  intro byte member
  by_cases two : char.toNat ≤ 0x7FF
  · rw [encodeChar_two beyond two] at member
    simp only [List.mem_cons, List.not_mem_nil, or_false] at member
    rcases member with rfl | rfl <;> rw [toNat_ofNat_of_lt (by omega)] <;> omega
  by_cases three : char.toNat ≤ 0xFFFF
  · rw [encodeChar_three (by omega) three] at member
    simp only [List.mem_cons, List.not_mem_nil, or_false] at member
    rcases member with rfl | rfl | rfl <;> rw [toNat_ofNat_of_lt (by omega)] <;> omega
  · rw [encodeChar_four (by omega)] at member
    simp only [List.mem_cons, List.not_mem_nil, or_false] at member
    rcases member with rfl | rfl | rfl | rfl <;> rw [toNat_ofNat_of_lt (by omega)] <;> omega

/-! ## Decoding one character -/

theorem decodeFrom_opening {byte : UInt8} {pending : Pending}
    (opens : opening byte.toNat = .partly pending) (rest : List UInt8) :
    decodeFrom none (byte :: rest) = decodeFrom (some pending) rest := by
  rw [decodeFrom, opens]

/-- A byte within bounds adds six bits to a character that is owed more bytes after it. -/
theorem decodeFrom_tail {owed low high bits code : Nat} (above : low ≤ 0x80 + code)
    (below : 0x80 + code ≤ high) (small : code < 0x40) (rest : List UInt8) :
    decodeFrom (some ⟨owed + 2, low, high, bits⟩) (UInt8.ofNat (code + 0x80) :: rest) =
      decodeFrom (some ⟨owed + 1, 0x80, 0xBF, bits * 0x40 + code⟩) rest := by
  have byte : (UInt8.ofNat (code + 0x80)).toNat = 0x80 + code := by
    rw [toNat_ofNat_of_lt (by omega), Nat.add_comm]
  rw [decodeFrom, byte, Pending.extend?]
  simp [above, below]

/-- The last byte owed completes a character. -/
theorem decodeFrom_last {low high bits code : Nat} (above : low ≤ 0x80 + code)
    (below : 0x80 + code ≤ high) (small : code < 0x40) (rest : List UInt8) :
    decodeFrom (some ⟨1, low, high, bits⟩) (UInt8.ofNat (code + 0x80) :: rest) =
      Char.ofNat (bits * 0x40 + code) :: decodeFrom none rest := by
  have byte : (UInt8.ofNat (code + 0x80)).toNat = 0x80 + code := by
    rw [toNat_ofNat_of_lt (by omega), Nat.add_comm]
  rw [decodeFrom, byte, Pending.extend?]
  simp [above, below]

theorem opening_two {lead : Nat} (low : 2 ≤ lead) (high : lead < 0x20) :
    opening (lead + 0xC0) = .partly ⟨1, 0x80, 0xBF, lead⟩ := by
  unfold opening
  rw [if_neg (by omega), if_neg (by omega), if_pos (by omega), Nat.add_sub_cancel]

/-- The bounds after the first of three bytes admit every second byte of a character. -/
theorem opening_three {code : Nat} (low : 0x800 ≤ code) (high : code ≤ 0xFFFF)
    (valid : code.isValidChar) :
    ∃ least most, opening (code / 0x1000 + 0xE0) = .partly ⟨2, least, most, code / 0x1000⟩ ∧
      least ≤ 0x80 + code / 0x40 % 0x40 ∧ 0x80 + code / 0x40 % 0x40 ≤ most := by
  unfold Nat.isValidChar at valid
  unfold opening
  rw [if_neg (by omega), if_neg (by omega), if_neg (by omega)]
  by_cases first : code / 0x1000 = 0
  · rw [if_pos (by omega), first]
    exact ⟨_, _, rfl, by omega, by omega⟩
  · rw [if_neg (by omega)]
    by_cases surrogates : code / 0x1000 = 0xD
    · rw [if_pos (by omega), surrogates]
      exact ⟨_, _, rfl, by omega, by omega⟩
    · rw [if_neg (by omega), if_pos (by omega), Nat.add_sub_cancel]
      exact ⟨_, _, rfl, by omega, by omega⟩

/-- The bounds after the first of four bytes admit every second byte of a character. -/
theorem opening_four {code : Nat} (low : 0x10000 ≤ code) (valid : code.isValidChar) :
    ∃ least most, opening (code / 0x40000 + 0xF0) = .partly ⟨3, least, most, code / 0x40000⟩ ∧
      least ≤ 0x80 + code / 0x1000 % 0x40 ∧ 0x80 + code / 0x1000 % 0x40 ≤ most := by
  unfold Nat.isValidChar at valid
  unfold opening
  rw [if_neg (by omega), if_neg (by omega), if_neg (by omega), if_neg (by omega),
    if_neg (by omega), if_neg (by omega)]
  by_cases first : code / 0x40000 = 0
  · rw [if_pos (by omega), first]
    exact ⟨_, _, rfl, by omega, by omega⟩
  · rw [if_neg (by omega)]
    by_cases last : code / 0x40000 = 4
    · rw [if_neg (by omega), if_pos (by omega), last]
      exact ⟨_, _, rfl, by omega, by omega⟩
    · rw [if_pos (by omega), Nat.add_sub_cancel]
      exact ⟨_, _, rfl, by omega, by omega⟩

/-- Decoding gives back the character at the front. -/
theorem decodeFrom_encodeChar (char : Char) (rest : List UInt8) :
    decodeFrom none (String.utf8EncodeChar char ++ rest) = char :: decodeFrom none rest := by
  have valid := isValidChar_toNat char
  have same : Char.ofNat char.toNat = char := Char.ofNat_toNat char
  have small := valid
  unfold Nat.isValidChar at small
  by_cases one : char.toNat < 0x80
  · rw [encodeChar_of_ascii one, List.singleton_append, decodeFrom, toNat_ofNat_of_lt (by omega),
      opening, if_pos one, same]
  by_cases two : char.toNat ≤ 0x7FF
  · have opens := opening_two (show 2 ≤ char.toNat / 0x40 by omega) (by omega)
    rw [← toNat_ofNat_of_lt (show char.toNat / 0x40 + 0xC0 < 256 by omega)] at opens
    rw [encodeChar_two (by omega) two, List.cons_append, decodeFrom_opening opens,
      List.singleton_append, decodeFrom_last (by omega) (by omega) (by omega), Nat.div_add_mod',
      same]
  by_cases three : char.toNat ≤ 0xFFFF
  · obtain ⟨least, most, opens, above, below⟩ := opening_three (by omega) three valid
    have bits : char.toNat / 0x1000 * 0x40 + char.toNat / 0x40 % 0x40 = char.toNat / 0x40 := by
      omega
    rw [← toNat_ofNat_of_lt (show char.toNat / 0x1000 + 0xE0 < 256 by omega)] at opens
    rw [encodeChar_three (by omega) three, List.cons_append, decodeFrom_opening opens,
      List.cons_append, decodeFrom_tail above below (by omega), bits, List.singleton_append,
      decodeFrom_last (by omega) (by omega) (by omega), Nat.div_add_mod', same]
  · obtain ⟨least, most, opens, above, below⟩ := opening_four (by omega) valid
    have lead : char.toNat / 0x40000 * 0x40 + char.toNat / 0x1000 % 0x40 = char.toNat / 0x1000 := by
      omega
    have bits : char.toNat / 0x1000 * 0x40 + char.toNat / 0x40 % 0x40 = char.toNat / 0x40 := by
      omega
    rw [← toNat_ofNat_of_lt (show char.toNat / 0x40000 + 0xF0 < 256 by omega)] at opens
    rw [encodeChar_four (by omega), List.cons_append, decodeFrom_opening opens,
      List.cons_append, decodeFrom_tail above below (by omega), lead, List.cons_append,
      decodeFrom_tail (by omega) (by omega) (by omega), bits, List.singleton_append,
      decodeFrom_last (by omega) (by omega) (by omega), Nat.div_add_mod', same]

theorem decodeFrom_encodeList (chars : List Char) (rest : List UInt8) :
    decodeFrom none (encodeList chars ++ rest) = chars ++ decodeFrom none rest := by
  induction chars with
  | nil => rfl
  | cons char chars ih =>
      rw [encodeList_cons, List.append_assoc, decodeFrom_encodeChar, ih, List.cons_append]

theorem decode_encodeList (chars : List Char) :
    decode (encodeList chars) = String.ofList chars := by
  have decoded := decodeFrom_encodeList chars []
  simp only [List.append_nil, decodeFrom] at decoded
  rw [decode, decoded]

end ConsLisp.Text.Utf8
