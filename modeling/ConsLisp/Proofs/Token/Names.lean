import ConsLisp.Proofs.Text.Uppercase
import ConsLisp.Proofs.Token.WholeCharacters

/-!
# Names

A symbol is written by its folded name, which is read back as the symbol if it is a single token
where it stands alone.  Every name that a source without backslashes gives is such a token, since
the characters of a word are scanned alone as they were in the source, and folding changes no
punctuation.
-/

namespace ConsLisp

open Text

/-- The name is a single token where it stands alone. -/
def Token.IsName (name : String) : Prop :=
  (Lexer.ofText name).outcomes = [.ok (.symbol name)]

theorem Token.isName_iff {name : String} :
    IsName name ↔ Alphabet.characters.lex name.toList = [.ok (.symbol name)] := by
  rw [IsName, Lexer.ofText, Lexer.outcomes_text]

/-! ## Folding and punctuation -/

theorem Role.ofCode_of_letter {code : Nat} (above : 0x41 ≤ code) (other : code ≠ 0x5C) :
    ofCode code = .ordinary := by
  have apart : ∀ small, small < 0x41 → code ≠ small := fun small less => by omega
  simp [ofCode, apart, other]

namespace Text.Uppercase

/-- Only letters move, and they move to letters. -/
theorem ofChar_roles (char : Char) :
    ofChar char = [char] ∨ Role.ofChar char = .ordinary ∧ Token.isNumeric char = false ∧
      ∀ image ∈ ofChar char, Role.ofChar image = .ordinary ∧ Token.isNumeric image = false := by
  have letter {char : Char} (above : 0x41 ≤ char.toNat) (other : char.toNat ≠ 0x5C) :
      Role.ofChar char = .ordinary ∧ Token.isNumeric char = false := by
    refine ⟨Role.ofCode_of_letter above other, ?_⟩
    cases numeric : Token.isNumeric char with
    | false => rfl
    | true =>
        have bound := (Token.code_of_isNumeric numeric).2
        omega
  rcases ofChar_cases char with ⟨above, _, targets⟩ | same
  · obtain ⟨ordinary, notNumeric⟩ := @letter char (by omega) (by omega)
    refine .inr ⟨ordinary, notNumeric, fun image member => ?_⟩
    obtain ⟨_, high, other⟩ := of_mem_targets (targets image member)
    exact letter high other
  · exact .inl same

theorem ofChar_of_role {char : Char} (special : Role.ofChar char ≠ .ordinary) :
    ofChar char = [char] :=
  (ofChar_roles char).resolve_right fun moves => special moves.1

theorem role_of_mem_ofChar {char image : Char} (ordinary : Role.ofChar char = .ordinary)
    (member : image ∈ ofChar char) : Role.ofChar image = .ordinary := by
  rcases ofChar_roles char with same | ⟨_, _, images⟩
  · rw [same] at member
    rw [List.mem_singleton.mp member, ordinary]
  · exact (images image member).1

end Text.Uppercase

/-! ## Scanning a word once more -/

namespace Scan

/-- The scan of what is pending alone, once it is folded.  Comments leave no trace. -/
def folded (scan : Scan Char) : Scan Char where
  mode := if scan.mode = .comment then .code else scan.mode
  pending := (scan.pending.reverse.flatMap Uppercase.ofChar).reverse

/-- Nothing was escaped, and what is pending leads to the same scan when it stands alone and is
folded. -/
structure Repeats (scan : Scan Char) : Prop where
  plain : scan.escaping = false
  unescaped : scan.escaped = false
  again : start.run Role.ofChar (scan.pending.reverse.flatMap Uppercase.ofChar) =
    .unfinished scan.folded

theorem repeats_start : (start : Scan Char).Repeats :=
  ⟨rfl, rfl, rfl⟩

@[simp] theorem folded_pending_isEmpty (scan : Scan Char) :
    scan.folded.pending.isEmpty = scan.pending.isEmpty := by
  cases pending : scan.pending with
  | nil => simp [folded, pending]
  | cons char chars => simp [folded, pending, Uppercase.ofChar_ne_nil]

variable {scan next : Scan Char} {char : Char}

theorem Repeats.run_append (repeats : scan.Repeats) (more : List Char) :
    start.run Role.ofChar (scan.pending.reverse.flatMap Uppercase.ofChar ++ more) =
      run Role.ofChar scan.folded more := by
  rw [Scan.run_append, repeats.again]
  rfl

/-- One more character is pending. -/
theorem Repeats.push (repeats : scan.Repeats) (plain : next.escaping = false)
    (unescaped : next.escaped = false) (pending : next.pending = char :: scan.pending)
    (stepped : run Role.ofChar scan.folded (Uppercase.ofChar char) = .unfinished next.folded) :
    next.Repeats := by
  refine ⟨plain, unescaped, ?_⟩
  rw [pending, List.reverse_cons, List.flatMap_append, List.flatMap_singleton, repeats.run_append,
    stepped]

/-- Nothing more is pending. -/
theorem Repeats.skip (repeats : scan.Repeats) (plain : next.escaping = false)
    (unescaped : next.escaped = false) (same : next.folded = scan.folded)
    (pending : next.pending = scan.pending) : next.Repeats :=
  ⟨plain, unescaped, by rw [pending, same, repeats.again]⟩

/-- A character that is no punctuation is taken, also when it is folded. -/
theorem run_ordinary (ordinary : Role.ofChar char = .ordinary) (outside : scan.mode ≠ .comment) :
    run Role.ofChar scan.folded (Uppercase.ofChar char) = .unfinished (scan.push char).folded := by
  have received := run_receive (fun image => @Uppercase.role_of_mem_ofChar char image ordinary)
    scan.folded []
  rw [List.append_nil] at received
  rw [received]
  cases mode : scan.mode with
  | comment => exact absurd mode outside
  | _ => simp [run, receive, folded, Scan.push, mode]

/-- Punctuation is not changed by folding. -/
theorem run_special (special : Role.ofChar char ≠ .ordinary)
    (stepped : scan.folded.step (Role.ofChar char) char = .more next) :
    run Role.ofChar scan.folded (Uppercase.ofChar char) = .unfinished next := by
  rw [Uppercase.ofChar_of_role special, run, stepped]
  rfl

theorem folded_push (special : Role.ofChar char ≠ .ordinary) {mode : Mode}
    (outside : mode ≠ .comment) :
    { scan.push char with mode }.folded = { scan.folded.push char with mode } := by
  simp [folded, Scan.push, Uppercase.ofChar_of_role special, outside]

theorem step_code {scan : Scan Char} {role : Role} (code : scan.mode = .code)
    (plain : scan.escaping = false) (noEscape : role ≠ .backslash) :
    scan.step role char = scan.stepCode role char := by
  simp [step, code, plain, noEscape]

theorem step_string {scan : Scan Char} {role : Role} {alone : Bool}
    (inside : scan.mode = .string alone) (plain : scan.escaping = false)
    (noEscape : role ≠ .backslash) :
    scan.step role char =
      if role = .doubleQuote then .take ((scan.push char).closed alone)
      else .more (scan.push char) := by
  simp [step, inside, plain, noEscape]

/-- A step that goes on keeps this. -/
theorem Repeats.more (repeats : scan.Repeats) (noEscape : Role.ofChar char ≠ .backslash)
    (stepped : scan.step (Role.ofChar char) char = .more next) : next.Repeats := by
  obtain ⟨mode, pending, escaping, escaped⟩ := scan
  obtain rfl : escaping = false := repeats.plain
  obtain rfl : escaped = false := repeats.unescaped
  cases mode with
  | comment =>
      simp only [step] at stepped
      split at stepped
      next =>
          split at stepped
          next =>
              cases stepped
              exact repeats.skip rfl rfl rfl rfl
          next => cases stepped
      next =>
          cases stepped
          exact repeats
  | code =>
      rw [step_code rfl rfl noEscape] at stepped
      have special (other : Role.ofChar char ≠ .ordinary)
          (same : stepCode (folded ⟨.code, pending, false, false⟩) (Role.ofChar char) char =
            .more next.folded) (pushed : next.pending = char :: pending)
          (plain : next.escaping = false) (unescaped : next.escaped = false) : next.Repeats := by
        refine repeats.push plain unescaped pushed (run_special other ?_)
        rw [step_code rfl rfl noEscape, same]
      cases role : Role.ofChar char with
      | backslash => exact absurd role noEscape
      | semicolon =>
          rw [role] at stepped
          cases stepped
          exact repeats.skip rfl rfl rfl rfl
      | ordinary =>
          rw [role] at stepped
          cases stepped
          exact repeats.push rfl rfl rfl (run_ordinary role (by simp))
      | doubleQuote =>
          rw [role] at stepped special
          cases stepped
          refine special (by simp) ?_ rfl rfl rfl
          rw [stepCode, folded_pending_isEmpty]
          exact congrArg Step.more (folded_push (by simp [role]) (by simp)).symm
      | tick =>
          rw [role] at stepped special
          simp only [stepCode] at stepped
          split at stepped
          next => cases stepped
          next filled =>
              cases stepped
              refine special (by simp) ?_ rfl rfl rfl
              rw [stepCode, folded_pending_isEmpty, if_neg filled]
              exact congrArg Step.more (folded_push (by simp [role]) (by simp [folded])).symm
      | newline =>
          simp only [role, stepCode] at stepped
          split at stepped
          next =>
              cases stepped
              exact repeats
          next => cases stepped
      | blank =>
          simp only [role, stepCode] at stepped
          split at stepped
          next =>
              cases stepped
              exact repeats
          next => cases stepped
      | parenLeft =>
          simp only [role, stepCode] at stepped
          split at stepped <;> cases stepped
      | parenRight =>
          simp only [role, stepCode] at stepped
          split at stepped <;> cases stepped
  | string alone =>
      rw [step_string rfl rfl noEscape] at stepped
      split at stepped
      next => cases stepped
      next goesOn =>
          cases stepped
          by_cases ordinary : Role.ofChar char = .ordinary
          · exact repeats.push rfl rfl rfl (run_ordinary ordinary (by simp))
          · refine repeats.push rfl rfl rfl (run_special ordinary ?_)
            rw [@step_string char _ _ alone rfl rfl noEscape, if_neg goesOn]
            exact congrArg Step.more (folded_push ordinary (by simp [folded])).symm

end Scan

/-- A lexeme without escapes; a word is scanned alone as it was, also when it is folded. -/
def Lexeme.Repeats : Lexeme Char → Prop
  | .escapedWord _ => False
  | .word chars => Alphabet.characters.lex (chars.flatMap Uppercase.ofChar) =
      [Token.ofWord (chars.flatMap Uppercase.ofChar)]
  | _ => True

namespace Scan

variable {scan : Scan Char} {char : Char} {lexeme : Lexeme Char}

theorem Repeats.pendingWord_eq (repeats : scan.Repeats) :
    scan.pendingWord = .word scan.pending.reverse := by
  simp [pendingWord, repeats.unescaped]

theorem Repeats.pendingWord (repeats : scan.Repeats) (outside : ∀ alone, scan.mode ≠ .string alone)
    (filled : scan.pending.isEmpty = false) : scan.pendingWord.Repeats := by
  rw [repeats.pendingWord_eq]
  have code : scan.folded.mode = .code := by
    cases mode : scan.mode with
    | string alone => exact absurd mode (outside alone)
    | _ => simp [folded, mode]
  have ended : scan.folded.ending = .lexeme scan.folded.pendingWord := by
    simp [ending, code, filled]
  refine (@Alphabet.lex_of_unfinished _ Alphabet.characters _ _ repeats.again).trans ?_
  have word : scan.folded.pendingWord =
      .word (scan.pending.reverse.flatMap Uppercase.ofChar) := by
    simp [Scan.pendingWord, folded]
  rw [Alphabet.ended, ended, word]
  rfl

theorem Repeats.closed (repeats : scan.Repeats) (quotes : Role.ofChar char = .doubleQuote)
    {alone : Bool} (inside : scan.mode = .string alone) :
    ((scan.push char).closed alone).Repeats := by
  cases alone with
  | true => exact True.intro
  | false =>
      have word : (scan.push char).closed false = .word (scan.pending.reverse ++ [char]) := by
        simp [Scan.closed, Scan.push, Scan.pendingWord, repeats.unescaped]
      have found : start.run Role.ofChar
          ((scan.pending.reverse ++ [char]).flatMap Uppercase.ofChar) =
            .found (.word ((scan.pending.reverse ++ [char]).flatMap Uppercase.ofChar)) [] := by
        have noEscape : Role.ofChar char ≠ .backslash := by simp [quotes]
        have mode : scan.folded.mode = .string false := by simp [folded, inside]
        have same := @Uppercase.ofChar_of_role char (by simp [quotes])
        rw [List.flatMap_append, List.flatMap_singleton, repeats.run_append, same, run,
          step_string mode rfl noEscape, if_pos quotes]
        simp [Scan.closed, Scan.push, Scan.pendingWord, folded]
      rw [word]
      exact @Alphabet.lex_of_found _ Alphabet.characters _ _ _ found

/-- What a lexeme that a step completes may be. -/
theorem take_cases
    (stepped : scan.step (Role.ofChar char) char = .take lexeme) :
    lexeme = .parenLeft ∨ lexeme = .parenRight ∨ lexeme = .tick ∨
      (lexeme = scan.pendingWord ∧ (∀ alone, scan.mode ≠ .string alone) ∧
        scan.pending.isEmpty = false) ∨
      ∃ alone, scan.mode = .string alone ∧ Role.ofChar char = .doubleQuote ∧
        lexeme = (scan.push char).closed alone := by
  unfold step at stepped
  cases mode : scan.mode with
  | comment => grind
  | code =>
      simp only [mode, stepCode] at stepped
      cases role : Role.ofChar char <;> grind
  | string alone => grind

theorem leave_cases (stepped : scan.step (Role.ofChar char) char = .leave lexeme) :
    lexeme = scan.pendingWord ∧ scan.mode = .code ∧ scan.pending.isEmpty = false := by
  unfold step at stepped
  cases mode : scan.mode with
  | comment => grind
  | code =>
      simp only [mode, stepCode] at stepped
      cases role : Role.ofChar char <;> grind
  | string alone => grind

theorem Repeats.emitted (repeats : scan.Repeats) (noEscape : Role.ofChar char ≠ .backslash) :
    (∀ lexeme ∈ (scan.step (Role.ofChar char) char).emitted.1, lexeme.Repeats) ∧
      (scan.step (Role.ofChar char) char).emitted.2.Repeats := by
  cases stepped : scan.step (Role.ofChar char) char with
  | more next => exact ⟨fun _ member => (by cases member), repeats.more noEscape stepped⟩
  | take lexeme =>
      refine ⟨List.forall_mem_singleton.mpr ?_, repeats_start⟩
      rcases take_cases stepped with rfl | rfl | rfl | ⟨rfl, outside, filled⟩ |
        ⟨alone, inside, quotes, rfl⟩
      · exact True.intro
      · exact True.intro
      · exact True.intro
      · exact repeats.pendingWord outside filled
      · exact repeats.closed quotes inside
  | leave lexeme =>
      refine ⟨List.forall_mem_singleton.mpr ?_, repeats_start⟩
      obtain ⟨rfl, code, filled⟩ := leave_cases stepped
      exact repeats.pendingWord (by simp [code]) filled

theorem Repeats.ending (repeats : scan.Repeats) (ended : scan.ending = .lexeme lexeme) :
    lexeme.Repeats := by
  unfold Scan.ending at ended
  cases mode : scan.mode with
  | string alone => simp [mode] at ended
  | _ =>
      simp only [mode] at ended
      split at ended
      next => cases ended
      next filled =>
          cases ended
          exact repeats.pendingWord (by simp [mode]) (Bool.eq_false_iff.mpr filled)

theorem Repeats.advance (repeats : scan.Repeats) (noEscape : Role.ofChar char ≠ .backslash) :
    (∀ lexeme ∈ (scan.advance (Role.ofChar char) char).1, lexeme.Repeats) ∧
      (scan.advance (Role.ofChar char) char).2.Repeats := by
  have now := repeats.emitted noEscape
  have later := repeats_start.emitted noEscape
  unfold Scan.advance
  split
  next lexeme stepped =>
      rw [stepped] at now
      exact ⟨List.forall_mem_cons.mpr ⟨now.1 lexeme List.mem_cons_self, later.1⟩, later.2⟩
  next => exact now

/-- In a pass over characters without a backslash, every word repeats. -/
theorem Repeats.lexemes (repeats : scan.Repeats) {chars : List Char}
    (noEscape : ∀ char ∈ chars, Role.ofChar char ≠ .backslash) :
    (∀ lexeme ∈ (scan.lexemes Role.ofChar chars).1, lexeme.Repeats) ∧
      (scan.lexemes Role.ofChar chars).2.Repeats := by
  induction chars generalizing scan with
  | nil => exact ⟨fun _ member => (by cases member), repeats⟩
  | cons char chars ih =>
      obtain ⟨own, others⟩ := List.forall_mem_cons.mp noEscape
      obtain ⟨now, next⟩ := repeats.advance own
      obtain ⟨later, last⟩ := ih next others
      exact ⟨List.forall_mem_append.mpr ⟨now, later⟩, last⟩

end Scan

/-! ## Words that are names -/

namespace Token

theorem ofWord_eq_symbol_iff {word : List Char} {name : String} :
    ofWord word = .ok (.symbol name) ↔ word ≠ ['.'] ∧
      (word.all isNumeric && word.any Number.isDigit) = false ∧ String.ofList word = name := by
  unfold ofWord
  grind

/-- Folding a name makes no number of it. -/
theorem ofWord_folded {word : List Char} {name : String}
    (given : ofWord word = .ok (.symbol name)) :
    ofWord (word.flatMap Uppercase.ofChar) = .ok (.symbol (fold name)) := by
  obtain ⟨notDot, notNumber, rfl⟩ := ofWord_eq_symbol_iff.mp given
  have folded : fold (String.ofList word) = String.ofList (word.flatMap Uppercase.ofChar) := by
    rw [fold, String.toList_ofList]
  rw [folded, ofWord_eq_symbol_iff]
  cases numeric : word.all isNumeric with
  | true =>
      have same : word.flatMap Uppercase.ofChar = word := by
        refine flatMap_ofChar fun char member => ?_
        have own := List.all_eq_true.mp numeric char member
        exact (Uppercase.ofChar_roles char).resolve_right fun moves => by simp [own] at moves
      rw [same]
      exact ⟨notDot, notNumber, rfl⟩
  | false =>
      have other : (word.flatMap Uppercase.ofChar).all isNumeric = false := by
        obtain ⟨char, member, plain⟩ := List.all_eq_false.mp numeric
        obtain ⟨image, images, form⟩ := List.exists_cons_of_ne_nil (Uppercase.ofChar_ne_nil char)
        have among : image ∈ Uppercase.ofChar char := form ▸ List.mem_cons_self
        refine List.all_eq_false.mpr ⟨image, List.mem_flatMap.mpr ⟨char, member, among⟩, ?_⟩
        rcases Uppercase.ofChar_roles char with same | ⟨_, _, letters⟩
        · rw [same] at among
          rwa [List.mem_singleton.mp among]
        · simp [(letters image among).2]
      refine ⟨?_, by rw [other, Bool.false_and], rfl⟩
      intro dot
      rw [dot] at other
      cases other

theorem isName_of_repeats {lexeme : Lexeme Char} {name : String} (repeats : lexeme.Repeats)
    (given : ofCharacters lexeme = .ok (.symbol name)) : IsName (fold name) := by
  cases lexeme with
  | word chars =>
      have own : ofWord chars = .ok (.symbol name) := given
      obtain ⟨_, _, rfl⟩ := ofWord_eq_symbol_iff.mp own
      have alone : Alphabet.characters.lex (chars.flatMap Uppercase.ofChar) =
          [ofWord (chars.flatMap Uppercase.ofChar)] := repeats
      rw [ofWord_folded own] at alone
      rw [isName_iff, ← alone, fold, String.toList_ofList, String.toList_ofList]
  | escapedWord chars => exact repeats.elim
  | _ => cases given

end Token

/-- In characters without a backslash, every symbol has a name that is a single token. -/
theorem Alphabet.isName_of_mem_lex {chars : List Char} (noEscape : '\\' ∉ chars) {name : String}
    (member : .ok (.symbol name) ∈ characters.lex chars) : Token.IsName (fold name) := by
  have plain : ∀ char ∈ chars, Role.ofChar char ≠ .backslash := by
    intro char inside escapes
    rw [Role.eq_of_ofChar_backslash escapes] at inside
    exact noEscape inside
  obtain ⟨early, last⟩ := Scan.repeats_start.lexemes plain
  rcases List.mem_append.mp member with found | late
  · obtain ⟨lexeme, inside, given⟩ := List.mem_map.mp found
    exact Token.isName_of_repeats (early lexeme inside) given
  · unfold ended at late
    split at late
    next => cases late
    next lexeme ending =>
        exact Token.isName_of_repeats (last.ending ending) (List.mem_singleton.mp late).symm
    next => cases List.mem_singleton.mp late

end ConsLisp
