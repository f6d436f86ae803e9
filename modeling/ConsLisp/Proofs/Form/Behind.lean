import ConsLisp.Proofs.Form.Layout
import ConsLisp.Proofs.Token.Extent
import ConsLisp.Proofs.Value.Unwritable

/-!
# Scans that fall behind

A leaf that is not read back where it stands can only be read from characters that are printed
after it.  From there on the scan is behind the layout: the text of the next leaf is already in use
when that leaf should be read, and so on to the end of the text, where nothing is left to read the
last leaf from.
-/

namespace ConsLisp

open Text

/-- The leaf that a lexeme is read as. -/
def Lexeme.leaf? (lexeme : Lexeme Char) : Option Value :=
  (Token.ofCharacters lexeme).toOption.bind Token.leaf?

theorem Lexeme.leaf?_eq_some_iff {lexeme : Lexeme Char} {leaf : Value} :
    lexeme.leaf? = some leaf ↔
      ∃ token, Token.ofCharacters lexeme = .ok token ∧ token.leaf? = some leaf := by
  rw [leaf?, Option.bind_eq_some_iff]
  constructor
  · rintro ⟨token, given, own⟩
    exact ⟨token, by cases result : Token.ofCharacters lexeme <;> simp_all [Except.toOption], own⟩
  · rintro ⟨token, given, own⟩
    exact ⟨token, by rw [given]; rfl, own⟩

namespace Scan

variable {scan : Scan Char} {char : Char} {chars : List Char}

/-- The leaf of what is pending where the text ends. -/
def leaf? (scan : Scan Char) : Option Value :=
  match scan.ending with
  | .lexeme lexeme => lexeme.leaf?
  | .nothing | .unterminated _ => none

/-- The leaves of a text after what the scan has taken. -/
def leaves (scan : Scan Char) (chars : List Char) : List Value :=
  let passed := scan.lexemes Role.ofChar chars
  passed.1.filterMap Lexeme.leaf? ++ passed.2.leaf?.toList

theorem leaves_append (scan : Scan Char) (first second : List Char) :
    scan.leaves (first ++ second) =
      (scan.lexemes Role.ofChar first).1.filterMap Lexeme.leaf? ++
        (scan.lexemes Role.ofChar first).2.leaves second := by
  rw [leaves, leaves, lexemes_append, List.filterMap_append, List.append_assoc]

theorem leaves_cons (scan : Scan Char) (char : Char) (chars : List Char) :
    scan.leaves (char :: chars) =
      (scan.advance (Role.ofChar char) char).1.filterMap Lexeme.leaf? ++
        (scan.advance (Role.ofChar char) char).2.leaves chars := by
  rw [leaves, leaves, lexemes, List.filterMap_append, List.append_assoc]

/-- The leaves of a whole text are those of its tokens. -/
theorem leaves_start (chars : List Char) :
    start.leaves chars =
      (Alphabet.characters.lex chars).filterMap (·.toOption.bind Token.leaf?) := by
  have last (scan : Scan Char) : scan.leaf?.toList =
      (Alphabet.characters.ended scan).filterMap (·.toOption.bind Token.leaf?) := by
    unfold leaf? Alphabet.ended
    generalize scan.ending = ending
    cases ending with
    | nothing => rfl
    | unterminated pending => rfl
    | lexeme lexeme =>
        rw [List.filterMap_eq_flatMap_toList, List.flatMap_singleton]
        rfl
  rw [leaves, Alphabet.lex, List.filterMap_append, List.filterMap_map, ← last]
  rfl

theorem pendingWord_of_leaf? {leaf : Value} (given : scan.leaf? = some leaf) :
    scan.ending = .lexeme scan.pendingWord ∧ scan.pendingWord.leaf? = some leaf := by
  unfold leaf? at given
  split at given
  next lexeme ending =>
      rcases ending_cases scan with other | same | other
      · cases other.symm.trans ending
      · cases same.symm.trans ending
        exact ⟨same, given⟩
      · cases other.symm.trans ending
  next => cases given
  next => cases given

end Scan

/-! ## Symbols of lexemes -/

theorem Token.symbols_of_ofCharacters {lexeme : Lexeme Char} {name : String}
    (given : ofCharacters lexeme = .ok (.symbol name)) : lexeme.symbols = name.toList := by
  cases lexeme with
  | word chars =>
      obtain ⟨_, _, rfl⟩ := ofWord_eq_symbol_iff.mp given
      exact String.toList_ofList.symm
  | escapedWord chars =>
      cases given
      exact String.toList_ofList.symm
  | _ => cases given

namespace Lexeme

variable {lexeme : Lexeme Char} {name : String}

/-- A lexeme that is read as a symbol holds its name, up to folding. -/
theorem symbol_of_leaf? (given : lexeme.leaf? = some (.symbol name)) :
    ∃ own, Token.ofCharacters lexeme = .ok (.symbol own) ∧ fold own = name := by
  obtain ⟨token, classified, read⟩ := leaf?_eq_some_iff.mp given
  obtain ⟨denoted, _⟩ := Token.leaf?_eq_some_iff.mp read
  cases token with
  | symbol own =>
      refine ⟨own, classified, ?_⟩
      generalize same : Value.symbol name = value at denoted
      cases denoted <;> cases same
      rfl
  | _ => cases denoted

/-- A lexeme of characters of a folded name that is read as the symbol has that very name. -/
theorem name_of_leaf? (folded : fold name = name) (own : lexeme.symbols ⊆ name.toList)
    (given : lexeme.leaf? = some (.symbol name)) :
    Token.ofCharacters lexeme = .ok (.symbol name) ∧ lexeme.length = name.toList.length := by
  obtain ⟨text, classified, same⟩ := symbol_of_leaf? given
  have letters := Token.symbols_of_ofCharacters classified
  have kept : fold text = text := by
    rw [fold, flatMap_ofChar, String.ofList_toList]
    intro char inside
    rw [← letters] at inside
    exact ofChar_of_mem_fold (folded.symm ▸ own inside)
  obtain rfl : text = name := kept.symm.trans same
  refine ⟨classified, ?_⟩
  rw [← Token.ofLexeme_encode] at classified
  exact Token.length_of_symbol classified

/-- Only a string is read as a string. -/
theorem string_of_leaf? {text : String} (given : lexeme.leaf? = some (.string text)) :
    lexeme = .string text.toList := by
  obtain ⟨token, classified, read⟩ := leaf?_eq_some_iff.mp given
  obtain ⟨denoted, _⟩ := Token.leaf?_eq_some_iff.mp read
  cases denoted
  cases lexeme with
  | string content =>
      cases classified
      rw [String.toList_ofList]
  | word chars =>
      have own : Token.ofWord chars = .ok (.string text) := classified
      unfold Token.ofWord at own
      grind
  | _ => cases classified

end Lexeme

/-! ## Falling behind -/

/-- The symbol has a name with a backslash at its end. -/
def Value.EndsInBackslash (leaf : Value) : Prop :=
  ∃ name, leaf = .symbol name ∧ name.toList.getLast? = some '\\'

/-- A scan that has taken the text of a leaf but does not give the leaf unless it goes on to take
the text of another one.  It may have taken some of the layout in between. -/
inductive Scan.Behind (leaf : Value) (free : Bool) : Scan Char → Prop where
  /-- What is pending ends at a quote, which only leaves have. -/
  | string {scan : Scan Char} {alone : Bool} (inside : scan.mode = .string alone) :
      Behind leaf free scan
  /-- The comment goes on to the end of a line, which only leaves have. -/
  | comment {scan : Scan Char} (inside : scan.mode = .comment) (other : scan.leaf? ≠ some leaf) :
      Behind leaf free scan
  | escaping {scan : Scan Char} (code : scan.mode = .code) (waits : scan.escaping = true)
      (ends : leaf.EndsInBackslash) (other : scan.leaf? ≠ some leaf) : Behind leaf free scan
  /-- Behind the backslash at the end of the leaf something else was taken. -/
  | escaped {scan : Scan Char} {char : Char} {pending : List Char} (code : scan.mode = .code)
      (plain : scan.escaping = false) (taken : scan.pending = char :: pending)
      (other : char ≠ '\\') (ends : leaf.EndsInBackslash) : Behind leaf free scan
  | fresh : Behind leaf free start
  /-- What is pending is another leaf or none, and ends here. -/
  | word {scan : Scan Char} (code : scan.mode = .code) (plain : scan.escaping = false)
      (settled : scan.Settled) (ends : free = true) (other : scan.leaf? ≠ some leaf) :
      Behind leaf free scan

namespace Scan

variable {scan : Scan Char} {leaf : Value}

/-- Folding makes no backslashes. -/
theorem leaf?_of_last {char : Char} {pending : List Char} (taken : scan.pending = char :: pending)
    (other : char ≠ '\\') (ends : leaf.EndsInBackslash) : scan.pendingWord.leaf? ≠ some leaf := by
  rintro given
  obtain ⟨name, rfl, last⟩ := ends
  obtain ⟨own, classified, rfl⟩ := Lexeme.symbol_of_leaf? given
  have letters := Token.symbols_of_ofCharacters classified
  rw [symbols_pendingWord, taken, List.reverse_cons] at letters
  rw [fold, String.toList_ofList, ← letters, List.flatMap_append, List.flatMap_singleton] at last
  rw [List.getLast?_append_of_ne_nil _ (Uppercase.ofChar_ne_nil char)] at last
  have member := List.mem_of_getLast? last
  rcases Uppercase.ofChar_roles char with same | ⟨_, _, images⟩
  · rw [same] at member
    exact other (List.mem_singleton.mp member).symm
  · cases (images _ member).1

theorem Behind.leaf?_ne (behind : Behind leaf true scan) : scan.leaf? ≠ some leaf := by
  cases behind with
  | string inside => simp [Scan.leaf?, ending, inside]
  | comment inside other => exact other
  | escaping code waits ends other => exact other
  | escaped code plain taken other ends =>
      exact fun given => leaf?_of_last taken other ends (pendingWord_of_leaf? given).2
  | fresh => simp [Scan.leaf?, ending, start]
  | word code plain settled ends other => exact other

theorem Settled.eq_start (settled : scan.Settled) (code : scan.mode = .code)
    (plain : scan.escaping = false) (empty : scan.pending = []) : scan = start := by
  obtain ⟨mode, pending, escaping, escaped⟩ := scan
  obtain rfl : escaped = escaping := settled empty
  cases code
  cases plain
  cases empty
  rfl

theorem mark_start {char : Char} (own : char = ' ' ∨ char = ')' ∨ char = '(' ∨ char = '\'') :
    (∀ lexeme ∈ (start.advance (Role.ofChar char) char).1, lexeme.leaf? = none) ∧
      (start.advance (Role.ofChar char) char).2 = start := by
  rcases own with rfl | rfl | rfl | rfl
  · exact ⟨fun _ member => (by cases member), rfl⟩
  · exact ⟨List.forall_mem_singleton.mpr rfl, rfl⟩
  · exact ⟨List.forall_mem_singleton.mpr rfl, rfl⟩
  · exact ⟨List.forall_mem_singleton.mpr rfl, rfl⟩

/-- Punctuation of the layout does not complete the leaf. -/
theorem Behind.mark {free : Bool} (behind : Behind leaf free scan) {char : Char}
    (own : char = ' ' ∨ char = ')' ∨ free = false ∧ (char = '(' ∨ char = '\'')) :
    (∀ lexeme ∈ (scan.advance (Role.ofChar char) char).1, lexeme.leaf? ≠ some leaf) ∧
      ∀ next, Behind leaf next (scan.advance (Role.ofChar char) char).2 := by
  have apart {lexeme : Lexeme Char} (none : lexeme.leaf? = none) : lexeme.leaf? ≠ some leaf := by
    simp [none]
  have fresh : (∀ lexeme ∈ (start.advance (Role.ofChar char) char).1, lexeme.leaf? ≠ some leaf) ∧
      ∀ next, Behind leaf next (start.advance (Role.ofChar char) char).2 := by
    obtain ⟨nothing, same⟩ := @mark_start char (by tauto)
    rw [same]
    exact ⟨fun lexeme member => apart (nothing lexeme member), fun _ => .fresh⟩
  obtain ⟨mode, pending, escaping, escaped⟩ := scan
  cases behind with
  | string inside =>
      cases inside
      rcases own with rfl | rfl | ⟨_, rfl | rfl⟩ <;> cases escaping <;>
        exact ⟨fun _ member => (by cases member), fun _ => .string rfl⟩
  | comment inside other =>
      cases inside
      rcases own with rfl | rfl | ⟨_, rfl | rfl⟩ <;>
        exact ⟨fun _ member => (by cases member), fun _ => .comment rfl other⟩
  | escaping code waits ends other =>
      cases code
      cases waits
      have notBackslash : char ≠ '\\' := by
        rcases own with rfl | rfl | ⟨_, rfl | rfl⟩ <;> decide
      exact ⟨fun _ member => (by cases member), fun _ => .escaped rfl rfl rfl notBackslash ends⟩
  | escaped code plain taken other ends =>
      have word := leaf?_of_last taken other ends
      cases code
      cases plain
      cases taken
      rcases own with rfl | rfl | ⟨_, rfl | rfl⟩
      · exact ⟨List.forall_mem_singleton.mpr word, fun _ => .fresh⟩
      · exact ⟨List.forall_mem_cons.mpr ⟨word, List.forall_mem_singleton.mpr (apart rfl)⟩,
          fun _ => .fresh⟩
      · exact ⟨List.forall_mem_cons.mpr ⟨word, List.forall_mem_singleton.mpr (apart rfl)⟩,
          fun _ => .fresh⟩
      · exact ⟨fun _ member => (by cases member), fun _ => .escaped rfl rfl rfl (by decide) ends⟩
  | fresh => exact fresh
  | word code plain settled ends other =>
      cases pending with
      | nil =>
          rw [settled.eq_start code plain rfl]
          exact fresh
      | cons last pending =>
          cases code
          cases plain
          rcases own with rfl | rfl | ⟨bound, _⟩
          · exact ⟨List.forall_mem_singleton.mpr other, fun _ => .fresh⟩
          · exact ⟨List.forall_mem_cons.mpr ⟨other, List.forall_mem_singleton.mpr (apart rfl)⟩,
              fun _ => .fresh⟩
          · cases ends.symm.trans bound

/-- The words of the layout do not complete the leaf. -/
theorem Behind.receive (behind : Behind leaf false scan) {word : List Char}
    (own : word = ['N', 'I', 'L'] ∨ word = ['.']) : Behind leaf true (scan.receive word) := by
  obtain ⟨mode, pending, escaping, escaped⟩ := scan
  cases behind with
  | string inside =>
      cases inside
      exact .string rfl
  | comment inside other =>
      cases inside
      exact .comment rfl other
  | escaping code waits ends other =>
      cases code
      rcases own with rfl | rfl <;> exact .escaped rfl (Bool.and_false _) rfl (by decide) ends
  | escaped code plain taken other ends =>
      cases code
      rcases own with rfl | rfl <;> exact .escaped rfl (Bool.and_false _) rfl (by decide) ends
  | fresh =>
      have settled : (start.receive word).Settled := by
        intro empty
        rcases own with rfl | rfl <;> cases empty
      have nothing : (start.receive word).leaf? = none := by
        rcases own with rfl | rfl <;> rfl
      exact .word rfl rfl settled rfl fun given => by cases nothing.symm.trans given
  | word code plain settled ends other => cases ends

end Scan

open Scan

theorem Scan.lexemes_receive {word : List Char}
    (plain : ∀ char ∈ word, Role.ofChar char = .ordinary) (scan : Scan Char) :
    scan.lexemes Role.ofChar word = ([], scan.receive word) := by
  have scanned := run_receive plain scan []
  rw [List.append_nil] at scanned
  exact lexemes_of_unfinished scanned

theorem ordinary_of_word {word : List Char} (own : word = ['N', 'I', 'L'] ∨ word = ['.']) :
    ∀ char ∈ word, Role.ofChar char = .ordinary := by
  have words : [['N', 'I', 'L'], ['.']].all (·.all (Role.ofChar · = .ordinary)) = true := rfl
  have plain := List.all_eq_true.mp words word (by simpa using own)
  simpa using plain

/-- Where a text gives leaves up to one that is expected, either the first part of the text gives
all leaves before that one, or the first part gives the leaf. -/
theorem split_leaves {given behind before after : List Value} {leaf : Value}
    (same : given ++ behind = before ++ leaf :: after) :
    (∃ others, before = given ++ others ∧ behind = others ++ leaf :: after) ∨
      ∃ others, given = before ++ leaf :: others ∧ after = others ++ behind := by
  rcases List.append_eq_append_iff.mp same with ⟨others, rfl, rfl⟩ | ⟨others, rfl, later⟩
  · exact .inl ⟨others, rfl, rfl⟩
  · cases others with
    | nil => exact .inl ⟨[], by simp, later.symm⟩
    | cons first others =>
        cases later
        exact .inr ⟨others, rfl, rfl⟩

/-- One character completes at most one leaf, and then the scan starts anew. -/
theorem Scan.advance_leaves (scan : Scan Char) (char : Char) :
    (scan.advance (Role.ofChar char) char).1.filterMap Lexeme.leaf? = [] ∨
      (∃ lexeme ∈ (scan.advance (Role.ofChar char) char).1,
        (scan.advance (Role.ofChar char) char).1.filterMap Lexeme.leaf? = lexeme.leaf?.toList) ∧
      (scan.advance (Role.ofChar char) char).2 = start ∧ Role.ofChar char ≠ .ordinary := by
  have alone (lexeme : Lexeme Char) : [lexeme].filterMap Lexeme.leaf? = lexeme.leaf?.toList := by
    rw [List.filterMap_eq_flatMap_toList, List.flatMap_singleton]
  rcases advance_cases scan (Role.ofChar char) char with
    ⟨next, same⟩ | ⟨special, lexeme, same | same | same⟩ <;> rw [same]
  · exact .inl rfl
  · exact .inr ⟨⟨lexeme, List.mem_cons_self, alone lexeme⟩, rfl, special⟩
  · refine .inr ⟨⟨lexeme, List.mem_cons_self, ?_⟩, rfl, special⟩
    rw [← alone, ← List.singleton_append, List.filterMap_append]
    exact List.append_nil _
  · refine .inr ⟨⟨lexeme, List.mem_cons_self, ?_⟩, rfl, special⟩
    rw [← alone, ← List.singleton_append, List.filterMap_append]
    exact List.append_nil _

theorem eq_nil_of_toList {found : Option Value} {before others : List Value} {leaf : Value}
    (same : found.toList = before ++ leaf :: others) :
    found = some leaf ∧ before = [] ∧ others = [] := by
  cases found with
  | none => cases before <;> cases same
  | some value =>
      cases before with
      | nil =>
          cases same
          exact ⟨rfl, rfl, rfl⟩
      | cons first before => cases before <;> cases same

/-- Where the text of a leaf completes an earlier one, the rest of it is scanned anew. -/
theorem Scan.lexemes_behind_leaf {scan : Scan Char} {chars : List Char} {before after : List Value}
    {leaf : Value}
    (given : (scan.lexemes Role.ofChar chars).1.filterMap Lexeme.leaf? = before ++ leaf :: after) :
    ∃ taken char rest, chars = taken ++ char :: rest ∧ Role.ofChar char ≠ .ordinary ∧
      (start.lexemes Role.ofChar rest).1.filterMap Lexeme.leaf? = after ∧
      (start.lexemes Role.ofChar rest).2 = (scan.lexemes Role.ofChar chars).2 := by
  induction chars generalizing scan before with
  | nil => exact absurd given.symm (List.append_ne_nil_of_right_ne_nil _ (List.cons_ne_nil _ _))
  | cons char chars ih =>
      rw [lexemes, List.filterMap_append] at given
      rcases split_leaves given with ⟨others, _, later⟩ | ⟨others, now, rest⟩
      · obtain ⟨taken, next, rest, rfl, special, leaves, same⟩ := ih later
        exact ⟨char :: taken, next, rest, rfl, special, leaves, same⟩
      · rcases advance_leaves scan char with none | ⟨⟨lexeme, _, some⟩, fresh, special⟩
        · rw [none] at now
          exact absurd now.symm (List.append_ne_nil_of_right_ne_nil _ (List.cons_ne_nil _ _))
        · obtain ⟨_, _, rfl⟩ := eq_nil_of_toList (some.symm.trans now)
          refine ⟨[], char, chars, rfl, special, ?_, ?_⟩
          · rw [rest, fresh, List.nil_append]
          · rw [lexemes, fresh]

/-! ## Texts of leaves -/

namespace Scan

/-- A text that does not give the leaf and leaves a scan behind. -/
structure Misses (leaf : Value) (text : List Char) : Prop where
  absent : ∀ lexeme ∈ (start.lexemes Role.ofChar text).1, lexeme.leaf? ≠ some leaf
  behind : Behind leaf true (start.lexemes Role.ofChar text).2

theorem Misses.leaves_ne {leaf : Value} {text chars : List Char} {leaves : List Value}
    (misses : Misses leaf text)
    (stuck : (start.lexemes Role.ofChar text).2.leaves chars ≠ leaf :: leaves) :
    start.leaves (text ++ chars) ≠ leaf :: leaves := by
  intro given
  rw [leaves_append] at given
  cases found : (start.lexemes Role.ofChar text).1.filterMap Lexeme.leaf? with
  | nil =>
      rw [found] at given
      exact stuck given
  | cons first others =>
      rw [found] at given
      cases given
      have member := found ▸ List.mem_cons_self
      obtain ⟨lexeme, inside, own⟩ := List.mem_filterMap.mp member
      exact misses.absent lexeme inside own

variable {chars : List Char}

theorem getLast?_of_suffix {whole : List Char} {last : Char} (ending : chars <:+ whole)
    (own : chars.getLast? = some last) : whole.getLast? = some last := by
  obtain ⟨before, rfl⟩ := ending
  rw [List.getLast?_append_of_ne_nil _ (by rintro rfl; cases own), own]

/-- The end of a name, and the whole name if it is not a single token, does not give the symbol. -/
theorem misses_symbol {name : String} (folded : fold name = name) (ending : chars <:+ name.toList)
    (apart : chars.length < name.toList.length ∨ ¬ Token.IsName name) :
    Misses (.symbol name) chars := by
  have within := ending.length_le
  have whole (enough : name.toList.length ≤ chars.length)
      (alone : Alphabet.characters.lex chars = [.ok (.symbol name)]) : False := by
    rw [ending.eq_of_length_le enough] at alone
    rcases apart with shorter | notName
    · omega
    · exact notName (Token.isName_iff.mpr alone)
  obtain ⟨early, late⟩ := @lexemes_subset _ Role.ofChar start chars
  obtain ⟨bounds, last⟩ := lex_of_pending chars
  have settled : (start.lexemes Role.ofChar chars).2.Settled := settled_lexemes settled_start chars
  have escape := @getLast?_of_escaping chars
  constructor
  · intro lexeme member given
    have letters := List.Subset.trans (early lexeme member) ending.subset
    obtain ⟨classified, length⟩ := Lexeme.name_of_leaf? folded letters given
    obtain ⟨bound, alone⟩ := lex_of_mem_lexemes member
    exact whole (by omega) (classified ▸ alone (by omega))
  · generalize (start.lexemes Role.ofChar chars).2 = scan at *
    have pending (given : scan.leaf? = some (.symbol name)) :
        Token.ofCharacters scan.pendingWord = .ok (.symbol name) ∧
          scan.pending.length = name.toList.length := by
      have letters : scan.pendingWord.symbols ⊆ name.toList := by
        rw [symbols_pendingWord]
        exact fun char member => ending.subset (late (List.mem_reverse.mp member))
      rw [← pendingWord_length]
      exact Lexeme.name_of_leaf? folded letters (pendingWord_of_leaf? given).2
    have short (less : scan.mode = .comment ∨ scan.escaping = true) :
        scan.leaf? ≠ some (.symbol name) := by
      intro given
      have strict := bounds.length_lt less
      have length := (pending given).2
      omega
    cases mode : scan.mode with
    | string alone => exact .string mode
    | comment => exact .comment mode (short (.inl mode))
    | code =>
        cases plain : scan.escaping with
        | true =>
            exact .escaping mode plain ⟨name, rfl, getLast?_of_suffix ending (escape plain)⟩
              (short (.inr plain))
        | false =>
            refine .word mode plain settled rfl fun given => ?_
            obtain ⟨classified, length⟩ := pending given
            have bound := bounds.length_le
            have alone := last (by omega)
            rw [Alphabet.ended, (pendingWord_of_leaf? given).1] at alone
            exact whole (by omega) (classified ▸ alone)

/-- The end of a string does not give the string. -/
theorem misses_string {text : String} {taken : List Char} {char : Char}
    (ending : (escapedString text).toList = taken ++ char :: chars) :
    Misses (.string text) chars := by
  have letters : (escapedString text).toList =
      '"' :: text.toList.flatMap escapedString.escape ++ ['"'] := String.toList_ofList
  have length : printedLength text.toList + 2 = (escapedString text).toList.length := by
    simp [letters, printedLength]
  have settled : (start.lexemes Role.ofChar chars).2.Settled := settled_lexemes settled_start chars
  have escape := @getLast?_of_escaping chars
  constructor
  · intro lexeme member given
    rw [Lexeme.string_of_leaf? given] at member
    have bound := printedLength_of_mem_lexemes member
    rw [ending, List.length_append, List.length_cons] at length
    omega
  · generalize (start.lexemes Role.ofChar chars).2 = scan at *
    have other : scan.leaf? ≠ some (.string text) := fun given =>
      pendingWord_ne_string scan _ (Lexeme.string_of_leaf? (pendingWord_of_leaf? given).2)
    cases mode : scan.mode with
    | string alone => exact .string mode
    | comment => exact .comment mode other
    | code =>
        cases plain : scan.escaping with
        | true =>
            have suffix : chars <:+ (escapedString text).toList :=
              ⟨taken ++ [char], by rw [ending, List.append_assoc, List.singleton_append]⟩
            have last := getLast?_of_suffix suffix (escape plain)
            rw [letters, List.getLast?_append_of_ne_nil _ (List.cons_ne_nil _ _)] at last
            cases last
        | false => exact .word mode plain settled rfl other

/-- Where an earlier leaf ends inside the text of a leaf, the rest does not give the leaf. -/
theorem misses_of_cut {token : Token} {leaf : Value} (denoted : token.Denotes leaf)
    (fits : token.IsLiteral) (notNil : leaf ≠ .nil) {limit : Nat} {text : String}
    (shown : leaf.display limit = .ok text)
    {taken : List Char} {char : Char} (cut : text.toList = taken ++ char :: chars)
    (special : Role.ofChar char ≠ .ordinary) : Misses leaf chars := by
  have member : char ∈ text.toList := by simp [cut]
  cases limit with
  | zero => cases shown
  | succ limit =>
      cases denoted with
      | integer number =>
          cases (Value.display_inRange fits limit).symm.trans shown
          have numeric := (Token.isNumeric_of_mem_toString member).1
          exact absurd (Role.ofChar_of_isNumeric numeric) special
      | float number =>
          cases shown
          exact absurd (Number.ordinary_positionalFloatText number char member) special
      | string content =>
          cases shown
          exact misses_string cut
      | truth folded =>
          cases shown
          rw [List.mem_singleton.mp member] at special
          exact absurd rfl special
      | nil folded => exact absurd rfl notNil
      | symbol notTruth notNil =>
          cases shown
          refine misses_symbol (fold_fold _) ⟨taken ++ [char], ?_⟩ (.inl ?_)
          · simp [cut]
          · simp [cut]; omega

end Scan

/-- Punctuation leaves a scan behind. -/
theorem Scan.mark_behind {scan : Scan Char} {free : Bool} {before after : List Value} {leaf : Value}
    (behind : before = [] → Behind leaf free scan) {char : Char} {chars : List Char}
    (own : char = ' ' ∨ char = ')' ∨ free = false ∧ (char = '(' ∨ char = '\''))
    (given : scan.leaves (char :: chars) = before ++ leaf :: after) :
    ∃ others, (others = [] → ∀ next, Behind leaf next (scan.advance (Role.ofChar char) char).2) ∧
      (scan.advance (Role.ofChar char) char).2.leaves chars = others ++ leaf :: after := by
  rw [leaves_cons] at given
  rcases advance_leaves scan char with none | ⟨⟨lexeme, member, some⟩, fresh, _⟩
  · rw [none, List.nil_append] at given
    exact ⟨before, fun empty => ((behind empty).mark own).2, given⟩
  · rcases split_leaves given with ⟨others, _, later⟩ | ⟨others, now, _⟩
    · refine ⟨others, fun _ next => ?_, later⟩
      rw [fresh]
      exact .fresh
    · obtain ⟨same, empty, _⟩ := eq_nil_of_toList (some.symm.trans now)
      exact absurd same (((behind empty).mark own).1 lexeme member)

/-- A scan that is behind a layout, or that has yet to give leaves before the one expected, does not
give the leaves that are laid out. -/
theorem Layout.not_caught_up {free : Bool} {chars : List Char} {leaves : List Value}
    (layout : Layout free chars leaves) {scan : Scan Char} {before : List Value} {leaf : Value}
    (behind : before = [] → Behind leaf free scan) :
    scan.leaves chars ≠ before ++ leaf :: leaves := by
  induction layout generalizing scan before leaf with
  | empty =>
      intro given
      obtain ⟨same, empty, _⟩ := eq_nil_of_toList given
      exact (behind empty).leaf?_ne same
  | closing own rest ih =>
      intro given
      obtain ⟨others, later, left⟩ := mark_behind behind (own.imp_right .inl) given
      exact ih (fun empty => later empty _) left
  | opening own rest ih =>
      intro given
      obtain ⟨others, later, left⟩ := mark_behind behind (.inr (.inr ⟨rfl, own⟩)) given
      exact ih (fun empty => later empty _) left
  | word own rest ih =>
      intro given
      have plain : ∀ char ∈ _, Role.ofChar char = .ordinary := ordinary_of_word own
      rw [leaves_append, lexemes_receive plain] at given
      exact ih (fun empty => (behind empty).receive own) given
  | @leaf token next limit text chars leaves denoted fits notNil shown rest ih =>
      intro given
      rw [leaves_append] at given
      rcases split_leaves given with ⟨others, _, later⟩ | ⟨others, now, later⟩
      · -- The leaf is still to come, so the scan stays behind.
        rw [List.append_cons] at later
        exact ih (fun empty => absurd empty (by simp)) later
      · -- The leaf ends inside the text of the next one, of which the rest is too short.
        obtain ⟨taken, char, left, cut, special, found, same⟩ := lexemes_behind_leaf now
        have misses := misses_of_cut denoted fits notNil shown cut special
        rw [← found, ← same, ← leaves_append] at later
        exact misses.leaves_ne (@ih _ [] next fun _ => misses.behind) later.symm

end ConsLisp
