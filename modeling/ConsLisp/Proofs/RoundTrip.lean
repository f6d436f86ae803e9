import ConsLisp.Proofs.Form.Acceptance
import ConsLisp.Proofs.Form.Sources
import ConsLisp.Proofs.Token.Spelling

/-!
# Printing and reading back

A readable value is one that the reader can give back from its text.  Its text spells tokens that
derive the value, within the limit that let it be printed; so any number of readable values are
read back from their texts with blanks in between.
-/

namespace ConsLisp

open Form

/-- Values that survive being printed and read. -/
inductive Value.Readable : Value → Prop where
  | nil : Readable .nil
  | truth : Readable .truth
  | integer {number : Int} (above : -Nat.pow 2 63 ≤ number) (below : number ≤ Nat.pow 2 63 - 1) :
      Readable (.integer number)
  | string (text : String) : Readable (.string text)
  /-- A float written without an exponent whose text is exact. -/
  | float {number : Float}
      (numeric : ∀ char ∈ (Number.positionalFloatText number).toList, Token.isNumeric char = true)
      (exact : Token.classify (Text.Utf8.encode (Number.positionalFloatText number)) =
        .ok (.float number)) :
      Readable (.float number)
  /-- A folded name that is a single token. -/
  | symbol {name : String} (folded : Text.fold name = name) (notTruth : name ≠ "T")
      (notNil : name ≠ "NIL") (alone : (Lexer.ofText name).outcomes = [.ok (.symbol name)]) :
      Readable (.symbol name)
  | quoted {inner : Value} (readable : Readable inner) : Readable (.quoted inner)
  /-- A proper list, unless it holds nothing but one list. -/
  | proper {items : List Value} (each : ∀ item ∈ items, Readable item) (nonempty : items ≠ [])
      (notOneList : ∀ inner terminator, items ≠ [.list inner terminator]) :
      Readable (.list items .nil)
  | dotted {items : List Value} {terminator : Value} (each : ∀ item ∈ items, Readable item)
      (nonempty : items ≠ []) (last : Readable terminator)
      (notList : terminator.isOf .list = false) (notNil : terminator.isNil = false) :
      Readable (.list items terminator)

namespace Value

/-! ## Readable values have texts -/

/-- The value has a text at every limit that is high enough. -/
def Printable (value : Value) : Prop :=
  ∃ depth, ∀ limit, depth < limit → ∃ text, value.display limit = .ok text

theorem printable_all {values : List Value} (each : ∀ value ∈ values, value.Printable) :
    ∃ depth, ∀ limit, depth < limit → ∀ value ∈ values, ∃ text, value.display limit = .ok text := by
  induction values with
  | nil => exact ⟨0, fun _ _ value member => by cases member⟩
  | cons first others ih =>
      obtain ⟨depth, own⟩ := each first List.mem_cons_self
      obtain ⟨deeper, rest⟩ := ih fun value member => each value (List.mem_cons_of_mem first member)
      refine ⟨max depth deeper, fun limit enough value member => ?_⟩
      rcases List.mem_cons.mp member with rfl | other
      · exact own limit (by omega)
      · exact rest limit (by omega) value other

theorem Printable.list {items : List Value} {terminator : Value}
    (each : ∀ item ∈ items, item.Printable) (last : terminator.Printable) :
    (Value.list items terminator).Printable := by
  obtain ⟨depth, shown⟩ := printable_all each
  obtain ⟨deeper, ended⟩ := last
  refine ⟨max depth deeper + 1, fun limit enough => ?_⟩
  obtain ⟨limit, rfl⟩ := Nat.exists_eq_add_of_le' (Nat.one_le_of_lt enough)
  exact exists_display_list_iff.mpr ⟨shown limit (by omega), fun _ => ended limit (by omega)⟩

/-- An atom needs one level. -/
theorem Printable.atom {value : Value} {text : String}
    (shown : ∀ limit, value.display (limit + 1) = .ok text) : value.Printable := by
  refine ⟨0, fun limit enough => ?_⟩
  obtain ⟨limit, rfl⟩ := Nat.exists_eq_add_of_le' enough
  exact ⟨text, shown limit⟩

theorem inRange_of_bounds {number : Int} (above : -Nat.pow 2 63 ≤ number)
    (below : number ≤ Nat.pow 2 63 - 1) : Number.Literal.inRange number = true := by
  simp only [Number.Literal.inRange, Bool.and_eq_true, decide_eq_true_eq]
  omega

theorem display_inRange {number : Int} (fits : Number.Literal.inRange number = true)
    (limit : Nat) : (Value.integer number).display (limit + 1) = .ok (toString number) :=
  display_integer (Number.lt_unwritable (Number.Literal.natAbs_lt_of_inRange fits)) limit

theorem Readable.printable {value : Value} (readable : value.Readable) : value.Printable := by
  induction readable with
  | nil => exact .atom fun _ => rfl
  | truth => exact .atom fun _ => rfl
  | integer above below => exact .atom (display_inRange (inRange_of_bounds above below))
  | string text => exact .atom fun _ => rfl
  | float numeric exact => exact .atom fun _ => rfl
  | symbol folded notTruth notNil alone => exact .atom fun _ => rfl
  | quoted readable ih =>
      obtain ⟨depth, shown⟩ := ih
      refine ⟨depth + 1, fun limit enough => ?_⟩
      obtain ⟨limit, rfl⟩ := Nat.exists_eq_add_of_le' (Nat.one_le_of_lt enough)
      obtain ⟨text, own⟩ := shown limit (by omega)
      exact ⟨_, display_quoted_eq_ok_iff.mpr ⟨text, own, rfl⟩⟩
  | proper each nonempty notOneList ih => exact .list ih (.atom fun _ => rfl)
  | dotted each nonempty last notList notNil ih ended => exact .list ih ended

/-! ## Texts of readable values spell the tokens that derive them -/

/-- Any text of the value spells tokens that derive it within the same limit. -/
def Spelled (limit : Nat) (value : Value) : Prop :=
  ∀ text, value.display limit = .ok text →
    ∃ tokens, Spells text.toList tokens ∧ Derives limit tokens value

theorem Spelled.atom {limit : Nat} {value : Value} {text : String} {token : Token}
    (shown : ∀ limit, value.display (limit + 1) = .ok text) (spells : Spells text.toList [token])
    (denoted : token.Denotes value) : Spelled limit value := by
  intro other found
  cases limit with
  | zero => cases found
  | succ limit =>
      obtain rfl := Except.ok.inj ((shown limit).symm.trans found)
      exact ⟨[token], spells, .atom denoted⟩

/-- The texts of several values spell one phrase each. -/
theorem Spelled.phrases {limit : Nat} {values : List Value} {texts : List String}
    (each : ∀ value ∈ values, Spelled limit value)
    (shown : values.mapM (display limit) = .ok texts) :
    ∃ phrases, Phrase.forms phrases = values ∧
      List.Forall₂ Spells (texts.map String.toList) (phrases.map Phrase.tokens) ∧
      ∀ phrase ∈ phrases, Derives limit phrase.tokens phrase.form := by
  induction Result.mapM_eq_ok_iff.mp shown with
  | nil => exact ⟨[], rfl, .nil, fun _ member => by cases member⟩
  | @cons value text values texts own rest ih =>
      obtain ⟨tokens, spells, derived⟩ := each value List.mem_cons_self text own
      obtain ⟨phrases, rfl, spellings, derivations⟩ :=
        ih (fun other member => each other (List.mem_cons_of_mem value member))
          (Result.mapM_eq_ok_iff.mpr rest)
      refine ⟨⟨tokens, value⟩ :: phrases, rfl, .cons spells spellings, ?_⟩
      rintro phrase (_ | ⟨_, member⟩)
      · exact derived
      · exact derivations phrase member

/-- The items of a list spell their phrases with blanks in between. -/
theorem Spelled.items {limit : Nat} {items : List Value} {texts : List String}
    (each : ∀ item ∈ items, Spelled limit item) (nonempty : items ≠ [])
    (shown : items.mapM (display limit) = .ok texts) :
    ∃ phrases, phrases ≠ [] ∧ Phrase.forms phrases = items ∧
      Spells (" ".intercalate texts).toList (Phrase.spread phrases) ∧
      ∀ phrase ∈ phrases, Derives limit phrase.tokens phrase.form := by
  obtain ⟨phrases, rfl, spellings, derivations⟩ := Spelled.phrases each shown
  have some : phrases ≠ [] := by
    rintro rfl
    exact nonempty rfl
  refine ⟨phrases, some, rfl, ?_, derivations⟩
  rw [String.toList_intercalate, Phrase.spread, List.flatMap_def]
  apply Spells.intercalate spellings
  intro none
  rw [none] at spellings
  exact some (List.map_eq_nil_iff.mp (List.forall₂_nil_left_iff.mp spellings))

theorem Spelled.quoted {limit : Nat} {inner : Value} (spelled : Spelled limit inner) :
    Spelled (limit + 1) (.quoted inner) := by
  intro text shown
  obtain ⟨own, found, rfl⟩ := display_quoted_eq_ok_iff.mp shown
  obtain ⟨tokens, spells, derived⟩ := spelled own found
  refine ⟨.quote :: tokens, ?_, .quote derived⟩
  rw [String.toList_append]
  exact spells.tick

theorem Spelled.proper {limit : Nat} {items : List Value}
    (each : ∀ item ∈ items, Spelled limit item) (nonempty : items ≠ [])
    (notOneList : ∀ inner terminator, items ≠ [.list inner terminator]) :
    Spelled (limit + 1) (.list items .nil) := by
  intro text shown
  obtain ⟨texts, found, rfl⟩ := display_proper_eq_ok_iff.mp shown
  obtain ⟨phrases, some, rfl, spells, derivations⟩ := Spelled.items each nonempty found
  refine ⟨_, ?_, .proper derivations some notOneList⟩
  simpa using spells.parens

theorem Spelled.dotted {limit : Nat} {items : List Value} {terminator : Value}
    (each : ∀ item ∈ items, Spelled limit item) (nonempty : items ≠ [])
    (last : Spelled limit terminator) (notList : terminator.isOf .list = false)
    (notNil : terminator.isNil = false) : Spelled (limit + 1) (.list items terminator) := by
  intro text shown
  obtain ⟨texts, ending, found, ended, rfl⟩ := (display_dotted_eq_ok_iff notNil).mp shown
  obtain ⟨phrases, some, rfl, spells, derivations⟩ := Spelled.items each nonempty found
  obtain ⟨tokens, lastSpells, lastDerived⟩ := last ending ended
  refine ⟨_, ?_, .dotted derivations some lastDerived notList⟩
  have whole := ((spells.separated .dot).separated lastSpells).parens
  simpa using whole

theorem Readable.spelled {value : Value} (readable : value.Readable) (limit : Nat) :
    Spelled limit value := by
  induction readable generalizing limit with
  | nil =>
      have spells : Spells "NIL".toList [.symbol "NIL"] := .word (by decide) (by decide) rfl
      exact .atom (fun _ => rfl) spells (.nil (by decide))
  | truth =>
      have spells : Spells "T".toList [.symbol "T"] := .word (by decide) (by decide) rfl
      exact .atom (fun _ => rfl) spells (.truth (by decide))
  | integer above below =>
      have fits := inRange_of_bounds above below
      exact .atom (display_inRange fits) (.integer fits) (.integer _)
  | string text => exact .atom (fun _ => rfl) (.string text) (.string text)
  | float numeric exact => exact .atom (fun _ => rfl) (.float numeric exact) (.float _)
  | @symbol name folded notTruth notNil alone =>
      have denoted : Token.Denotes (.symbol name) (.symbol name) := by
        have own := Token.Denotes.symbol (folded.symm ▸ notTruth) (folded.symm ▸ notNil)
        rwa [folded] at own
      rw [Lexer.ofText, Lexer.outcomes_ofSource] at alone
      exact .atom (fun _ => rfl) (.name alone) denoted
  | quoted readable ih =>
      cases limit with
      | zero => exact fun _ impossible => by cases impossible
      | succ limit => exact .quoted (ih limit)
  | proper each nonempty notOneList ih =>
      cases limit with
      | zero => exact fun _ impossible => by cases impossible
      | succ limit =>
          exact .proper (fun item member => ih item member limit) nonempty notOneList
  | dotted each nonempty last notList notNil ih ended =>
      cases limit with
      | zero => exact fun _ impossible => by cases impossible
      | succ limit =>
          exact .dotted (fun item member => ih item member limit) nonempty (ended limit) notList
            notNil

end Value

/-! ## Reading back -/

namespace Form

/-- Phrases whose forms can be printed are read one after the other. -/
theorem readAll_spread {limit : Nat} {phrases : List Phrase}
    (each : ∀ phrase ∈ phrases, Derives limit phrase.tokens phrase.form)
    (shown : ∀ form ∈ Phrase.forms phrases, ∃ text, form.display limit = .ok text) :
    readAll limit (Phrase.spread phrases) = (.ok (Phrase.forms phrases), []) := by
  induction phrases with
  | nil =>
      have ended : read limit ([] : List Token) = (.error (.parse .emptyInput), []) := by
        rw [read, readFrom_nil]
        rfl
      exact readAll_end ended
  | cons phrase phrases ih =>
      have own := (each phrase List.mem_cons_self).readFrom_start (Phrase.spread phrases)
      have first := read_eq_ok_iff.mpr ⟨own, shown phrase.form List.mem_cons_self⟩
      have others := ih (fun other member => each other (List.mem_cons_of_mem phrase member))
        fun form member => shown form (List.mem_cons_of_mem phrase.form member)
      rw [Phrase.spread_cons, readAll_ok first, others]
      rfl

/-- A text that lexes into tokens is read like the tokens, in reads of any size. -/
theorem readAll_ofSource {text : String} {tokens : List Token}
    (spelled : (Lexer.ofChars text.toList).outcomes = tokens.map .ok) (limit size : Nat) :
    (readAll limit (Lexer.ofSource size (.text text))).1 = (readAll limit tokens).1 := by
  rw [← Lexer.outcomes_ofSource size] at spelled
  exact (readAll_alike Lexer.alike_outcomes limit spelled).1

end Form

/-- Texts in order with one or more blanks between each two. -/
inductive Spaced : List String → String → Prop where
  | nothing : Spaced [] ""
  | one (text : String) : Spaced [text] text
  | more {first second separator source : String} {texts : List String}
      (nonempty : separator ≠ "")
      (blank : ∀ char ∈ separator.toList, char ∈ [' ', '\t', '\r', '\n'])
      (later : Spaced (second :: texts) source) :
      Spaced (first :: second :: texts) (first ++ separator ++ source)

theorem separates_of_blank {char : Char} (blank : char ∈ [' ', '\t', '\r', '\n']) :
    (Role.ofChar char).separates = true := by
  simp only [List.mem_cons, List.not_mem_nil, or_false] at blank
  rcases blank with rfl | rfl | rfl | rfl <;> rfl

theorem endsWord_of_blanks {separator : String} (nonempty : separator ≠ "")
    (blank : ∀ char ∈ separator.toList, char ∈ [' ', '\t', '\r', '\n']) (rest : List Char) :
    EndsWord (separator.toList ++ rest) := by
  cases chars : separator.toList with
  | nil => exact absurd (String.toList_eq_nil_iff.mp chars) nonempty
  | cons first others =>
      rintro char ⟨⟩
      have skipped := separates_of_blank (blank first (chars ▸ List.mem_cons_self))
      cases role : Role.ofChar first <;> simp [role, Role.separates] at skipped <;> rfl

theorem Lexer.outcomes_blanks {blanks : List Char}
    (blank : ∀ char ∈ blanks, char ∈ [' ', '\t', '\r', '\n']) (rest : List Char) :
    (ofChars (blanks ++ rest)).outcomes = (ofChars rest).outcomes := by
  induction blanks with
  | nil => rfl
  | cons char blanks ih =>
      rw [List.cons_append, outcomes_separator (separates_of_blank (blank char List.mem_cons_self)),
        ih fun other member => blank other (List.mem_cons_of_mem char member)]

/-- Spaced texts lex into the tokens they spell. -/
theorem Spaced.outcomes {texts : List String} {source : String} (spaced : Spaced texts source)
    {phrases : List (List Token)}
    (each : List.Forall₂ Spells (texts.map String.toList) phrases) :
    (Lexer.ofChars source.toList).outcomes = phrases.flatten.map .ok := by
  induction spaced generalizing phrases with
  | nothing =>
      cases each
      exact Lexer.outcomes_nil
  | one text =>
      obtain _ | ⟨spells, _ | _⟩ := each
      have whole := spells [] (by rintro char ⟨⟩)
      rw [List.append_nil, Lexer.outcomes_nil] at whole
      simpa using whole
  | @more first second separator source texts nonempty blank later ih =>
      obtain _ | ⟨spells, others⟩ := each
      have ends := endsWord_of_blanks nonempty blank source.toList
      rw [String.toList_append, String.toList_append, List.append_assoc, spells _ ends,
        Lexer.outcomes_blanks blank, ih others, List.flatten_cons, List.map_append]

/-- Readable values are read back from their texts with blanks in between, in reads of any size.
They have texts once the limit is high enough, and whatever limit lets them be printed lets them be
read. -/
theorem readAll_of_display {values : List Value}
    (readable : ∀ value ∈ values, value.Readable) :
    (∃ depth, ∀ limit, depth < limit → ∃ texts, values.mapM (Value.display limit) = .ok texts) ∧
      ∀ limit size texts source, values.mapM (Value.display limit) = .ok texts →
        Spaced texts source →
          (Form.readAll limit (Lexer.ofSource size (.text source))).1 = .ok values := by
  constructor
  · obtain ⟨depth, shown⟩ :=
      Value.printable_all fun value member => (readable value member).printable
    exact ⟨depth, fun limit enough => Result.exists_mapM_eq_ok (shown limit enough)⟩
  · intro limit size texts source shown spaced
    obtain ⟨phrases, rfl, spellings, derivations⟩ :=
      Value.Spelled.phrases (fun value member => (readable value member).spelled limit) shown
    have lexed := spaced.outcomes spellings
    rw [← List.flatMap_def] at lexed
    rw [readAll_ofSource lexed, ← Phrase.spread,
      readAll_spread derivations (Result.exists_of_mapM_eq_ok shown)]

/-- The texts of a dotted list with a string that holds a quote and a quoted number in it, and of a
name, on two lines. -/
theorem readAll_of_display_dotted :
    (Form.readAll 3 (Lexer.ofSource 2 (.text "(\"a\\\"\" '-7 . T)\n\tCAR"))).1 =
      .ok [.list [.string "a\"", .quoted (.integer (-7))] .truth, .symbol "CAR"] := by
  have name : Spells "CAR".toList [.symbol "CAR"] := .word (by decide) (by decide) rfl
  have alone : (Lexer.ofText "CAR").outcomes = [.ok (.symbol "CAR")] := by
    have whole := name [] (by rintro char ⟨⟩)
    rw [List.append_nil, Lexer.outcomes_nil] at whole
    rw [Lexer.ofText, Lexer.outcomes_ofSource, whole]
    rfl
  have items : ∀ item ∈ [Value.string "a\"", .quoted (.integer (-7))], item.Readable := by
    rintro item (_ | ⟨_, _ | ⟨_, ⟨⟩⟩⟩)
    · exact .string "a\""
    · exact .quoted (.integer (by decide) (by decide))
  have readable : ∀ value ∈ [Value.list [.string "a\"", .quoted (.integer (-7))] .truth,
      .symbol "CAR"], value.Readable := by
    rintro value (_ | ⟨_, _ | ⟨_, ⟨⟩⟩⟩)
    · exact .dotted items (List.cons_ne_nil _ _) .truth rfl rfl
    · exact .symbol (by decide) (by decide) (by decide) alone
  have spaced : Spaced ["(\"a\\\"\" '-7 . T)", "CAR"]
      ("(\"a\\\"\" '-7 . T)" ++ "\n\t" ++ "CAR") :=
    .more (by decide) (by simp) (.one "CAR")
  have number : (Value.quoted (.integer (-7))).display 2 = .ok "'-7" :=
    Value.display_quoted_eq_ok_iff.mpr ⟨"-7", Value.display_inRange rfl 0, rfl⟩
  have inner : [Value.string "a\"", .quoted (.integer (-7))].mapM (Value.display 2) =
      .ok ["\"a\\\"\"", "'-7"] :=
    Result.mapM_eq_ok_iff.mpr (.cons rfl (.cons number .nil))
  have list : (Value.list [.string "a\"", .quoted (.integer (-7))] .truth).display 3 =
      .ok "(\"a\\\"\" '-7 . T)" :=
    (Value.display_dotted_eq_ok_iff rfl).mpr ⟨_, "T", inner, rfl, rfl⟩
  exact (readAll_of_display readable).2 3 2 _ _
    (Result.mapM_eq_ok_iff.mpr (.cons list (.cons rfl .nil))) spaced

end ConsLisp
