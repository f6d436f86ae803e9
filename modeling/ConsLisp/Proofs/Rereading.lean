import ConsLisp.Proofs.Form.Behind
import ConsLisp.Proofs.Value.Depth

/-!
# Forms that are read again

A form that was read is read back from its text exactly if the printer has a text for all its atoms.
In one direction the text spells tokens that derive the form.  In the other direction, from the
first atom without a text on, a scan of the text falls behind the atoms that are printed in it.
-/

namespace ConsLisp

open Form Scan

/-- A text is read as the forms of the phrases that its tokens are. -/
theorem Form.readAll_of_lex {limit : Nat} {text : String} {phrases : List Phrase}
    (lexed : Alphabet.characters.lex text.toList = (Phrase.spread phrases).map .ok)
    (each : ∀ phrase ∈ phrases, Derives limit phrase.tokens phrase.form)
    (shown : ∀ form ∈ Phrase.forms phrases, ∃ text, form.display limit = .ok text) (size : Nat) :
    (readAll limit (Lexer.ofSource size (.text text))).1 = .ok (Phrase.forms phrases) := by
  rw [← Lexer.outcomes_text size, Lexer.outcomes_ofSource] at lexed
  rw [readAll_ofSource lexed, readAll_spread each shown]

theorem Form.readAll_of_derives {limit : Nat} {tokens : List Token} {value : Value}
    (derived : Derives limit tokens value) {text printed : String}
    (lexed : Alphabet.characters.lex text.toList = tokens.map .ok)
    (shown : value.display limit = .ok printed) (size : Nat) :
    (readAll limit (Lexer.ofSource size (.text text))).1 = .ok [value] := by
  rw [← List.append_nil tokens] at lexed
  exact @readAll_of_lex limit text [⟨tokens, value⟩] lexed (List.forall_mem_singleton.mpr derived)
    (List.forall_mem_singleton.mpr ⟨printed, shown⟩) size

namespace Value

/-- A list with nothing but one list in it, which is read as the list inside. -/
inductive Nested : Value → Prop where
  | intro (items : List Value) (terminator : Value) : Nested (.list [.list items terminator] .nil)

/-- The value has a text that is read as this value alone, in reads of any size. -/
def ReadsBack (limit : Nat) (value : Value) : Prop :=
  ∃ text, value.display limit = .ok text ∧
    ∀ size, (Form.readAll limit (Lexer.ofSource size (.text text))).1 = .ok [value]

end Value

theorem Lexer.outcomes_ofChars (chars : List Char) :
    (ofChars chars).outcomes = Alphabet.characters.lex chars := by
  rw [← String.toList_ofList (l := chars), ← outcomes_ofSource 0, outcomes_text]

theorem Spells.lex_eq {text : List Char} {tokens : List Token} (spells : Spells text tokens) :
    Alphabet.characters.lex text = tokens.map .ok := by
  have whole := spells [] (by rintro char ⟨⟩)
  rwa [List.append_nil, Lexer.outcomes_nil, List.append_nil, Lexer.outcomes_ofChars] at whole

/-! ## Forms that are read back -/

namespace Value

/-- A text that spells a value is read as the value, also under a larger limit. -/
theorem Spelled.readAll {limit room : Nat} {value : Value} (spelled : Spelled limit value)
    {text : String} (shown : value.display limit = .ok text) (within : limit ≤ room) (size : Nat) :
    (readAll room (Lexer.ofSource size (.text text))).1 = .ok [value] := by
  obtain ⟨tokens, spells, derived⟩ := spelled text shown
  have deeper := (display_deepens within value).ok_of_ok shown
  exact readAll_of_derives (derived.mono within) spells.lex_eq deeper size

theorem Readable.readsBack {limit : Nat} {value : Value} (readable : value.Readable)
    {text : String} (shown : value.display limit = .ok text) : value.ReadsBack limit :=
  ⟨text, shown, (readable.spelled limit).readAll shown le_rfl⟩

/-- What is made of the tokens of a lexer is readable, apart from what is known not to be. -/
theorem Readable.of_madeOf {given : Token → Prop} {value : Value} (made : MadeOf given value)
    (fits : ∀ token, given token → token.IsLiteral) (writable : value.Without Unwritable)
    (notNested : value.Without Nested) : value.Readable := by
  induction made with
  | nil => exact .nil
  | atom own denoted => exact .of_denotes denoted (fits _ own) (writable _ .here)
  | quoted inner ih =>
      exact .quoted (ih (without_quoted.mp writable).2 (without_quoted.mp notNested).2)
  | @list items terminator nonempty each last notList ih ended =>
      obtain ⟨_, written, lastWritten⟩ := without_list.mp writable
      obtain ⟨own, apart, lastApart⟩ := without_list.mp notNested
      have readable : ∀ item ∈ items, item.Readable := fun item member =>
        ih item member (written item member) (apart item member)
      cases nil : terminator.isNil with
      | true =>
          obtain rfl := isNil_iff.mp nil
          refine .proper readable nonempty ?_
          rintro inner terminator rfl
          exact own (.intro inner terminator)
      | false => exact .dotted readable nonempty (ended lastWritten lastApart) notList nil

end Value

/-! ## Forms that are not read back -/

/-- The text of an atom that the printer has no text for does not give the atom. -/
theorem Scan.misses_of_unwritable {token : Token} {leaf : Value} (denoted : token.Denotes leaf)
    (unwritable : leaf.Unwritable) {limit : Nat} {text : String}
    (shown : leaf.display limit = .ok text) : Misses leaf text.toList := by
  cases limit with
  | zero => cases shown
  | succ limit =>
      cases unwritable with
      | symbol notName =>
          cases denoted
          cases shown
          exact misses_symbol (Text.fold_fold _) List.suffix_rfl (.inr notName)
      | @float number notFinite =>
          cases shown
          have plain := lexemes_receive (Number.ordinary_positionalFloatText number) start
          have word : ∃ name, (start.receive (Number.positionalFloatText number).toList).leaf? =
              some (.symbol name) := by
            have texts := Number.positionalFloatText_of_not_finite notFinite
            simp only [List.mem_cons, List.not_mem_nil, or_false] at texts
            rcases texts with text | text | text <;> rw [text] <;> exact ⟨_, rfl⟩
          obtain ⟨name, read⟩ := word
          have settled := @settled_lexemes _ Role.ofChar start settled_start
            (Number.positionalFloatText number).toList
          rw [plain] at settled
          constructor
          · rw [plain]
            exact fun _ member => by cases member
          · rw [plain]
            exact .word rfl rfl settled rfl fun given => by cases read.symm.trans given

theorem Layout.endsWord {chars : List Char} {leaves : List Value}
    (layout : Layout true chars leaves) : EndsWord chars := by
  cases layout with
  | empty => rintro char ⟨⟩
  | closing own rest =>
      rintro char ⟨⟩
      rcases own with rfl | rfl <;> rfl

theorem Spells.leaves {text rest : List Char} {tokens : List Token} (spells : Spells text tokens)
    (ends : EndsWord rest) :
    start.leaves (text ++ rest) = tokens.filterMap Token.leaf? ++ start.leaves rest := by
  have lexed := spells rest ends
  rw [Lexer.outcomes_ofChars, Lexer.outcomes_ofChars] at lexed
  rw [leaves_start, leaves_start, lexed, List.filterMap_append, List.filterMap_map]
  rfl

/-- Where a text gives the leaves laid out in it, the printer has a text for all of them. -/
theorem Layout.writable {free : Bool} {chars : List Char} {leaves : List Value}
    (layout : Layout free chars leaves) (same : start.leaves chars = leaves) :
    ∀ leaf ∈ leaves, ¬ leaf.Unwritable := by
  have mark {char : Char} (own : char = ' ' ∨ char = ')' ∨ char = '(' ∨ char = '\'')
      (chars : List Char) : start.leaves (char :: chars) = start.leaves chars := by
    obtain ⟨nothing, fresh⟩ := mark_start own
    rw [leaves_cons, fresh, List.filterMap_eq_nil_iff.mpr nothing, List.nil_append]
  induction layout with
  | empty => exact fun _ member => by cases member
  | closing own rest ih => exact ih (mark (own.imp_right .inl) _ ▸ same)
  | opening own rest ih => exact ih (mark (.inr (.inr own)) _ ▸ same)
  | word own rest ih =>
      refine ih ?_
      rcases own with rfl | rfl
      · have spells : Spells "NIL".toList [.symbol "NIL"] := .word (by decide) (by decide) rfl
        exact (spells.leaves rest.endsWord).symm.trans same
      · exact (Spells.dot.leaves rest.endsWord).symm.trans same
  | @leaf token leaf limit text chars leaves denoted fits notNil shown rest ih =>
      by_cases unwritable : leaf.Unwritable
      · have misses := misses_of_unwritable denoted unwritable shown
        have stuck := @not_caught_up _ _ _ rest _ [] _ fun _ => misses.behind
        exact absurd same (misses.leaves_ne stuck)
      · obtain ⟨tokens, spells, derived⟩ :=
          (Value.Readable.of_denotes denoted fits unwritable).spelled limit text shown
        rw [spells.leaves rest.endsWord, derived.leaves, denoted.leaves notNil] at same
        exact List.forall_mem_cons.mpr ⟨unwritable, ih (List.cons.inj same).2⟩

/-- A text that is read as one form lexes into the tokens of that form. -/
theorem Form.exists_tokens_of_readAll {limit : Nat} {text : String} {value : Value}
    (alone : (readAll limit (Lexer.ofSource 0 (.text text))).1 = .ok [value]) :
    ∃ tokens, Alphabet.characters.lex text.toList = tokens.map .ok ∧
      Derives limit tokens value := by
  have yields := yields_of_readAll alone
  obtain ⟨tokens, same⟩ := Lexer.exists_tokens_of_yields yields
  obtain ⟨rest, step, ended⟩ := yields_cons_iff.mp ((Lexer.yields_iff_of_outcomes same).mp yields)
  obtain ⟨taken, rfl, derived, _⟩ := read_eq_ok_iff_derives.mp step
  obtain ⟨last, empty⟩ := yields_nil_iff.mp ended
  rw [Lexer.outcomes_text] at same
  cases rest with
  | nil => exact ⟨taken, by simpa using same, derived⟩
  | cons token rest => cases next_of_emptyInput empty

/-- A form that is read back holds no atom that the printer has no text for. -/
theorem Value.ReadsBack.writable {limit : Nat} {value : Value} (back : value.ReadsBack limit)
    {given : Token → Prop} (made : MadeOf given value)
    (fits : ∀ token, given token → token.IsLiteral) : value.Without Unwritable := by
  obtain ⟨text, shown, read⟩ := back
  obtain ⟨tokens, lexed, derived⟩ := exists_tokens_of_readAll (read 0)
  have given : start.leaves text.toList = value.leaves := by
    rw [leaves_start, lexed, List.filterMap_map]
    exact derived.leaves
  have layout := made.layout fits limit text shown [] [] .empty
  rw [List.append_nil, List.append_nil] at layout
  intro part occurs unwritable
  have alone : part.leaves = [part] := by
    cases unwritable <;> rfl
  exact layout.writable given part (made.mem_leaves occurs alone) unwritable

/-- A form that is read from a text, and holds no list with nothing but one list in it, is read back
from its own text exactly if all its names are single tokens and all its floats are finite.  Without
backslashes in the text all its names are single tokens. -/
theorem readsBack_iff_writable {limit size : Nat} {text : String} {forms : List Value}
    (accepted : (Form.readAll limit (Lexer.ofSource size (.text text))).1 = .ok forms)
    {form : Value} (member : form ∈ forms) (notNested : form.Without Value.Nested) :
    (form.ReadsBack limit ↔ form.Without Value.Unwritable) ∧
      ('\\' ∉ text.toList → ∀ name, (Value.symbol name).Occurs form → Token.IsName name) := by
  obtain ⟨tokens, own, derived, printed, shown⟩ := exists_derives_of_readAll accepted member
  have made := derived.madeOf own
  have fits : ∀ token, .ok token ∈ (Lexer.ofSource size (.text text)).outcomes →
      token.IsLiteral := fun token => Lexer.all_outcomes Token.isLiteral_of_ofLexeme
  refine ⟨⟨fun back => back.writable made fits, fun writable => ?_⟩, fun noEscape name occurs => ?_⟩
  · exact (Value.Readable.of_madeOf made fits writable notNested).readsBack shown
  · obtain ⟨token, inside, denoted⟩ := made.symbol_of_occurs occurs
    cases denoted
    rw [Lexer.outcomes_text] at inside
    exact Alphabet.isName_of_mem_lex noEscape inside

/-- The dotted pair of a name that folding makes longer and a float is read back. -/
theorem readsBack_iff_writable_pair :
    (Value.list [.symbol "STRASSE"] (.float 0.5)).ReadsBack 2 := by
  have number : Token.ofWord ['0', '.', '5'] = .ok (.float 0.5) := by
    have read : Number.Literal.float? ['0', '.', '5'] = some 0.5 := by decide +kernel
    rw [Token.ofWord, read]
    rfl
  have lexed : Alphabet.characters.lex "(straße . 0.5)".toList =
      [.ok .parenLeft, .ok (.symbol "straße"), .ok .dot, Token.ofWord ['0', '.', '5'],
        .ok .parenRight] := rfl
  rw [number] at lexed
  have name : Derives 1 [.symbol "straße"] (.symbol "STRASSE") :=
    .atom (@Token.Denotes.symbol "straße" (by decide) (by decide))
  have derived : Derives 2 [.parenLeft, .symbol "straße", .dot, .float 0.5, .parenRight]
      (.list [.symbol "STRASSE"] (.float 0.5)) :=
    @Derives.dotted 1 [⟨[.symbol "straße"], .symbol "STRASSE"⟩] [.float 0.5] (.float 0.5)
      (List.forall_mem_singleton.mpr name) (List.cons_ne_nil _ _) (.atom (.float 0.5)) rfl
  have accepted := readAll_of_derives derived lexed rfl 1
  have plain : ∀ {kind : Value → Prop}, ¬ kind (.symbol "STRASSE") → ¬ kind (.float 0.5) →
      ¬ kind (.list [.symbol "STRASSE"] (.float 0.5)) →
      (Value.list [.symbol "STRASSE"] (.float 0.5)).Without kind := by
    intro kind symbol float list
    refine Value.without_list.mpr ⟨list, List.forall_mem_singleton.mpr ?_, ?_⟩ <;> rintro part ⟨⟩
    · exact symbol
    · exact float
  have single : Token.IsName "STRASSE" := Token.isName_iff.mpr rfl
  have finite : (Number.Binary.ofFloat 0.5).isFinite = true := by decide +kernel
  refine (readsBack_iff_writable accepted List.mem_cons_self
    (plain nofun nofun nofun)).1.mpr (plain ?_ ?_ nofun)
  · rintro ⟨notName⟩
    exact notName single
  · intro infinite
    cases infinite with
    | float notFinite => cases finite.symm.trans notFinite

/-- A name with a blank in it is written as two names. -/
theorem blank_in_name_is_not_read_back :
    (Form.readAll 1000 (Lexer.ofSource 1 (.text "a\\ b"))).1 = .ok [.symbol "A B"] ∧
      (Value.symbol "A B").display 1000 = .ok "A B" ∧
      (Form.readAll 1000 (Lexer.ofSource 1 (.text "A B"))).1 = .ok [.symbol "A", .symbol "B"] := by
  have name (text : String) (notTruth : Text.fold text ≠ "T") (notNil : Text.fold text ≠ "NIL") :
      Derives 1000 [.symbol text] (.symbol (Text.fold text)) :=
    .atom (.symbol notTruth notNil)
  have whole := name "a b" (by decide) (by decide)
  have first := name "A" (by decide) (by decide)
  have second := name "B" (by decide) (by decide)
  refine ⟨?_, rfl, ?_⟩
  · exact readAll_of_derives whole rfl rfl 1
  · exact @readAll_of_lex _ _ [⟨_, _⟩, ⟨_, _⟩] rfl
      (List.forall_mem_cons.mpr ⟨first, List.forall_mem_singleton.mpr second⟩)
      (List.forall_mem_cons.mpr ⟨⟨_, rfl⟩, List.forall_mem_singleton.mpr ⟨_, rfl⟩⟩) 1

end ConsLisp
