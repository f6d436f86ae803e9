import ConsLisp.Proofs.Parameter.Syntax
import ConsLisp.Proofs.Rereading

/-!
# Parameter lists that are read again

The text of a parameter list is the text of a form, which writes the parameters in the documented
syntax.  When the names and the defaults are read back from their texts, this form is the one that
is read from the text of the list, and it stands for the same parameters.
-/

namespace ConsLisp

open Form

/-! ## Values that are read back -/

theorem Spells.exists_intercalate {texts : List String}
    (each : ∀ text ∈ texts, ∃ tokens, Spells text.toList tokens) (nonempty : texts ≠ []) :
    ∃ tokens, Spells (" ".intercalate texts).toList tokens := by
  induction texts with
  | nil => exact absurd rfl nonempty
  | cons text texts ih =>
      obtain ⟨⟨tokens, spells⟩, others⟩ := List.forall_mem_cons.mp each
      cases texts with
      | nil => exact ⟨tokens, by rwa [String.intercalate_singleton]⟩
      | cons second texts =>
          obtain ⟨more, later⟩ := ih others (List.cons_ne_nil _ _)
          have whole := spells.separated later
          exact ⟨tokens ++ more, by simpa [String.intercalate_cons_cons] using whole⟩

/-- Without atoms that the printer has no text for, any text of a value spells tokens. -/
theorem Form.MadeOf.exists_spells {given : Token → Prop} {value : Value}
    (made : MadeOf given value) (fits : ∀ token, given token → token.IsLiteral)
    (writable : value.Without Value.Unwritable) {limit : Nat} {text : String}
    (shown : value.display limit = .ok text) : ∃ tokens, Spells text.toList tokens := by
  -- Every part is printed within a lower limit, which reaches items and terminators alike.
  induction limit generalizing value text with
  | zero => cases shown
  | succ limit ih =>
      cases made with
      | nil =>
          obtain ⟨tokens, spells, _⟩ := Value.Readable.nil.spelled _ text shown
          exact ⟨tokens, spells⟩
      | atom own denoted =>
          have readable := Value.Readable.of_denotes denoted (fits _ own) (writable _ .here)
          obtain ⟨tokens, spells, _⟩ := readable.spelled _ text shown
          exact ⟨tokens, spells⟩
      | quoted inner =>
          obtain ⟨own, found, rfl⟩ := Value.display_quoted_eq_ok_iff.mp shown
          obtain ⟨tokens, spells⟩ := ih inner (Value.without_quoted.mp writable).2 found
          exact ⟨_, by simpa using spells.tick⟩
      | @list items terminator nonempty each last notList =>
          obtain ⟨_, written, lastWritten⟩ := Value.without_list.mp writable
          have items {texts : List String} (found : items.mapM (Value.display limit) = .ok texts) :
              ∃ tokens, Spells (" ".intercalate texts).toList tokens := by
            refine Spells.exists_intercalate (fun text member => ?_) ?_
            · obtain ⟨item, inside, own⟩ := Result.exists_item_of_mapM_eq_ok found text member
              exact ih (each item inside) (written item inside) own
            · rintro rfl
              exact nonempty (List.forall₂_nil_right_iff.mp (Result.mapM_eq_ok_iff.mp found))
          cases nil : terminator.isNil with
          | true =>
              obtain rfl := Value.isNil_iff.mp nil
              obtain ⟨texts, found, rfl⟩ := Value.display_proper_eq_ok_iff.mp shown
              obtain ⟨tokens, spells⟩ := items found
              exact ⟨_, by simpa using spells.parens⟩
          | false =>
              obtain ⟨texts, ending, found, ended, rfl⟩ :=
                (Value.display_dotted_eq_ok_iff nil).mp shown
              obtain ⟨tokens, spells⟩ := items found
              obtain ⟨more, lastSpells⟩ := ih last lastWritten ended
              exact ⟨_, by simpa using ((spells.separated .dot).separated lastSpells).parens⟩

namespace Value

/-- A folded name without symbols of a special role. -/
theorem Readable.name {name : String}
    (word : name.toList ≠ [] ∧ name.toList.all (Role.ofChar · = .ordinary) = true)
    (given : Token.classify (Text.Utf8.encode name) = .ok (.symbol name))
    (folded : Text.fold name = name ∧ name ≠ "T" ∧ name ≠ "NIL") :
    (Value.symbol name).Readable := by
  have spells : Spells name.toList [.symbol name] := .word word.1 word.2 given
  refine .symbol folded.1 folded.2.1 folded.2.2 ?_
  rw [Lexer.ofText, Lexer.outcomes_text, spells.lex_eq]
  rfl

/-- A value that is read back spells the tokens that derive it, also inside of other values. -/
theorem ReadsBack.spelled {limit more : Nat} {value : Value} (back : value.ReadsBack limit)
    (within : limit ≤ more) : Spelled more value := by
  obtain ⟨text, shown, read⟩ := back
  intro other found
  obtain rfl := Except.ok.inj (((display_deepens within value).ok_of_ok shown).symm.trans found)
  obtain ⟨tokens, lexed, derived⟩ := exists_tokens_of_readAll (read 0)
  have own : ∀ token ∈ tokens, .ok token ∈ (Lexer.ofSource 0 (.text text)).outcomes := by
    intro token member
    rw [Lexer.outcomes_text, lexed]
    exact List.mem_map_of_mem member
  have made := derived.madeOf own
  have fits : ∀ token, .ok token ∈ (Lexer.ofSource 0 (.text text)).outcomes → token.IsLiteral :=
    fun token => Lexer.all_outcomes Token.isLiteral_of_ofLexeme
  obtain ⟨others, spells⟩ :=
    made.exists_spells fits (ReadsBack.writable ⟨text, shown, read⟩ made fits) shown
  -- The text lexes into what it spells, so these are the tokens it was read from.
  have same : others = tokens := by
    exact List.map_injective_iff.mpr (fun _ _ => Except.ok.inj) (spells.lex_eq.symm.trans lexed)
  exact ⟨tokens, same ▸ spells, derived.mono within⟩

end Value

namespace Parameter

/-! ## The form that a parameter list is written as -/

def ownEntries (parameter : Parameter) : List Value :=
  match parameter.mode with
  | .normal => [.symbol parameter.name]
  | .optional => [.list [.symbol parameter.name, parameter.default] .nil]
  | .plain | .rest => [.symbol parameter.mode.marker, .symbol parameter.name]

/-- The entries of parameters one after the other.  The first optional parameter is announced by its
marker. -/
def toEntries : Bool → List Parameter → List Value
  | _, [] => []
  | announced, parameter :: parameters =>
      if parameter.mode = .optional && !announced then
        .symbol Mode.optional.marker :: (parameter.ownEntries ++ toEntries true parameters)
      else parameter.ownEntries ++ toEntries announced parameters

def toForm (parameters : List Parameter) : Value :=
  if parameters.isEmpty then .nil else .list (toEntries false parameters) .nil

/-- Texts that are put together into parts, with blanks in between. -/
inductive Grouped : List String → List String → Prop where
  | nil : Grouped [] []
  | cons {own texts parts : List String} (nonempty : own ≠ []) (later : Grouped texts parts) :
      Grouped (own ++ texts) (" ".intercalate own :: parts)

theorem Grouped.intercalate_eq {texts parts : List String} (grouped : Grouped texts parts) :
    " ".intercalate texts = " ".intercalate parts := by
  induction grouped with
  | nil => rfl
  | @cons own texts parts nonempty later ih =>
      cases later with
      | nil => rw [List.append_nil, String.intercalate_singleton]
      | @cons second others _ more =>
          rw [String.intercalate_append_of_ne_nil nonempty
            (List.append_ne_nil_of_left_ne_nil more _), ih, String.intercalate_cons_cons]

theorem intercalate_pair (first second : String) :
    " ".intercalate [first, second] = first ++ " " ++ second := by
  rw [String.intercalate_cons_cons, String.intercalate_singleton]

theorem exists_texts_ownEntries {limit : Nat} {parameter : Parameter} {part : String}
    (shown : parameter.display (Value.display (limit + 1)) = .ok part) :
    ∃ texts, texts ≠ [] ∧ parameter.ownEntries.mapM (Value.display (limit + 2)) = .ok texts ∧
      " ".intercalate texts = part := by
  obtain ⟨mode, name, default⟩ := parameter
  cases mode with
  | normal =>
      cases shown
      exact ⟨[name], List.cons_ne_nil _ _, rfl, String.intercalate_singleton⟩
  | plain =>
      cases shown
      exact ⟨[Mode.plain.marker, name], List.cons_ne_nil _ _, rfl, intercalate_pair _ _⟩
  | rest =>
      cases shown
      exact ⟨[Mode.rest.marker, name], List.cons_ne_nil _ _, rfl, intercalate_pair _ _⟩
  | optional =>
      obtain ⟨text, own, same⟩ := Result.bind_eq_ok_iff.mp shown
      have items : [Value.symbol name, default].mapM (Value.display (limit + 1)) =
          .ok [name, text] := Result.mapM_eq_ok_iff.mpr (.cons rfl (.cons own .nil))
      have whole := Value.display_proper_eq_ok_iff.mpr ⟨[name, text], items, rfl⟩
      refine ⟨[_], List.cons_ne_nil _ _, Result.mapM_eq_ok_iff.mpr (.cons whole .nil), ?_⟩
      rw [String.intercalate_singleton, intercalate_pair, ← String.append_assoc,
        ← String.append_assoc]
      exact Except.ok.inj same

theorem exists_texts_toEntries {limit : Nat} {announced : Bool} {parameters : List Parameter}
    {parts : List String}
    (shown : displayParts (Value.display (limit + 1)) announced parameters = .ok parts) :
    ∃ texts, (toEntries announced parameters).mapM (Value.display (limit + 2)) = .ok texts ∧
      Grouped texts parts := by
  induction parameters generalizing announced parts with
  | nil =>
      cases shown
      exact ⟨[], rfl, .nil⟩
  | cons parameter parameters ih =>
      obtain ⟨part, own, composed⟩ := Result.bind_eq_ok_iff.mp shown
      obtain ⟨texts, nonempty, found, rfl⟩ := exists_texts_ownEntries own
      have joined {entries : List Value} {more : List String}
          (rest : entries.mapM (Value.display (limit + 2)) = .ok more) :=
        List.rel_append (Result.mapM_eq_ok_iff.mp found) (Result.mapM_eq_ok_iff.mp rest)
      rw [toEntries]
      split at composed
      next first =>
          obtain ⟨others, later, same⟩ := Result.bind_eq_ok_iff.mp composed
          obtain ⟨more, rest, grouped⟩ := ih later
          cases same
          rw [if_pos first]
          exact ⟨Mode.optional.marker :: (texts ++ more),
            Result.mapM_eq_ok_iff.mpr (.cons rfl (joined rest)),
            .cons (List.cons_ne_nil Mode.optional.marker []) (.cons nonempty grouped)⟩
      next notFirst =>
          obtain ⟨others, later, same⟩ := Result.bind_eq_ok_iff.mp composed
          obtain ⟨more, rest, grouped⟩ := ih later
          cases same
          rw [if_neg notFirst]
          exact ⟨texts ++ more, Result.mapM_eq_ok_iff.mpr (joined rest), .cons nonempty grouped⟩

/-- A parameter list is written like the list of its entries. -/
theorem display_toEntries {limit : Nat} {parameters : List Parameter} {text : String}
    (shown : displayList (Value.display (limit + 1)) parameters = .ok text) :
    (Value.list (toEntries false parameters) .nil).display (limit + 3) = .ok text := by
  obtain ⟨parts, found, same⟩ := Result.bind_eq_ok_iff.mp shown
  obtain ⟨texts, own, grouped⟩ := exists_texts_toEntries found
  refine Value.display_proper_eq_ok_iff.mpr ⟨texts, own, ?_⟩
  rw [grouped.intercalate_eq]
  exact Except.ok.inj same

/-! ## Reading the parameters off the form -/

/-- Only an optional parameter may be called like a marker, or have a default of its own. -/
def Unadorned (parameter : Parameter) : Prop :=
  parameter.mode ≠ .optional → parameter.name ∉ markers ∧ parameter.default = .nil

theorem unadorned_of_reads {among : Bool} {entries : List Value} {parameters : List Parameter}
    (reads : Reads among entries parameters) : ∀ parameter ∈ parameters, parameter.Unadorned := by
  induction reads with
  | nil => exact fun _ member => by cases member
  | marker later ih => exact ih
  | marked modes one later ih =>
      obtain ⟨free⟩ := one
      exact List.forall_mem_cons.mpr ⟨fun _ => ⟨free, rfl⟩, ih⟩
  | normal free later ih => exact List.forall_mem_cons.mpr ⟨fun _ => ⟨free, rfl⟩, ih⟩
  | optional one later ih =>
      refine List.forall_mem_append.mpr ⟨fun parameter member notOptional => ?_, ih⟩
      exact absurd (one.mode_eq parameter member) notOptional

theorem reads_toEntries {announced : Bool} {parameters : List Parameter}
    (each : ∀ parameter ∈ parameters, parameter.Unadorned)
    (ordered : InOrder announced parameters) :
    Reads announced (toEntries announced parameters) parameters := by
  induction ordered with
  | nil => exact .nil
  | @required parameter parameters own others ih =>
      obtain ⟨unadorned, later⟩ := List.forall_mem_cons.mp each
      obtain ⟨mode, name, default⟩ := parameter
      rcases isRequired_iff.mp own with rfl | rfl
      · obtain ⟨free, rfl⟩ := unadorned (by rintro ⟨⟩)
        exact .normal free (ih later)
      · obtain ⟨free, rfl⟩ := unadorned (by rintro ⟨⟩)
        exact .marked (.inl rfl) (.intro free) (ih later)
  | @optional metOptional parameter parameters own others ih =>
      obtain ⟨mode, name, default⟩ := parameter
      obtain rfl : mode = .optional := own
      have later := ih (List.forall_mem_cons.mp each).2
      have one : LooseOptional [.list [.symbol name, default] .nil] [⟨.optional, name, default⟩] :=
        .literal rfl
      cases metOptional with
      | true => exact .optional one later
      | false => exact .marker (.optional one later)
  | @rest metOptional parameter own =>
      obtain ⟨mode, name, default⟩ := parameter
      obtain rfl : mode = .rest := own
      obtain ⟨free, rfl⟩ := each _ List.mem_cons_self (by rintro ⟨⟩)
      exact .marked (.inr rfl) (.intro free) .nil

theorem ofForm_toForm {limit other : Nat} {form : Value} {parameters : List Parameter}
    (accepted : ofForm limit form = .ok parameters) :
    ofForm other (toForm parameters) = .ok parameters := by
  cases ofForm_eq_ok_iff.mp accepted with
  | nil => rfl
  | list sections distinct =>
      have ordered := inOrder_of_sections sections
      have reads := reads_toEntries (unadorned_of_reads (reads_of_sections sections)) ordered
      cases parameters with
      | nil => rfl
      | cons first others =>
          exact ofForm_eq_ok_iff.mpr (.list (sections_of_reads reads rfl ordered) distinct)

/-! ## Reading the form from its text -/

theorem spelled_marker (mode : Mode) (marks : mode ≠ .normal) (limit : Nat) :
    (Value.symbol mode.marker).Spelled limit := by
  cases mode with
  | normal => exact absurd rfl marks
  | plain => exact (Value.Readable.name (by decide) rfl (by decide)).spelled limit
  | rest => exact (Value.Readable.name (by decide) rfl (by decide)).spelled limit
  | optional => exact (Value.Readable.name (by decide) rfl (by decide)).spelled limit

/-- The name and the default of a parameter are read back. -/
def ReadsBack (limit : Nat) (parameter : Parameter) : Prop :=
  (Value.symbol parameter.name).ReadsBack limit ∧ parameter.default.ReadsBack limit

theorem ReadsBack.ownEntries {limit : Nat} {parameter : Parameter}
    (back : parameter.ReadsBack limit) :
    ∀ entry ∈ parameter.ownEntries, entry.Spelled (limit + 1) := by
  obtain ⟨named, defaulted⟩ := back
  obtain ⟨mode, name, default⟩ := parameter
  have own := named.spelled (Nat.le_succ limit)
  cases mode with
  | normal => exact List.forall_mem_singleton.mpr own
  | plain =>
      have marker := spelled_marker .plain (by rintro ⟨⟩) (limit + 1)
      exact List.forall_mem_cons.mpr ⟨marker, List.forall_mem_singleton.mpr own⟩
  | rest =>
      have marker := spelled_marker .rest (by rintro ⟨⟩) (limit + 1)
      exact List.forall_mem_cons.mpr ⟨marker, List.forall_mem_singleton.mpr own⟩
  | optional =>
      refine List.forall_mem_singleton.mpr
        (.proper ?_ (List.cons_ne_nil _ _) (by rintro inner terminator ⟨⟩))
      exact List.forall_mem_cons.mpr
        ⟨named.spelled le_rfl, List.forall_mem_singleton.mpr (defaulted.spelled le_rfl)⟩

theorem spelled_toEntries {limit : Nat} {announced : Bool} {parameters : List Parameter}
    (each : ∀ parameter ∈ parameters, parameter.ReadsBack limit) :
    ∀ entry ∈ toEntries announced parameters, entry.Spelled (limit + 1) := by
  induction parameters generalizing announced with
  | nil => exact fun _ member => by cases member
  | cons parameter parameters ih =>
      obtain ⟨own, others⟩ := List.forall_mem_cons.mp each
      rw [toEntries]
      split
      · have marker := spelled_marker .optional (by rintro ⟨⟩) (limit + 1)
        exact List.forall_mem_cons.mpr
          ⟨marker, List.forall_mem_append.mpr ⟨own.ownEntries, ih others⟩⟩
      · exact List.forall_mem_append.mpr ⟨own.ownEntries, ih others⟩

/-- The entries begin with a name. -/
theorem exists_toEntries_cons (parameter : Parameter) (parameters : List Parameter) :
    ∃ name others, toEntries false (parameter :: parameters) = .symbol name :: others := by
  obtain ⟨mode, name, default⟩ := parameter
  cases mode <;> exact ⟨_, _, rfl⟩

theorem exists_displayParts {print : Value → Printed} {announced : Bool}
    {parameters : List Parameter}
    (each : ∀ parameter ∈ parameters, ∃ text, print parameter.default = .ok text) :
    ∃ parts, displayParts print announced parameters = .ok parts := by
  induction parameters generalizing announced with
  | nil => exact ⟨[], rfl⟩
  | cons parameter parameters ih =>
      obtain ⟨⟨text, shown⟩, others⟩ := List.forall_mem_cons.mp each
      have own : ∃ part, parameter.display print = .ok part := by
        unfold display
        split
        · exact ⟨_, rfl⟩
        · exact ⟨_, Result.bind_eq_ok_iff.mpr ⟨text, shown, rfl⟩⟩
        · exact ⟨_, rfl⟩
        · exact ⟨_, rfl⟩
      obtain ⟨part, found⟩ := own
      obtain ⟨announcedParts, announcedRest⟩ := @ih true others
      obtain ⟨parts, rest⟩ := @ih announced others
      by_cases first : (parameter.mode = .optional && !announced) = true
      · refine ⟨Mode.optional.marker :: part :: announcedParts, ?_⟩
        refine Result.bind_eq_ok_iff.mpr ⟨part, found, ?_⟩
        rw [if_pos first]
        exact Result.bind_eq_ok_iff.mpr ⟨announcedParts, announcedRest, rfl⟩
      · refine ⟨part :: parts, Result.bind_eq_ok_iff.mpr ⟨part, found, ?_⟩⟩
        rw [if_neg first]
        exact Result.bind_eq_ok_iff.mpr ⟨parts, rest, rfl⟩

theorem exists_displayList {limit : Nat} {parameters : List Parameter}
    (each : ∀ parameter ∈ parameters, parameter.ReadsBack limit) :
    ∃ text, ∀ deep, limit ≤ deep → displayList (Value.display deep) parameters = .ok text := by
  obtain ⟨parts, shown⟩ := @exists_displayParts (Value.display limit) false parameters
    fun parameter member => by
      obtain ⟨_, text, shown, _⟩ := each parameter member
      exact ⟨text, shown⟩
  refine ⟨_, fun deep within => Result.bind_eq_ok_iff.mpr ⟨parts, ?_, rfl⟩⟩
  exact (displayParts_deepens (Value.display_deepens within) false parameters).ok_of_ok shown

theorem readAll_toForm {limit : Nat} {parameters : List Parameter}
    (each : ∀ parameter ∈ parameters, parameter.ReadsBack limit) {text : String}
    (shown : displayList (Value.display limit) parameters = .ok text) {room : Nat}
    (within : limit + 2 ≤ room) (size : Nat) :
    (Form.readAll room (Lexer.ofSource size (.text text))).1 = .ok [toForm parameters] := by
  cases parameters with
  | nil =>
      cases shown
      obtain ⟨room, rfl⟩ := Nat.exists_eq_add_of_le' (Nat.le_of_add_left_le within)
      exact readAll_of_derives .empty rfl rfl size
  | cons first others =>
      cases limit with
      | zero =>
          obtain ⟨⟨_, impossible, _⟩, _⟩ := each first List.mem_cons_self
          cases impossible
      | succ limit =>
          obtain ⟨name, later, begins⟩ := exists_toEntries_cons first others
          have spelled : (toForm (first :: others)).Spelled (limit + 3) := by
            refine .proper (spelled_toEntries each) ?_ ?_ <;> rw [begins]
            · exact List.cons_ne_nil _ _
            · rintro inner terminator ⟨⟩
          exact spelled.readAll (display_toEntries shown) within size

/-- An accepted parameter list whose names and defaults are read back is read back from its own
text: the text is read as one form, which stands for the same parameters.  Neither printing nor
reading takes more depth than the names and defaults do, apart from the two lists around them. -/
theorem displayList_reads_back {limit any : Nat} {form : Value} {parameters : List Parameter}
    (accepted : ofForm any form = .ok parameters)
    (readable : ∀ parameter ∈ parameters, parameter.ReadsBack limit) :
    ∃ text again, (∀ deep, limit ≤ deep → displayList (Value.display deep) parameters = .ok text) ∧
      (∀ room size, limit + 2 ≤ room →
        (Form.readAll room (Lexer.ofSource size (.text text))).1 = .ok [again]) ∧
      ∀ other, ofForm other again = .ok parameters := by
  obtain ⟨text, shown⟩ := exists_displayList readable
  refine ⟨text, toForm parameters, shown, fun room size within => ?_, fun other => ?_⟩
  · exact readAll_toForm readable (shown limit le_rfl) within size
  · exact ofForm_toForm accepted

/-- A list with a parameter of each mode, in which the optional one is called like a marker. -/
theorem displayList_reads_back_marker :
    ∃ again, (∀ room size, 3 ≤ room → (Form.readAll room (Lexer.ofSource size
        (.text "(A &PLAIN B &OPTIONAL (&REST \"x y\") &REST C)"))).1 = .ok [again]) ∧
      ∀ other, ofForm other again = .ok [⟨.normal, "A", .nil⟩, ⟨.plain, "B", .nil⟩,
        ⟨.optional, "&REST", .string "x y"⟩, ⟨.rest, "C", .nil⟩] := by
  have accepted : ofForm 9 (.list [.symbol "A", .symbol "&PLAIN", .symbol "B", .symbol "&OPTIONAL",
      .list [.symbol "&REST"] (.string "x y"), .symbol "&REST"] (.symbol "C")) =
        .ok [⟨.normal, "A", .nil⟩, ⟨.plain, "B", .nil⟩, ⟨.optional, "&REST", .string "x y"⟩,
          ⟨.rest, "C", .nil⟩] := rfl
  have nil : Value.nil.ReadsBack 1 := Value.Readable.nil.readsBack rfl
  have readable : ∀ parameter ∈ [⟨.normal, "A", .nil⟩, ⟨.plain, "B", .nil⟩,
      ⟨.optional, "&REST", .string "x y"⟩, ⟨.rest, "C", .nil⟩], ReadsBack 1 parameter := by
    rintro parameter (_ | ⟨_, _ | ⟨_, _ | ⟨_, _ | ⟨_, ⟨⟩⟩⟩⟩⟩)
    · exact ⟨(Value.Readable.name (by decide) rfl (by decide)).readsBack rfl, nil⟩
    · exact ⟨(Value.Readable.name (by decide) rfl (by decide)).readsBack rfl, nil⟩
    · exact ⟨(Value.Readable.name (by decide) rfl (by decide)).readsBack rfl,
        (Value.Readable.string "x y").readsBack rfl⟩
    · exact ⟨(Value.Readable.name (by decide) rfl (by decide)).readsBack rfl, nil⟩
  obtain ⟨text, again, shown, read, same⟩ := displayList_reads_back accepted readable
  obtain rfl : "(A &PLAIN B &OPTIONAL (&REST \"x y\") &REST C)" = text :=
    Except.ok.inj (shown 1 le_rfl)
  exact ⟨again, read, same⟩

end Parameter

end ConsLisp
