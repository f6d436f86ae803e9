import ConsLisp.Proofs.Form.Concatenation
import ConsLisp.Proofs.Value.Occurs

/-!
# Atoms of forms

A form that is read is put together from atoms that tokens of the source denote.  Its lists hold
something and do not end in lists.
-/

namespace ConsLisp

/-- A token that a lexer can give: its integers are in the range of literals. -/
def Token.IsLiteral : Token → Prop
  | .integer number => Number.Literal.inRange number = true
  | _ => True

theorem Token.isLiteral_of_ofLexeme {lexeme : Lexeme UInt8} {token : Token}
    (given : ofLexeme lexeme = .ok token) : token.IsLiteral := by
  cases token with
  | integer number =>
      cases lexeme with
      | word word =>
          have read : ∃ chars, Number.Literal.integer? chars = some number := by
            have own : classify word = .ok (.integer number) := given
            unfold classify at own
            grind
          obtain ⟨chars, found⟩ := read
          exact Number.Literal.inRange_of_integer? found
      | _ => cases given
  | _ => exact True.intro

namespace Form

/-- Values put together from NIL and the atoms that certain tokens denote. -/
inductive MadeOf (given : Token → Prop) : Value → Prop where
  | nil : MadeOf given .nil
  | atom {token : Token} {value : Value} (own : given token) (denoted : token.Denotes value) :
      MadeOf given value
  | quoted {value : Value} (inner : MadeOf given value) : MadeOf given (.quoted value)
  | list {items : List Value} {terminator : Value} (nonempty : items ≠ [])
      (each : ∀ item ∈ items, MadeOf given item) (last : MadeOf given terminator)
      (notList : terminator.isOf .list = false) : MadeOf given (.list items terminator)

section

variable {given : Token → Prop}

theorem MadeOf.of_list {items : List Value} {terminator : Value}
    (made : MadeOf given (.list items terminator)) :
    (∀ item ∈ items, MadeOf given item) ∧ MadeOf given terminator ∧
      terminator.isOf .list = false := by
  cases made with
  | atom own denoted => cases denoted
  | list nonempty each last notList => exact ⟨each, last, notList⟩

theorem MadeOf.forms {phrases : List Phrase}
    (each : ∀ phrase ∈ phrases, (∀ token ∈ phrase.tokens, given token) →
      MadeOf given phrase.form)
    (tokens : ∀ token ∈ Phrase.spread phrases, given token) :
    ∀ form ∈ Phrase.forms phrases, MadeOf given form := by
  intro form member
  obtain ⟨phrase, found, rfl⟩ := List.mem_map.mp member
  exact each phrase found fun token inside => tokens token (List.mem_flatMap_of_mem found inside)

/-- What tokens derive is made of the atoms they denote. -/
theorem Derives.madeOf {depth : Nat} {tokens : List Token} {value : Value}
    (derived : Derives depth tokens value) (own : ∀ token ∈ tokens, given token) :
    MadeOf given value := by
  induction derived with
  | atom denoted => exact .atom (own _ List.mem_cons_self) denoted
  | quote inner ih => exact .quoted (ih fun token member => own token (.tail _ member))
  | empty => exact .nil
  | collapsed inner ih => exact ih fun token member => own token (by simp [member])
  | proper each nonempty notOneList ih =>
      exact .list (Phrase.forms_ne_nil nonempty)
        (.forms ih fun token member => own token (by simp [member])) .nil rfl
  | merged each nonempty last ih inner =>
      have items := MadeOf.forms ih fun token member => own token (by simp [member])
      obtain ⟨others, ended, notList⟩ :=
        (inner fun token member => own token (by simp [member])).of_list
      exact .list (List.append_ne_nil_of_left_ne_nil (Phrase.forms_ne_nil nonempty) _)
        (List.forall_mem_append.mpr ⟨items, others⟩) ended notList
  | dotted each nonempty last notList ih inner =>
      exact .list (Phrase.forms_ne_nil nonempty)
        (.forms ih fun token member => own token (by simp [member]))
        (inner fun token member => own token (by simp [member])) notList

/-- Every symbol in such a value is denoted by one of the tokens. -/
theorem MadeOf.symbol_of_occurs {value : Value} (made : MadeOf given value) {name : String}
    (occurs : (Value.symbol name).Occurs value) :
    ∃ token, given token ∧ token.Denotes (.symbol name) := by
  induction made with
  | nil => cases occurs
  | @atom token value own denoted =>
      cases occurs with
      | here => exact ⟨token, own, denoted⟩
      | _ => cases denoted
  | quoted inner ih =>
      cases occurs with
      | quoted inside => exact ih inside
  | list nonempty each last notList ih ended =>
      cases occurs with
      | item member inside => exact ih _ member inside
      | terminator inside => exact ended inside

end

/-! ## Forms of a source -/

/-- Every form that tokens yield is derived by some of them, and has a text. -/
theorem Yields.exists_derives {limit : Nat} {tokens : List Token} {forms : List Value}
    {cause : Error} (yields : Yields limit tokens forms cause) :
    ∀ form ∈ forms, ∃ taken, taken ⊆ tokens ∧ Derives limit taken form ∧
      ∃ text, form.display limit = .ok text := by
  induction forms generalizing tokens with
  | nil => exact fun _ member => by cases member
  | cons first forms ih =>
      obtain ⟨rest, step, later⟩ := yields_cons_iff.mp yields
      obtain ⟨taken, rfl, derived, shown⟩ := read_eq_ok_iff_derives.mp step
      refine List.forall_mem_cons.mpr ⟨⟨taken, List.subset_append_left _ _, derived, shown⟩, ?_⟩
      intro form member
      obtain ⟨others, inside, given⟩ := ih later form member
      exact ⟨others, fun token own => List.mem_append_right _ (inside own), given⟩

theorem yields_of_readAll {σ : Type} [TokenSource σ] {limit : Nat} {source : σ}
    {forms : List Value} (accepted : (readAll limit source).1 = .ok forms) :
    Yields limit source forms (.parse .emptyInput) := by
  obtain ⟨others, cause, yields⟩ := exists_yields limit source
  by_cases ended : cause = .parse .emptyInput
  · subst ended
    rw [yields.readAll.1 rfl] at accepted
    cases accepted
    exact yields
  · rw [yields.readAll.2 ended] at accepted
    cases accepted

/-- A form of a source that is read to its end is derived by tokens of the source. -/
theorem exists_derives_of_readAll {limit : Nat} {lexer : Lexer} {forms : List Value}
    (accepted : (readAll limit lexer).1 = .ok forms) {form : Value} (member : form ∈ forms) :
    ∃ tokens : List Token, (∀ token ∈ tokens, .ok token ∈ lexer.outcomes) ∧
      Derives limit tokens form ∧ ∃ text, form.display limit = .ok text := by
  have yields := yields_of_readAll accepted
  obtain ⟨tokens, same⟩ := Lexer.exists_tokens_of_yields yields
  obtain ⟨taken, inside, given⟩ :=
    ((Lexer.yields_iff_of_outcomes same).mp yields).exists_derives form member
  refine ⟨taken, fun token own => ?_, given⟩
  rw [same]
  exact List.mem_map_of_mem (inside own)

end Form

end ConsLisp
