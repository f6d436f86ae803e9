import ConsLisp.Proofs.Form.Iteration

/-!
# Sources one after the other

A lexer that is read to its end has no errors, so it is read like the sequence of its tokens.
Reading takes no token beyond the last one of a form; where tokens are read to their end, the forms
of more tokens come after theirs.
-/

namespace ConsLisp

theorem Alike.swap {σ τ : Type} [TokenSource σ] [TokenSource τ] {related : σ → τ → Prop}
    (alike : Alike related) : Alike fun (other : τ) (source : σ) => related source other := by
  intro other source same
  obtain ⟨equal, still⟩ := alike same
  exact ⟨equal.symm, still⟩

namespace Form

/-- Sources that are read alike yield the same. -/
theorem Yields.alike {σ τ : Type} [TokenSource σ] [TokenSource τ] {related : σ → τ → Prop}
    (alike : Alike related) {limit : Nat} {source : σ} {other : τ} (same : related source other)
    {forms : List Value} {cause : Error} (yields : Yields limit source forms cause) :
    Yields limit other forms cause := by
  induction forms generalizing source other with
  | nil =>
      obtain ⟨rest, step⟩ := yields_nil_iff.mp yields
      obtain ⟨remains, stepped, _⟩ := (read_alike alike limit same).of_eq step
      exact yields_nil_iff.mpr ⟨remains, stepped⟩
  | cons form forms ih =>
      obtain ⟨rest, step, others⟩ := yields_cons_iff.mp yields
      obtain ⟨remains, stepped, still⟩ := (read_alike alike limit same).of_eq step
      exact yields_cons_iff.mpr ⟨remains, stepped, ih still others⟩

/-- Where the input counts as empty there is no token and no error. -/
theorem next_of_emptyInput {σ : Type} [TokenSource σ] {limit : Nat} {source rest : σ}
    (ended : read limit source = (.error (.parse .emptyInput), rest)) :
    (TokenSource.next source).1 = .ok none := by
  cases step : TokenSource.next source with
  | mk found after =>
      rcases found with cause | none | token
      · have failed : read limit source = (.error (.lexical cause), after) := by
          rw [read, readFrom, step]
        cases ended.symm.trans failed
      · rfl
      · exact absurd rfl (read_ne_emptyInput step ended)

theorem yields_nil (limit : Nat) : Yields limit ([] : List Token) [] (.parse .emptyInput) := by
  refine yields_nil_iff.mpr ⟨[], ?_⟩
  rw [read, readFrom_nil]
  rfl

/-- The tokens of one form that can be printed. -/
theorem Derives.yields {limit : Nat} {tokens : List Token} {form : Value}
    (derived : Derives limit tokens form) (shown : ∃ text, form.display limit = .ok text) :
    Yields limit tokens [form] (.parse .emptyInput) := by
  have alone : read limit tokens = (.ok form, []) :=
    read_eq_ok_iff_derives.mpr ⟨tokens, (List.append_nil tokens).symm, derived, shown⟩
  exact yields_cons_iff.mpr ⟨[], alone, yields_nil limit⟩

/-- Forms of tokens that are read to their end, and then those of more tokens. -/
theorem Yields.append {limit : Nat} {tokens more : List Token} {forms others : List Value}
    {cause : Error} (first : Yields limit tokens forms (.parse .emptyInput))
    (second : Yields limit more others cause) :
    Yields limit (tokens ++ more) (forms ++ others) cause := by
  induction forms generalizing tokens with
  | nil =>
      obtain ⟨rest, step⟩ := yields_nil_iff.mp first
      cases tokens with
      | nil => exact second
      | cons token tokens => cases next_of_emptyInput step
  | cons form forms ih =>
      obtain ⟨rest, step, later⟩ := yields_cons_iff.mp first
      obtain ⟨taken, rfl, derived, shown⟩ := read_eq_ok_iff_derives.mp step
      rw [List.append_assoc]
      exact yields_cons_iff.mpr
        ⟨rest ++ more, read_eq_ok_iff_derives.mpr ⟨taken, rfl, derived, shown⟩, ih later⟩

end Form

namespace Lexer

theorem next_of_outcomes_nil {lexer : Lexer} (given : lexer.outcomes = []) :
    lexer.next.1 = .ok none ∧ lexer.next.2.outcomes = [] := by
  have finished := lexer.next_finished
  rcases step : lexer.next with ⟨cause | _ | token, rest⟩
  · rw [outcomes_error step] at given
    cases given
  · rw [step] at finished
    exact ⟨rfl, outcomes_of_remaining_zero (finished rfl)⟩
  · rw [outcomes_token step] at given
    cases given

theorem next_of_outcomes_cons {lexer : Lexer} {outcome : Except LexicalError Token}
    {others : List (Except LexicalError Token)} (given : lexer.outcomes = outcome :: others) :
    lexer.next.1 = outcome.map some ∧ lexer.next.2.outcomes = others := by
  rcases step : lexer.next with ⟨cause | _ | token, rest⟩
  · rw [outcomes_error step] at given
    cases given
    exact ⟨rfl, rfl⟩
  · rw [outcomes_end step] at given
    cases given
  · rw [outcomes_token step] at given
    cases given
    exact ⟨rfl, rfl⟩

/-- Lexers that give the same are read alike. -/
theorem alike_lexers : Alike fun (first second : Lexer) => first.outcomes = second.outcomes := by
  intro first second same
  cases given : first.outcomes with
  | nil =>
      obtain ⟨ended, nothing⟩ := next_of_outcomes_nil given
      obtain ⟨endedToo, nothingToo⟩ := next_of_outcomes_nil (same.symm.trans given)
      exact ⟨ended.trans endedToo.symm, nothing.trans nothingToo.symm⟩
  | cons outcome others =>
      obtain ⟨step, rest⟩ := next_of_outcomes_cons given
      obtain ⟨stepToo, restToo⟩ := next_of_outcomes_cons (same.symm.trans given)
      exact ⟨step.trans stepToo.symm, rest.trans restToo.symm⟩

theorem outcomes_of_readFrom {limit : Nat} {reading : Reading} {lexer rest : Lexer} {form : Value}
    (found : Form.readFrom limit reading lexer = (.ok form, rest)) :
    ∃ taken : List Token, lexer.outcomes = taken.map .ok ++ rest.outcomes := by
  fun_induction Form.readFrom limit reading lexer with
  | case1 => cases found
  | case2 => cases found
  | case3 => cases found
  | case4 reading lexer token after step value fed =>
      cases found
      exact ⟨[token], outcomes_token step⟩
  | case5 => cases found
  | case6 reading lexer token after step next fed within ih =>
      obtain ⟨taken, same⟩ := ih found
      exact ⟨token :: taken, by rw [outcomes_token step, same]; rfl⟩

/-- A lexer that is read to its end gives nothing but tokens. -/
theorem exists_tokens_of_yields {limit : Nat} {lexer : Lexer} {forms : List Value}
    (yields : Form.Yields limit lexer forms (.parse .emptyInput)) :
    ∃ tokens : List Token, lexer.outcomes = tokens.map .ok := by
  induction forms generalizing lexer with
  | nil =>
      obtain ⟨rest, step⟩ := Form.yields_nil_iff.mp yields
      have ended : lexer.next.1 = .ok none := Form.next_of_emptyInput step
      exact ⟨[], outcomes_end (Prod.ext ended rfl)⟩
  | cons form forms ih =>
      obtain ⟨rest, step, later⟩ := Form.yields_cons_iff.mp yields
      obtain ⟨taken, first⟩ := outcomes_of_readFrom (Form.read_eq_ok_iff.mp step).1
      obtain ⟨others, same⟩ := ih later
      exact ⟨taken ++ others, by rw [first, same, List.map_append]⟩

theorem yields_iff_of_outcomes {lexer : Lexer} {tokens : List Token}
    (same : lexer.outcomes = tokens.map .ok) {limit : Nat} {forms : List Value} {cause : Error} :
    Form.Yields limit lexer forms cause ↔ Form.Yields limit tokens forms cause := by
  constructor
  · exact fun yields => yields.alike alike_outcomes same
  · exact fun yields => yields.alike alike_outcomes.swap same

end Lexer

end ConsLisp
