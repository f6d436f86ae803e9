import ConsLisp.Proofs.Form.Closure
import ConsLisp.Proofs.Form.Reading
import ConsLisp.Proofs.Form.Sources

/-!
# One form after the other

Reading a source form by form gives forms up to the first error.  Reading all forms at once gives
the same forms or the same error, and so does looking ahead for the end before each form.
-/

namespace ConsLisp

namespace Form

variable {σ : Type} [TokenSource σ] {limit : Nat} {source rest : σ}

theorem outcomes_form {form : Value} (step : read limit source = (.ok form, rest)) :
    outcomes limit source = .ok form :: outcomes limit rest := by
  rw [outcomes, step]

theorem outcomes_error {cause : Error} (step : read limit source = (.error cause, rest)) :
    ∃ others, outcomes limit source = .error cause :: others := by
  rw [outcomes, step]
  by_cases ended : endsReading cause = true
  · exact ⟨[], dif_pos ended⟩
  · exact ⟨outcomes limit rest, dif_neg ended⟩

/-- Reading form by form, with nothing done in between, gives these forms and then this error. -/
def Yields (limit : Nat) (source : σ) (forms : List Value) (cause : Error) : Prop :=
  ∃ others, outcomes limit source = forms.map .ok ++ .error cause :: others

theorem yields_nil_iff {cause : Error} :
    Yields limit source [] cause ↔ ∃ rest, read limit source = (.error cause, rest) := by
  constructor
  · rintro ⟨others, same⟩
    cases step : read limit source with
    | mk result rest =>
        cases result with
        | ok form =>
            rw [outcomes_form step] at same
            cases same
        | error other =>
            obtain ⟨after, found⟩ := outcomes_error step
            rw [found] at same
            cases same
            exact ⟨rest, rfl⟩
  · rintro ⟨rest, step⟩
    exact outcomes_error step

theorem yields_cons_iff {form : Value} {forms : List Value} {cause : Error} :
    Yields limit source (form :: forms) cause ↔
      ∃ rest, read limit source = (.ok form, rest) ∧ Yields limit rest forms cause := by
  constructor
  · rintro ⟨others, same⟩
    cases step : read limit source with
    | mk result rest =>
        cases result with
        | ok other =>
            rw [outcomes_form step] at same
            injection same with first later
            cases first
            exact ⟨rest, rfl, others, later⟩
        | error other =>
            obtain ⟨after, found⟩ := outcomes_error step
            rw [found] at same
            cases same
  · rintro ⟨rest, step, others, same⟩
    exact ⟨others, by rw [outcomes_form step, same]; rfl⟩

/-- Every source gives forms up to some error, which at the latest is that of its end. -/
theorem exists_yields (limit : Nat) (source : σ) :
    ∃ forms cause, Yields limit source forms cause := by
  induction source using @readAll.induct σ inferInstance limit with
  | case1 source form rest step ih =>
      obtain ⟨forms, cause, yields⟩ := ih
      exact ⟨form :: forms, cause, yields_cons_iff.mpr ⟨rest, step, yields⟩⟩
  | case2 source rest step => exact ⟨[], _, yields_nil_iff.mpr ⟨rest, step⟩⟩
  | case3 source cause rest notEnd step => exact ⟨[], cause, yields_nil_iff.mpr ⟨rest, step⟩⟩

/-- Every form that a source yields was read. -/
theorem Yields.exists_read {forms : List Value} {cause : Error}
    (yields : Yields limit source forms cause) :
    ∀ form ∈ forms, ∃ here rest : σ, read limit here = (.ok form, rest) := by
  induction forms generalizing source with
  | nil => exact fun _ member => by cases member
  | cons form forms ih =>
      obtain ⟨rest, step, others⟩ := yields_cons_iff.mp yields
      exact List.forall_mem_cons.mpr ⟨⟨source, rest, step⟩, ih others⟩

/-- The error that ends what a source yields comes from reading too. -/
theorem Yields.exists_read_error {forms : List Value} {cause : Error}
    (yields : Yields limit source forms cause) :
    ∃ here rest : σ, read limit here = (.error cause, rest) := by
  induction forms generalizing source with
  | nil =>
      obtain ⟨rest, step⟩ := yields_nil_iff.mp yields
      exact ⟨source, rest, step⟩
  | cons form forms ih =>
      obtain ⟨rest, step, others⟩ := yields_cons_iff.mp yields
      exact ih others

/-- Reading all forms gives those before the first error if that is the end of the source, and the
error if it is not. -/
theorem Yields.readAll {forms : List Value} {cause : Error}
    (yields : Yields limit source forms cause) :
    (cause = .parse .emptyInput → (readAll limit source).1 = .ok forms) ∧
      (cause ≠ .parse .emptyInput → (readAll limit source).1 = .error cause) := by
  induction forms generalizing source with
  | nil =>
      obtain ⟨rest, step⟩ := yields_nil_iff.mp yields
      constructor
      · rintro rfl
        rw [readAll_end step]
      · intro notEnd
        rw [readAll_error step notEnd]
  | cons form forms ih =>
      obtain ⟨rest, step, others⟩ := yields_cons_iff.mp yields
      obtain ⟨ended, failed⟩ := ih others
      rw [readAll_ok step]
      constructor
      · intro same
        rw [ended same]
        rfl
      · intro notEnd
        rw [failed notEnd]
        rfl

/-! ## The end of a source -/

theorem readFrom_ne_emptyInput {reading : Reading} (begun : reading ≠ .start) {cause : Error}
    (failed : readFrom limit reading source = (.error cause, rest)) :
    cause ≠ .parse .emptyInput := by
  fun_induction readFrom limit reading source with
  | case1 reading source fault after step =>
      cases failed
      simp
  | case2 reading source after step =>
      cases failed
      simpa [Reading.endError_eq_emptyInput_iff] using begun
  | case3 reading source token after step fault refused =>
      cases failed
      simp [Reading.eq_unexpectedToken_of_feed refused]
  | case4 => cases failed
  | case5 =>
      cases failed
      simp [Error.tooDeep]
  | case6 reading source token after step next fed within ih =>
      exact ih (Reading.of_accept? (Reading.accept_of_feed fed)).2 failed

/-- Where there is a token, the input is not empty. -/
theorem read_ne_emptyInput {token : Token} {after : σ}
    (next : TokenSource.next source = (.ok (some token), after)) {cause : Error}
    (failed : read limit source = (.error cause, rest)) : cause ≠ .parse .emptyInput := by
  rcases read_eq_error_iff.mp failed with failed | ⟨value, _, refused⟩
  · rw [readFrom, next] at failed
    simp only at failed
    split at failed
    next fault refused =>
        cases failed
        simp [Reading.eq_unexpectedToken_of_feed refused]
    next => cases failed
    next reading fed =>
        split at failed
        next =>
            cases failed
            simp [Error.tooDeep]
        next =>
            exact readFrom_ne_emptyInput (Reading.of_accept? (Reading.accept_of_feed fed)).2 failed
  · rintro rfl
    exact Value.shown_ne_parse limit value _ refused

end Form

/-! ## Looking ahead -/

namespace TokenStream

variable {σ : Type} [TokenSource σ] {limit : Nat} {stream ahead : TokenStream σ}

/-- Looking ahead meets the end and errors as taking a token does. -/
theorem advance_of_peek {found : Except LexicalError (Option Token)}
    (looked : stream.peek = (found, ahead)) (notToken : ∀ token, found ≠ .ok (some token)) :
    stream.advance = (found, ahead) := by
  obtain ⟨peeked, source⟩ := stream
  cases peeked with
  | some token =>
      cases looked
      exact absurd rfl (notToken token)
  | none =>
      simp only [peek, advance] at looked ⊢
      rcases step : TokenSource.next source with ⟨_ | none | token, rest⟩
      · rw [step] at looked
        cases looked
        rfl
      · rw [step] at looked
        cases looked
        rfl
      · rw [step] at looked
        cases looked
        exact absurd rfl (notToken token)

/-- Looking ahead before each form changes nothing. -/
theorem readAll_eq (limit : Nat) (stream : TokenStream σ) :
    stream.readAll limit = Form.readAll limit stream := by
  fun_induction readAll limit stream with
  | case1 stream cause ahead looked =>
      have step : TokenSource.next stream = (.error cause, ahead) :=
        advance_of_peek looked (fun _ => by simp)
      have failed : Form.read limit stream = (.error (.lexical cause), ahead) := by
        rw [Form.read, Form.readFrom, step]
      rw [Form.readAll_error failed (by simp)]
  | case2 stream ahead looked =>
      have step : TokenSource.next stream = (.ok none, ahead) :=
        advance_of_peek looked (fun _ => by simp)
      have failed : Form.read limit stream = (.error (.parse .emptyInput), ahead) := by
        rw [Form.read, Form.readFrom, step]
        rfl
      rw [Form.readAll_end failed]
  | case3 stream token ahead looked form rest step others ih =>
      rw [read_after_peek looked] at step
      rw [Form.readAll_ok step, ← ih]
  | case4 stream token ahead looked cause rest step =>
      rw [read_after_peek looked] at step
      obtain ⟨after, next, _⟩ := advance_after_peek looked
      rw [Form.readAll_error step (Form.read_ne_emptyInput next step)]

/-- A stream from which nothing has been taken in advance is read like its source. -/
theorem readAll_ofSource (limit : Nat) (source : σ) :
    ((ofSource source).readAll limit).1 = (Form.readAll limit source).1 := by
  have alike : Alike fun (stream : TokenStream σ) (source : σ) => stream = ofSource source := by
    rintro _ source rfl
    exact ⟨rfl, rfl⟩
  rw [readAll_eq]
  exact (Form.readAll_alike alike limit rfl).1

end TokenStream

end ConsLisp
