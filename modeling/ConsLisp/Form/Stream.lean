import ConsLisp.Form.Reading
import ConsLisp.Token.Progress

/-!
# Forms from tokens

Tokens come from a source that may fail between them and that never runs on for ever: every step
that gives a token or an error brings it nearer to its end.  Forms are read off such a source one
at a time, taking no token beyond the last one of the form, and a source keeps its place when
reading fails.
-/

namespace ConsLisp

/-- Where tokens come from. -/
class TokenSource (σ : Type) where
  next : σ → Except LexicalError (Option Token) × σ
  /-- A bound on the steps that are left. -/
  remaining : σ → Nat
  /-- Every step but the one that finds the end makes progress. -/
  next_lt : ∀ source, (next source).1 ≠ .ok none → remaining (next source).2 < remaining source
  /-- Finding the end loses nothing. -/
  next_le : ∀ source, (next source).1 = .ok none → remaining (next source).2 ≤ remaining source

instance : TokenSource Lexer where
  next := Lexer.next
  remaining := Lexer.remaining
  next_lt := Lexer.next_remaining
  next_le lexer finished := by simp [lexer.next_finished finished]

/-- A finite sequence of tokens is a source without errors. -/
instance : TokenSource (List Token) where
  next
    | [] => (.ok none, [])
    | token :: tokens => (.ok (some token), tokens)
  remaining := List.length
  next_lt
    | [], given => absurd rfl given
    | _ :: tokens, _ => Nat.lt_succ_self tokens.length
  next_le
    | [], _ => Nat.le_refl 0
    | _ :: _, finished => by cases finished

/-- A source of tokens with at most one token taken from it in advance. -/
structure TokenStream (σ : Type) where
  peeked : Option Token
  source : σ

namespace TokenStream

variable {σ : Type} [TokenSource σ]

def ofSource (source : σ) : TokenStream σ :=
  ⟨none, source⟩

/-- The next token, if there is one, which stays in the stream. -/
def peek (stream : TokenStream σ) : Except LexicalError (Option Token) × TokenStream σ :=
  match stream.peeked with
  | some token => (.ok (some token), stream)
  | none =>
      match TokenSource.next stream.source with
      | (.ok found, source) => (.ok found, ⟨found, source⟩)
      | (.error cause, source) => (.error cause, ⟨none, source⟩)

/-- Takes the next token, if there is one. -/
def advance (stream : TokenStream σ) : Except LexicalError (Option Token) × TokenStream σ :=
  match stream.peeked with
  | some token => (.ok (some token), ⟨none, stream.source⟩)
  | none =>
      let step := TokenSource.next stream.source
      (step.1, ⟨none, step.2⟩)

/-- A token taken in advance is one more step. -/
def remaining (stream : TokenStream σ) : Nat :=
  TokenSource.remaining stream.source + if stream.peeked.isSome then 1 else 0

theorem advance_lt (stream : TokenStream σ) (given : stream.advance.1 ≠ .ok none) :
    stream.advance.2.remaining < stream.remaining := by
  obtain ⟨peeked, source⟩ := stream
  cases peeked with
  | some token => simp [advance, remaining]
  | none =>
      have progress := TokenSource.next_lt source given
      simpa [advance, remaining] using progress

theorem advance_le (stream : TokenStream σ) (finished : stream.advance.1 = .ok none) :
    stream.advance.2.remaining ≤ stream.remaining := by
  obtain ⟨peeked, source⟩ := stream
  cases peeked with
  | some token => simp [advance, remaining]
  | none =>
      have kept := TokenSource.next_le source finished
      simpa [advance, remaining] using kept

instance : TokenSource (TokenStream σ) where
  next := advance
  remaining := remaining
  next_lt := advance_lt
  next_le := advance_le

end TokenStream

namespace Form

variable {σ : Type} [TokenSource σ]

/-- A step that gives a token leaves less than there was. -/
theorem remaining_of_token {source rest : σ} {token : Token}
    (step : TokenSource.next source = (.ok (some token), rest)) :
    TokenSource.remaining rest < TokenSource.remaining source := by
  have progress := TokenSource.next_lt source
  rw [step] at progress
  exact progress (by simp)

/-- Goes on reading a form.  The contexts of a reading may not outnumber the limit. -/
def readFrom (limit : Nat) (reading : Reading) (source : σ) : Except Error Value × σ :=
  match _step : TokenSource.next source with
  | (.error cause, rest) => (.error (.lexical cause), rest)
  | (.ok none, rest) => (.error (.parse reading.endError), rest)
  | (.ok (some token), rest) =>
      match reading.feed token with
      | .error cause => (.error (.parse cause), rest)
      | .ok (.form value) => (.ok value, rest)
      | .ok (.more next) =>
          if limit < next.depth then (.error (.tooDeep .reading), rest)
          else readFrom limit next rest
termination_by TokenSource.remaining source
decreasing_by exact remaining_of_token _step

theorem readFrom_le (limit : Nat) (reading : Reading) (source : σ) :
    TokenSource.remaining (readFrom limit reading source).2 ≤ TokenSource.remaining source := by
  fun_induction readFrom limit reading source with
  | case1 reading source cause rest step =>
      have progress := TokenSource.next_lt source
      rw [step] at progress
      exact Nat.le_of_lt (progress (by simp))
  | case2 reading source rest step =>
      have kept := TokenSource.next_le source
      rw [step] at kept
      exact kept rfl
  | case3 reading source token rest step => exact Nat.le_of_lt (remaining_of_token step)
  | case4 reading source token rest step => exact Nat.le_of_lt (remaining_of_token step)
  | case5 reading source token rest step => exact Nat.le_of_lt (remaining_of_token step)
  | case6 reading source token rest step next fed within ih =>
      exact Nat.le_trans ih (Nat.le_of_lt (remaining_of_token step))

/-- Reading uses up part of the source unless that has already ended. -/
theorem readFrom_lt (limit : Nat) (reading : Reading) (source : σ)
    (given : (readFrom limit reading source).1 ≠ .error (.parse reading.endError)) :
    TokenSource.remaining (readFrom limit reading source).2 < TokenSource.remaining source := by
  fun_cases readFrom limit reading source with
  | case1 cause rest step =>
      have progress := TokenSource.next_lt source
      rw [step] at progress
      exact progress (by simp)
  | case2 rest step =>
      rw [readFrom, step] at given
      exact absurd rfl given
  | case3 token rest step => exact remaining_of_token step
  | case4 token rest step => exact remaining_of_token step
  | case5 token rest step => exact remaining_of_token step
  | case6 token rest step next =>
      exact Nat.lt_of_le_of_lt (readFrom_le limit next rest) (remaining_of_token step)

/-- Reads one form.  A form that cannot be printed is refused. -/
def read (limit : Nat) (source : σ) : Except Error Value × σ :=
  match readFrom limit .start source with
  | (.ok value, rest) => ((value.shown limit).map fun _ => value, rest)
  | (.error cause, rest) => (.error cause, rest)

/-- Reading a form brings a source nearer to its end unless it has already ended. -/
theorem read_lt (limit : Nat) (source : σ)
    (given : (read limit source).1 ≠ .error (.parse .emptyInput)) :
    TokenSource.remaining (read limit source).2 < TokenSource.remaining source := by
  have progress := readFrom_lt limit .start source
  unfold read at *
  split
  next value rest step =>
      rw [step] at progress
      exact progress (by simp)
  next cause rest step =>
      simp only [step] at given progress
      exact progress given

theorem remaining_of_read {limit : Nat} {source rest : σ} {value : Value}
    (step : read limit source = (.ok value, rest)) :
    TokenSource.remaining rest < TokenSource.remaining source := by
  have progress := read_lt limit source
  rw [step] at progress
  exact progress (by simp)

/-- All forms up to the end of the source, or the first error, and the source after it. -/
def readAll (limit : Nat) (source : σ) : Except Error (List Value) × σ :=
  match _step : read limit source with
  | (.ok value, rest) =>
      let others := readAll limit rest
      (others.1.map (value :: ·), others.2)
  | (.error (.parse .emptyInput), rest) => (.ok [], rest)
  | (.error cause, rest) => (.error cause, rest)
termination_by TokenSource.remaining source
decreasing_by exact remaining_of_read _step

/-- Whether an error says that nothing is left to read. -/
def endsReading : Error → Bool
  | .parse .emptyInput => true
  | _ => false

/-- Every form and every error, the last of which is that of an empty input. -/
def outcomes (limit : Nat) (source : σ) : List (Except Error Value) :=
  match _step : read limit source with
  | (.ok value, rest) => .ok value :: outcomes limit rest
  | (.error cause, rest) =>
      if _ended : endsReading cause then [.error cause]
      else .error cause :: outcomes limit rest
termination_by TokenSource.remaining source
decreasing_by
  · exact remaining_of_read _step
  · have progress := read_lt limit source
    rw [_step] at progress
    refine progress fun same => _ended ?_
    cases same
    rfl

/-- The reader sees no more of a source than its next step. -/
theorem read_eq_of_next {limit : Nat} {first second : σ}
    (same : TokenSource.next first = TokenSource.next second) :
    read limit first = read limit second := by
  have started : readFrom limit .start first = readFrom limit .start second := by
    rw [readFrom, readFrom, same]
  rw [read, read, started]

end Form

namespace TokenStream

variable {σ : Type} [TokenSource σ] {limit : Nat} {stream ahead : TokenStream σ}

/-- A token that has been looked at is still the next one. -/
theorem advance_after_peek {token : Token} (looked : stream.peek = (.ok (some token), ahead)) :
    ∃ rest, stream.advance = (.ok (some token), rest) ∧
      ahead.advance = (.ok (some token), rest) := by
  obtain ⟨peeked, source⟩ := stream
  cases peeked with
  | some other =>
      cases looked
      exact ⟨_, rfl, rfl⟩
  | none =>
      simp only [peek, advance] at looked ⊢
      rcases step : TokenSource.next source with ⟨_ | none | other, rest⟩
      · rw [step] at looked
        cases looked
      · rw [step] at looked
        cases looked
      · rw [step] at looked
        cases looked
        exact ⟨_, rfl, rfl⟩

theorem read_after_peek {token : Token} (looked : stream.peek = (.ok (some token), ahead)) :
    Form.read limit ahead = Form.read limit stream := by
  obtain ⟨rest, step, stepped⟩ := advance_after_peek looked
  exact Form.read_eq_of_next (stepped.trans step.symm)

/-- All forms of a stream, where a look ahead tells whether there is another one. -/
def readAll (limit : Nat) (stream : TokenStream σ) : Except Error (List Value) × TokenStream σ :=
  match _looked : stream.peek with
  | (.error cause, ahead) => (.error (.lexical cause), ahead)
  | (.ok none, ahead) => (.ok [], ahead)
  | (.ok (some _), ahead) =>
      match _step : Form.read limit ahead with
      | (.ok form, rest) =>
          let others := readAll limit rest
          (others.1.map (form :: ·), others.2)
      | (.error cause, rest) => (.error cause, rest)
termination_by TokenSource.remaining stream
decreasing_by exact Form.remaining_of_read ((read_after_peek _looked).symm.trans _step)

end TokenStream

end ConsLisp
