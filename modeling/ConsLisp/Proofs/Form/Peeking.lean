import ConsLisp.Proofs.Form.Demand

/-!
# Looking ahead

A stream may have taken one token from its source before it is asked for.  What a stream holds is
that token and then what its source supplies, and a look ahead leaves this as it is.  So calls that
look ahead, take a token or read a form, in whatever order, take the tokens of the source from the
front, and a call that only looks makes no difference to any other.
-/

namespace ConsLisp

/-! ## Sources without errors -/

section

variable {σ : Type} [TokenSource σ] {source : σ} {tokens : List Token}

/-- A source gives these tokens, one step each, and is then at its end for good. -/
def Supplies (source : σ) (tokens : List Token) : Prop :=
  ∃ last, Gives source tokens last ∧
    ∀ steps, (TokenSource.next (afterSteps TokenSource.next steps last)).1 = .ok none

theorem next_tokens (tokens : List Token) :
    TokenSource.next tokens = (.ok tokens.head?, tokens.tail) := by
  cases tokens <;> rfl

theorem Supplies.next (supplies : Supplies source tokens) :
    ∃ rest, TokenSource.next source = (.ok tokens.head?, rest) ∧ Supplies rest tokens.tail := by
  obtain ⟨last, gives, ended⟩ := supplies
  cases gives with
  | nothing =>
      refine ⟨(TokenSource.next source).2, Prod.ext (ended 0) rfl, ?_⟩
      exact ⟨_, .nothing _, fun steps => ended (steps + 1)⟩
  | @token _ rest _ token others step later => exact ⟨rest, step, last, later, ended⟩

/-- A source that is like a sequence of tokens at every step supplies these tokens. -/
theorem supplies_of_alike {related : σ → List Token → Prop} (alike : Alike related)
    (same : related source tokens) : Supplies source tokens := by
  induction tokens generalizing source with
  | nil =>
      refine ⟨source, .nothing source, fun steps => ?_⟩
      induction steps generalizing source with
      | zero => exact (alike same).1
      | succ steps ih => exact ih (alike same).2
  | cons token tokens ih =>
      obtain ⟨last, later, ended⟩ := ih (alike same).2
      exact ⟨last, .token (Prod.ext (alike same).1 rfl) later, ended⟩

/-! ## What is taken from a source -/

/-- A source and the tokens that have been taken from it, in order. -/
structure Recorder (σ : Type) where
  source : σ
  taken : List Token

namespace Recorder

/-- The token of a step, if it gives one. -/
def given : Except LexicalError (Option Token) → List Token
  | .ok found => found.toList
  | .error _ => []

instance : TokenSource (Recorder σ) where
  next recorder :=
    let step := TokenSource.next recorder.source
    (step.1, ⟨step.2, recorder.taken ++ given step.1⟩)
  remaining recorder := TokenSource.remaining recorder.source
  next_lt recorder := TokenSource.next_lt recorder.source
  next_le recorder := TokenSource.next_le recorder.source

/-- Nobody who reads notices that a record is kept. -/
theorem read_eq (limit : Nat) (recorder : Recorder σ) :
    (Form.read limit recorder).1 = (Form.read limit recorder.source).1 ∧
      (Form.read limit recorder).2.source = (Form.read limit recorder.source).2 := by
  have alike : Alike fun (recorder : Recorder σ) (source : σ) => recorder.source = source := by
    rintro recorder _ rfl
    exact ⟨rfl, rfl⟩
  exact Form.read_alike alike limit rfl

end Recorder

end

namespace TokenStream

/-! ## Calls -/

/-- What may be asked of a stream. -/
inductive Call where
  | peek
  | advance
  | read (limit : Nat)

/-- Whether a call is there to take tokens. -/
def Call.takes : Call → Bool
  | .peek => false
  | .advance | .read _ => true

inductive Answer where
  | token (found : Except LexicalError (Option Token))
  | form (result : Except Error Value)

/-- A call with its answer and the tokens that it took. -/
structure Event where
  call : Call
  answer : Answer
  taken : List Token

section

variable {σ : Type} [TokenSource σ]

/-- Makes a call on a stream.  What reading takes is found out by keeping a record of it. -/
def make (stream : TokenStream σ) : Call → Event × TokenStream σ
  | .peek => (⟨.peek, .token stream.peek.1, []⟩, stream.peek.2)
  | .advance =>
      (⟨.advance, .token stream.advance.1, Recorder.given stream.advance.1⟩, stream.advance.2)
  | .read limit =>
      let recorded := (Form.read limit (Recorder.mk stream [])).2
      (⟨.read limit, .form (Form.read limit stream).1, recorded.taken⟩, (Form.read limit stream).2)

/-- What comes of calls made one after the other. -/
def events (stream : TokenStream σ) : List Call → List Event
  | [] => []
  | call :: calls => (stream.make call).1 :: (stream.make call).2.events calls

/-- The stream that calls leave behind. -/
def after (stream : TokenStream σ) : List Call → TokenStream σ
  | [] => stream
  | call :: calls => (stream.make call).2.after calls

theorem events_append (stream : TokenStream σ) (first second : List Call) :
    stream.events (first ++ second) =
      stream.events first ++ (stream.after first).events second := by
  induction first generalizing stream with
  | nil => rfl
  | cons call calls ih =>
      rw [List.cons_append, events, events, ih, after, List.cons_append]

theorem after_append (stream : TokenStream σ) (first second : List Call) :
    stream.after (first ++ second) = (stream.after first).after second := by
  induction first generalizing stream with
  | nil => rfl
  | cons call calls ih => exact ih (stream.make call).2

theorem make_call (stream : TokenStream σ) (call : Call) : (stream.make call).1.call = call := by
  cases call <;> rfl

/-! ## The tokens ahead -/

/-- The tokens ahead of a stream: the one taken in advance, then those that the source supplies. -/
def Holds (stream : TokenStream σ) (tokens : List Token) : Prop :=
  ∃ rest, tokens = stream.peeked.toList ++ rest ∧ Supplies stream.source rest

variable {stream first second : TokenStream σ} {tokens : List Token}

theorem holds_ofSource {source : σ} (supplies : Supplies source tokens) :
    (ofSource source).Holds tokens :=
  ⟨tokens, rfl, supplies⟩

/-- A look ahead shows the first token and leaves all of them where they are. -/
theorem Holds.peek (holds : stream.Holds tokens) :
    stream.peek.1 = .ok tokens.head? ∧ stream.peek.2.Holds tokens := by
  obtain ⟨rest, rfl, supplies⟩ := holds
  obtain ⟨peeked, source⟩ := stream
  cases peeked with
  | some token => exact ⟨rfl, rest, rfl, supplies⟩
  | none =>
      obtain ⟨after, step, later⟩ := supplies.next
      simp only [TokenStream.peek, step]
      refine ⟨rfl, rest.tail, ?_, later⟩
      cases rest <;> rfl

theorem Holds.advance (holds : stream.Holds tokens) :
    stream.advance.1 = .ok tokens.head? ∧ stream.advance.2.Holds tokens.tail := by
  obtain ⟨rest, rfl, supplies⟩ := holds
  obtain ⟨peeked, source⟩ := stream
  cases peeked with
  | some token => exact ⟨rfl, rest, rfl, supplies⟩
  | none =>
      obtain ⟨after, step, later⟩ := supplies.next
      simp only [TokenStream.advance, step]
      exact ⟨rfl, rest.tail, rfl, later⟩

/-- Reading a form gives what it gives for the tokens ahead, and takes some of them from the
front. -/
theorem Holds.read (holds : stream.Holds tokens) (limit : Nat) :
    (Form.read limit stream).1 = (Form.read limit tokens).1 ∧
      (Form.read limit stream).2.Holds (Form.read limit tokens).2 ∧
      (Form.read limit (Recorder.mk stream [])).2.taken ++ (Form.read limit tokens).2 = tokens := by
  -- What has been taken and what is ahead are the same tokens all the time.
  have alike : Alike fun (recorder : Recorder (TokenStream σ)) (ahead : List Token) =>
      recorder.source.Holds ahead ∧ recorder.taken ++ ahead = tokens := by
    rintro recorder ahead ⟨held, whole⟩
    obtain ⟨found, later⟩ := held.advance
    have step : TokenSource.next recorder =
        (recorder.source.advance.1, ⟨recorder.source.advance.2,
          recorder.taken ++ Recorder.given recorder.source.advance.1⟩) := rfl
    rw [step, found, next_tokens]
    refine ⟨rfl, later, ?_⟩
    rw [← whole, List.append_assoc]
    cases ahead <;> rfl
  obtain ⟨same, held, whole⟩ := Form.read_alike alike limit
    (⟨holds, rfl⟩ : (Recorder.mk stream []).source.Holds tokens ∧ [] ++ tokens = tokens)
  obtain ⟨result, rest⟩ := Recorder.read_eq limit (Recorder.mk stream [])
  exact ⟨result.symm.trans same, rest ▸ held, whole⟩

/-- What a call answers and takes is settled by the tokens ahead, no matter whether one of them has
been looked at. -/
theorem Holds.make (holds : first.Holds tokens) (holdsToo : second.Holds tokens) (call : Call) :
    (first.make call).1 = (second.make call).1 ∧
      ∃ left, (first.make call).1.taken ++ left = tokens ∧
        (first.make call).2.Holds left ∧ (second.make call).2.Holds left := by
  cases call with
  | peek =>
      obtain ⟨shown, held⟩ := holds.peek
      obtain ⟨shownToo, heldToo⟩ := holdsToo.peek
      refine ⟨?_, tokens, rfl, held, heldToo⟩
      rw [TokenStream.make, TokenStream.make, shown, shownToo]
  | advance =>
      obtain ⟨found, held⟩ := holds.advance
      obtain ⟨foundToo, heldToo⟩ := holdsToo.advance
      refine ⟨?_, tokens.tail, ?_, held, heldToo⟩
      · rw [TokenStream.make, TokenStream.make, found, foundToo]
      · rw [TokenStream.make, found, Recorder.given]
        cases tokens <;> rfl
  | read limit =>
      obtain ⟨result, held, whole⟩ := holds.read limit
      obtain ⟨resultToo, heldToo, wholeToo⟩ := holdsToo.read limit
      refine ⟨?_, (Form.read limit tokens).2, whole, held, heldToo⟩
      have taken := List.append_cancel_right (whole.trans wholeToo.symm)
      rw [TokenStream.make, TokenStream.make, result, resultToo, taken]

/-- Calls take the tokens ahead from the front, and streams with the same tokens ahead answer
alike. -/
theorem Holds.events (holds : first.Holds tokens) (holdsToo : second.Holds tokens)
    (calls : List Call) :
    first.events calls = second.events calls ∧
      ∃ left, (first.events calls).flatMap Event.taken ++ left = tokens ∧
        (first.after calls).Holds left ∧ (second.after calls).Holds left := by
  induction calls generalizing first second tokens with
  | nil => exact ⟨rfl, tokens, rfl, holds, holdsToo⟩
  | cons call calls ih =>
      obtain ⟨same, rest, own, held, heldToo⟩ := holds.make holdsToo call
      obtain ⟨later, left, others, last, lastToo⟩ := ih held heldToo
      refine ⟨?_, left, ?_, last, lastToo⟩
      · rw [TokenStream.events, TokenStream.events, same, later]
      · rw [TokenStream.events, List.flatMap_cons, List.append_assoc, others, own]

/-- Without the calls that only look, the others still have the same answers. -/
theorem Holds.filter_events (holds : first.Holds tokens) (holdsToo : second.Holds tokens)
    (calls : List Call) :
    (first.events calls).filter (·.call.takes) = second.events (calls.filter Call.takes) := by
  induction calls generalizing first second tokens with
  | nil => rfl
  | cons call calls ih =>
      rw [TokenStream.events, List.filter_cons, List.filter_cons, make_call]
      cases takes : call.takes with
      | false =>
          cases call with
          | peek => exact ih holds.peek.2 holdsToo
          | advance => cases takes
          | read limit => cases takes
      | true =>
          obtain ⟨same, rest, -, held, heldToo⟩ := holds.make holdsToo call
          rw [if_pos rfl, if_pos rfl, TokenStream.events, same, ih held heldToo]

theorem Holds.after_peeks (holds : stream.Holds tokens) (count : Nat) :
    (stream.after (List.replicate count .peek)).Holds tokens := by
  induction count generalizing stream with
  | zero => exact holds
  | succ count ih => exact ih holds.peek.2

/-- Looking ahead loses, repeats and reorders nothing.  Let a source supply tokens without an error,
and let calls have been made on its stream.  What they have taken is the front of the tokens, each
once and in order.  A look ahead shows the first of those that are left, if there is one, which is
what the next call that takes a token gives after any number of looks, and a form is read as it is
from what is left.  One more look at this point changes neither what came before nor what any later
call answers or takes, and altogether calls that differ in their looks only agree in all that the
other calls answer and take. -/
theorem looking_ahead_keeps_tokens {source : σ} (supplies : Supplies source tokens)
    (calls : List Call) :
    let stream := ofSource source
    (∃ left, (stream.events calls).flatMap Event.taken ++ left = tokens ∧
      (stream.after calls).peek.1 = .ok left.head? ∧
      (∀ looks, (stream.after (calls ++ List.replicate looks .peek)).advance.1 =
        .ok left.head?) ∧
      (∀ limit, (Form.read limit (stream.after calls)).1 = (Form.read limit left).1) ∧
      ∀ later, ∃ others, stream.events (calls ++ later) = stream.events calls ++ others ∧
        stream.events (calls ++ .peek :: later) =
          stream.events calls ++ ⟨.peek, .token (.ok left.head?), []⟩ :: others) ∧
    ∀ others, others.filter Call.takes = calls.filter Call.takes →
      (stream.events others).filter (·.call.takes) =
        (stream.events calls).filter (·.call.takes) := by
  intro stream
  have holds : stream.Holds tokens := holds_ofSource supplies
  obtain ⟨-, left, whole, held, -⟩ := holds.events holds calls
  refine ⟨⟨left, whole, held.peek.1, fun looks => ?_, fun limit => (held.read limit).1,
    fun later => ⟨(stream.after calls).events later, events_append stream calls later, ?_⟩⟩,
    fun others same => ?_⟩
  · rw [after_append]
    exact (held.after_peeks looks).advance.1
  · obtain ⟨shown, kept⟩ := held.peek
    rw [events_append, TokenStream.events, (held.events kept later).1, make, shown]
  · rw [holds.filter_events holds others, same, holds.filter_events holds calls]

end

/-- An open list after a symbol.  The symbol is looked at and taken, and a look follows it; reading
then takes the list up to the end of the source, where it fails. -/
theorem looking_ahead_keeps_tokens_open_list :
    let lexer := Lexer.ofSource 2 (.stream [.bytes [0x61, 0x20, 0x28], .interrupted, .bytes [0x62]])
    let calls : List Call := [.peek, .advance, .peek]
    let stream := ofSource lexer
    Supplies lexer [.symbol "a", .parenLeft, .symbol "b"] ∧
      (stream.after calls).peek.1 = .ok (some .parenLeft) ∧
      (stream.after (calls ++ [.peek, .peek])).advance.1 = .ok (some .parenLeft) ∧
      (Form.read 9 (stream.after calls)).1 = .error (.parse .unmatchedParens) ∧
      (stream.events [.advance, .peek, .peek]).filter (·.call.takes) =
        (stream.events calls).filter (·.call.takes) := by
  intro lexer calls stream
  have supplies : Supplies lexer [.symbol "a", .parenLeft, .symbol "b"] := by
    apply supplies_of_alike Lexer.alike_outcomes
    have delivered : lexer.Delivers [0x61, 0x20, 0x28, 0x62] :=
      ⟨_, .more (List.cons_ne_nil _ _) (.interrupted (.whole [0x62])), rfl⟩
    rw [Lexer.outcomes_same delivered, Lexer.outcomes_ofBytes]
    rfl
  obtain ⟨⟨left, whole, shown, next, reads, -⟩, others⟩ :=
    looking_ahead_keeps_tokens supplies calls
  have taken : (stream.events calls).flatMap Event.taken = [.symbol "a"] := rfl
  obtain rfl : left = [.parenLeft, .symbol "b"] := List.append_cancel_left (taken ▸ whole)
  refine ⟨supplies, shown, next 2, (reads 9).trans ?_, others _ rfl⟩
  have opened : Reading.start.accept? .parenLeft = some (.more (.expecting [.items []])) := rfl
  have item : (Reading.expecting [.items []]).accept? (.symbol "b") =
      some (.more (.expecting [.items [.symbol "B"]])) := rfl
  rw [Form.read, Form.readFrom_cons opened, Form.resume_of_depth_le (by decide),
    Form.readFrom_cons item, Form.resume_of_depth_le (by decide), Form.readFrom_nil]
  rfl

end TokenStream

end ConsLisp
