import ConsLisp.Form.Reading

/-!
# What a token does to a reading

The rules by which tokens are accepted, one for each kind of step.  A token opens at most one
context, and once a token has been taken a reading is no longer at its start.
-/

namespace ConsLisp.Reading

/-- A token accepted by a reading, and what it makes of it. -/
inductive Accepts : Reading → Token → Progress → Prop where
  | atom {token : Token} {value : Value} {contexts : List Context}
      (denoted : token.atom? = some value) :
      Accepts (.expecting contexts) token (deliver value contexts)
  | quote {contexts : List Context} :
      Accepts (.expecting contexts) .quote (.more (.expecting (.quote :: contexts)))
  | opened {contexts : List Context} :
      Accepts (.expecting contexts) .parenLeft (.more (.expecting (.items [] :: contexts)))
  | closed {read : List Value} {contexts : List Context} :
      Accepts (.expecting (.items read :: contexts)) .parenRight
        (deliver (.ofClosed read.reverse) contexts)
  | divided {item : Value} {read : List Value} {contexts : List Context} :
      Accepts (.expecting (.items (item :: read) :: contexts)) .dot
        (.more (.expecting (.terminator (item :: read) :: contexts)))
  | ended {read : List Value} {terminator : Value} {contexts : List Context} :
      Accepts (.closing read terminator contexts) .parenRight
        (deliver (.ofItems read.reverse terminator) contexts)

theorem accepts_of_accept? {reading : Reading} {token : Token} {progress : Progress}
    (accepted : reading.accept? token = some progress) : Accepts reading token progress := by
  cases reading with
  | closing read terminator contexts =>
      cases token with
      | parenRight =>
          cases accepted
          exact .ended
      | _ => cases accepted
  | expecting contexts =>
      have atom (denoted : token.atom?.map (deliver · contexts) = some progress) :
          Accepts (.expecting contexts) token progress := by
        obtain ⟨value, found, rfl⟩ := Option.map_eq_some_iff.mp denoted
        exact .atom found
      cases token with
      | parenLeft =>
          cases accepted
          exact .opened
      | quote =>
          cases accepted
          exact .quote
      | parenRight =>
          simp only [accept?, close?] at accepted
          split at accepted
          · cases accepted
            exact .closed
          · cases accepted
      | dot =>
          simp only [accept?, dot?] at accepted
          split at accepted
          · cases accepted
            exact .divided
          · cases accepted
      | integer number => exact atom accepted
      | float number => exact atom accepted
      | symbol name => exact atom accepted
      | string text => exact atom accepted

/-- A form is delivered to a context that is already there, so none is opened and the reading is
not back at its start. -/
theorem of_deliver {value : Value} {contexts : List Context} {next : Reading}
    (delivered : deliver value contexts = .more next) :
    next.depth ≤ contexts.length ∧ next ≠ .start := by
  induction contexts generalizing value with
  | nil => cases delivered
  | cons context contexts ih =>
      cases context with
      | quote =>
          obtain ⟨depth, begun⟩ := ih delivered
          exact ⟨Nat.le_succ_of_le depth, begun⟩
      | items read =>
          cases delivered
          exact ⟨Nat.le_refl _, by simp [start]⟩
      | terminator read =>
          cases delivered
          exact ⟨Nat.le_succ _, by simp [start]⟩

/-- A token opens at most one context, and a reading that goes on after it is not at its start. -/
theorem of_accept? {reading next : Reading} {token : Token}
    (accepted : reading.accept? token = some (.more next)) :
    next.depth ≤ reading.depth + 1 ∧ next ≠ .start := by
  have accepts := accepts_of_accept? accepted
  generalize same : Progress.more next = progress at accepts
  cases accepts with
  | atom denoted =>
      obtain ⟨depth, begun⟩ := of_deliver same.symm
      exact ⟨Nat.le_succ_of_le depth, begun⟩
  | closed =>
      obtain ⟨depth, begun⟩ := of_deliver same.symm
      exact ⟨Nat.le_succ_of_le (Nat.le_succ_of_le depth), begun⟩
  | ended =>
      obtain ⟨depth, begun⟩ := of_deliver same.symm
      exact ⟨Nat.le_succ_of_le depth, begun⟩
  | quote =>
      cases same
      exact ⟨Nat.le_refl _, by simp [start]⟩
  | opened =>
      cases same
      exact ⟨Nat.le_refl _, by simp [start]⟩
  | divided =>
      cases same
      exact ⟨Nat.le_succ _, by simp [start]⟩

theorem eq_unexpectedToken_of_feed {reading : Reading} {token : Token} {fault : ParseError}
    (refused : reading.feed token = .error fault) : fault = .unexpectedToken token := by
  unfold feed at refused
  split at refused
  next => cases refused
  next =>
      cases refused
      rfl

/-- The input counts as empty only where nothing of a form has been read. -/
theorem endError_eq_emptyInput_iff {reading : Reading} :
    reading.endError = .emptyInput ↔ reading = .start := by
  unfold endError
  split <;> simp [start]

end ConsLisp.Reading
