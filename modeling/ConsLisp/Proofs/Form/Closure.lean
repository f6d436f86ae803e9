import ConsLisp.Proofs.Form.Acceptance

/-!
# Properties of all forms that are read

A property that atoms have and that quotes and lists hand on holds of every form the reader gives,
whatever the source.  What has been read of a form has it at every step.
-/

namespace ConsLisp

/-- A property of values that reading hands on from the parts of a form to the form. -/
structure Form.Closed (holds : Value → Prop) : Prop where
  atom : ∀ {token : Token} {value : Value}, token.atom? = some value → holds value
  quoted : ∀ {value : Value}, holds value → holds (.quoted value)
  closed : ∀ {items : List Value}, (∀ item ∈ items, holds item) → holds (.ofClosed items)
  dotted : ∀ {items : List Value} {terminator : Value}, items ≠ [] →
    (∀ item ∈ items, holds item) → holds terminator → holds (.ofItems items terminator)

/-- Lists are made by putting one value in front of another, and so are those that are read. -/
theorem Form.Closed.of_cons {holds : Value → Prop}
    (atom : ∀ {token : Token} {value : Value}, token.atom? = some value → holds value)
    (quoted : ∀ {value : Value}, holds value → holds (.quoted value)) (nil : holds .nil)
    (cons : ∀ {head tail : Value}, holds head → holds tail → holds (.cons head tail)) :
    Form.Closed holds where
  atom := atom
  quoted := quoted
  closed each := by
    unfold Value.ofClosed
    split
    · exact each _ List.mem_cons_self
    · exact Value.holds_ofItems cons each nil
  dotted _ each last := Value.holds_ofItems cons each last

namespace Reading

/-- What surrounds a form consists of values with the property. -/
def Context.All (holds : Value → Prop) : Context → Prop
  | .quote => True
  | .items read => ∀ item ∈ read, holds item
  | .terminator read => read ≠ [] ∧ ∀ item ∈ read, holds item

def All (holds : Value → Prop) : Reading → Prop
  | .expecting contexts => ∀ context ∈ contexts, context.All holds
  | .closing read terminator contexts =>
      read ≠ [] ∧ (∀ item ∈ read, holds item) ∧ holds terminator ∧
        ∀ context ∈ contexts, context.All holds

def Progress.All (holds : Value → Prop) : Progress → Prop
  | .more reading => reading.All holds
  | .form value => holds value

variable {holds : Value → Prop}

theorem all_start : start.All holds :=
  fun _ member => by cases member

theorem all_deliver (closed : Form.Closed holds) {value : Value} {contexts : List Context}
    (own : holds value) (around : ∀ context ∈ contexts, context.All holds) :
    (deliver value contexts).All holds := by
  induction contexts generalizing value with
  | nil => exact own
  | cons context contexts ih =>
      have inner := around context List.mem_cons_self
      have outer : ∀ other ∈ contexts, other.All holds := fun other member =>
        around other (List.mem_cons_of_mem context member)
      cases context with
      | quote => exact ih (closed.quoted own) outer
      | items read =>
          rintro other (_ | ⟨_, member⟩)
          · rintro item (_ | ⟨_, found⟩)
            · exact own
            · exact inner item found
          · exact outer other member
      | terminator read => exact ⟨inner.1, inner.2, own, outer⟩

theorem all_push {context : Context} {contexts : List Context} (own : context.All holds)
    (around : ∀ other ∈ contexts, other.All holds) :
    (expecting (context :: contexts)).All holds := by
  rintro other (_ | ⟨_, member⟩)
  · exact own
  · exact around other member

theorem all_close (closed : Form.Closed holds) {contexts : List Context} {progress : Progress}
    (own : (expecting contexts).All holds) (found : close? contexts = some progress) :
    progress.All holds := by
  cases contexts with
  | nil => cases found
  | cons context contexts =>
      cases context with
      | items read =>
          cases found
          refine all_deliver closed (closed.closed fun item member => ?_)
            fun other member => own other (List.mem_cons_of_mem _ member)
          exact own _ List.mem_cons_self item (List.mem_reverse.mp member)
      | _ => cases found

theorem all_dot {contexts : List Context} {progress : Progress}
    (own : (expecting contexts).All holds) (found : dot? contexts = some progress) :
    progress.All holds := by
  cases contexts with
  | nil => cases found
  | cons context contexts =>
      cases context with
      | items read =>
          cases read with
          | nil => cases found
          | cons item read =>
              cases found
              exact all_push ⟨List.cons_ne_nil item read, own _ List.mem_cons_self⟩
                fun other member => own other (List.mem_cons_of_mem _ member)
      | _ => cases found

theorem all_atom (closed : Form.Closed holds) (token : Token) {contexts : List Context}
    {progress : Progress} (own : (expecting contexts).All holds)
    (found : token.atom?.map (deliver · contexts) = some progress) : progress.All holds := by
  obtain ⟨value, denoted, rfl⟩ := Option.map_eq_some_iff.mp found
  exact all_deliver closed (closed.atom denoted) own

/-- Each accepted token keeps the property of what has been read. -/
theorem all_accept (closed : Form.Closed holds) {reading : Reading} {token : Token}
    {progress : Progress} (own : reading.All holds)
    (accepted : reading.accept? token = some progress) : progress.All holds := by
  cases reading with
  | closing read terminator contexts =>
      obtain ⟨nonempty, each, last, around⟩ := own
      cases token with
      | parenRight =>
          cases accepted
          refine all_deliver closed (closed.dotted (by simpa using nonempty) ?_ last) around
          exact fun item member => each item (List.mem_reverse.mp member)
      | _ => cases accepted
  | expecting contexts =>
      cases token with
      | parenLeft =>
          cases accepted
          exact all_push (fun _ member => by cases member) own
      | quote =>
          cases accepted
          exact all_push trivial own
      | parenRight => exact all_close closed own accepted
      | dot => exact all_dot own accepted
      | integer number => exact all_atom closed (.integer number) own accepted
      | float number => exact all_atom closed (.float number) own accepted
      | symbol name => exact all_atom closed (.symbol name) own accepted
      | string text => exact all_atom closed (.string text) own accepted

theorem accept_of_feed {reading : Reading} {token : Token} {progress : Progress}
    (fed : reading.feed token = .ok progress) : reading.accept? token = some progress := by
  unfold feed at fed
  split at fed
  next same =>
      cases fed
      exact same
  next => cases fed

end Reading

namespace Form

variable {holds : Value → Prop} {σ : Type} [TokenSource σ]

theorem readFrom_holds (closed : Closed holds) {limit : Nat} {reading : Reading} {source rest : σ}
    {form : Value} (own : reading.All holds)
    (found : readFrom limit reading source = (.ok form, rest)) : holds form := by
  fun_induction readFrom limit reading source with
  | case1 => cases found
  | case2 => cases found
  | case3 => cases found
  | case4 reading source token after step value fed =>
      cases found
      exact Reading.all_accept closed own (Reading.accept_of_feed fed)
  | case5 => cases found
  | case6 reading source token after step next fed within ih =>
      exact ih (Reading.all_accept closed own (Reading.accept_of_feed fed)) found

theorem read_holds (closed : Closed holds) {limit : Nat} {source rest : σ} {form : Value}
    (found : read limit source = (.ok form, rest)) : holds form :=
  readFrom_holds closed Reading.all_start (read_eq_ok_iff.mp found).1

end Form

end ConsLisp
