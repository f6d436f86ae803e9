import ConsLisp.Form.Stream
import ConsLisp.Proofs.Value.List

/-!
# The grammar of forms

A form is an atom, a quote before a form, or forms between parentheses, the last of which may be
set off by a dot.  The grammar says which tokens derive which value and how deeply the derivation
is nested; the reader accepts a form exactly when its tokens derive it within the limit.
-/

namespace ConsLisp

/-- The atom a token denotes.  Names are folded, and two of them denote constants. -/
inductive Token.Denotes : Token → Value → Prop where
  | integer (number : Int) : Denotes (.integer number) (.integer number)
  | float (number : Float) : Denotes (.float number) (.float number)
  | string (text : String) : Denotes (.string text) (.string text)
  | truth {name : String} (folded : Text.fold name = "T") : Denotes (.symbol name) .truth
  | nil {name : String} (folded : Text.fold name = "NIL") : Denotes (.symbol name) .nil
  | symbol {name : String} (notTruth : Text.fold name ≠ "T") (notNil : Text.fold name ≠ "NIL") :
      Denotes (.symbol name) (.symbol (Text.fold name))

theorem Token.atom?_eq_some_iff {token : Token} {value : Value} :
    token.atom? = some value ↔ token.Denotes value := by
  constructor
  · intro found
    cases token with
    | integer number => cases found; exact .integer number
    | float number => cases found; exact .float number
    | string text => cases found; exact .string text
    | symbol name =>
        simp only [atom?] at found
        split at found
        next folded => cases found; exact .truth folded
        next notTruth =>
            split at found
            next folded => cases found; exact .nil folded
            next notNil => cases found; exact .symbol notTruth notNil
    | quote => cases found
    | dot => cases found
    | parenLeft => cases found
    | parenRight => cases found
  · intro denoted
    cases denoted with
    | integer number => rfl
    | float number => rfl
    | string text => rfl
    | truth folded => simp [atom?, folded]
    | nil folded => simp [atom?, folded]
    | symbol notTruth notNil => simp [atom?, notTruth, notNil]

namespace Form

/-- Tokens together with the form they are read as. -/
structure Phrase where
  tokens : List Token
  form : Value

/-- The tokens of phrases, one phrase after the other. -/
def Phrase.spread (phrases : List Phrase) : List Token :=
  phrases.flatMap Phrase.tokens

def Phrase.forms (phrases : List Phrase) : List Value :=
  phrases.map Phrase.form

@[simp] theorem Phrase.spread_nil : spread [] = [] := rfl

@[simp] theorem Phrase.spread_cons (phrase : Phrase) (phrases : List Phrase) :
    spread (phrase :: phrases) = phrase.tokens ++ spread phrases := rfl

@[simp] theorem Phrase.spread_append (first second : List Phrase) :
    spread (first ++ second) = spread first ++ spread second :=
  List.flatMap_append

@[simp] theorem Phrase.forms_nil : forms [] = [] := rfl

@[simp] theorem Phrase.forms_cons (phrase : Phrase) (phrases : List Phrase) :
    forms (phrase :: phrases) = phrase.form :: forms phrases := rfl

@[simp] theorem Phrase.forms_append (first second : List Phrase) :
    forms (first ++ second) = forms first ++ forms second :=
  List.map_append

theorem Phrase.forms_ne_nil {phrases : List Phrase} (nonempty : phrases ≠ []) :
    forms phrases ≠ [] := by
  simpa [forms] using nonempty

/-- Tokens derive a form, with quotes and parentheses nested at most `depth` deep. -/
inductive Derives : Nat → List Token → Value → Prop where
  | atom {depth : Nat} {token : Token} {value : Value} (denoted : token.Denotes value) :
      Derives depth [token] value
  | quote {depth : Nat} {tokens : List Token} {value : Value}
      (inner : Derives depth tokens value) :
      Derives (depth + 1) (.quote :: tokens) (.quoted value)
  | empty {depth : Nat} : Derives (depth + 1) [.parenLeft, .parenRight] .nil
  /-- A list that holds nothing but one list is that list. -/
  | collapsed {depth : Nat} {tokens : List Token} {items : List Value} {terminator : Value}
      (inner : Derives depth tokens (.list items terminator)) :
      Derives (depth + 1) (.parenLeft :: (tokens ++ [.parenRight])) (.list items terminator)
  | proper {depth : Nat} {phrases : List Phrase}
      (each : ∀ phrase ∈ phrases, Derives depth phrase.tokens phrase.form)
      (nonempty : phrases ≠ [])
      (notOneList : ∀ items terminator, Phrase.forms phrases ≠ [.list items terminator]) :
      Derives (depth + 1) (.parenLeft :: (Phrase.spread phrases ++ [.parenRight]))
        (.list (Phrase.forms phrases) .nil)
  /-- A list after the dot goes on with its items. -/
  | merged {depth : Nat} {phrases : List Phrase} {tokens : List Token} {items : List Value}
      {terminator : Value}
      (each : ∀ phrase ∈ phrases, Derives depth phrase.tokens phrase.form)
      (nonempty : phrases ≠ [])
      (last : Derives depth tokens (.list items terminator)) :
      Derives (depth + 1)
        (.parenLeft :: (Phrase.spread phrases ++ .dot :: (tokens ++ [.parenRight])))
        (.list (Phrase.forms phrases ++ items) terminator)
  /-- Anything else after the dot is the terminator. -/
  | dotted {depth : Nat} {phrases : List Phrase} {tokens : List Token} {terminator : Value}
      (each : ∀ phrase ∈ phrases, Derives depth phrase.tokens phrase.form)
      (nonempty : phrases ≠ [])
      (last : Derives depth tokens terminator)
      (notList : terminator.isOf .list = false) :
      Derives (depth + 1)
        (.parenLeft :: (Phrase.spread phrases ++ .dot :: (tokens ++ [.parenRight])))
        (.list (Phrase.forms phrases) terminator)

/-- Tokens are those of one form, however deeply nested. -/
def IsForm (tokens : List Token) (value : Value) : Prop :=
  ∃ depth, Derives depth tokens value

end Form

theorem Value.ofClosed_of_not_one_list {items : List Value} (nonempty : items ≠ [])
    (notOneList : ∀ inner terminator, items ≠ [.list inner terminator]) :
    Value.ofClosed items = .list items .nil := by
  unfold Value.ofClosed
  split
  next inner terminator => exact absurd rfl (notOneList inner terminator)
  next => exact Value.ofItems_of_not_list nonempty rfl

namespace Form

/-! ## What the grammar derives, the reader accepts -/

section

variable {σ : Type} [TokenSource σ]

/-- Goes on with what a token has made of a reading. -/
def resume (limit : Nat) (progress : Reading.Progress) (source : σ) : Except Error Value × σ :=
  match progress with
  | .form value => (.ok value, source)
  | .more next =>
      if limit < next.depth then (.error (.tooDeep .reading), source)
      else readFrom limit next source

theorem resume_of_depth_le {limit : Nat} {next : Reading} (within : next.depth ≤ limit)
    (source : σ) : resume limit (.more next) source = readFrom limit next source :=
  if_neg (Nat.not_lt.mpr within)

end

theorem readFrom_nil (limit : Nat) (reading : Reading) :
    readFrom limit reading ([] : List Token) = (.error (.parse reading.endError), []) := by
  rw [readFrom]
  rfl

theorem readFrom_cons {limit : Nat} {reading : Reading} {token : Token}
    {progress : Reading.Progress} (accepted : reading.accept? token = some progress)
    (rest : List Token) :
    readFrom limit reading (token :: rest) = resume limit progress rest := by
  rw [readFrom]
  simp only [TokenSource.next, Reading.feed, accepted]
  cases progress <;> rfl

/-- Wherever tokens stand within the limit, reading them delivers a value to what surrounds
them. -/
def Delivers (limit depth : Nat) (tokens : List Token) (value : Value) : Prop :=
  ∀ (contexts : List Reading.Context) (rest : List Token), contexts.length + depth ≤ limit →
    readFrom limit (.expecting contexts) (tokens ++ rest) =
      resume limit (Reading.deliver value contexts) rest

/-- Phrases inside parentheses become items of the list. -/
theorem readFrom_phrases {limit depth : Nat} {contexts : List Reading.Context}
    (fits : contexts.length + 1 + depth ≤ limit) {phrases : List Phrase}
    (each : ∀ phrase ∈ phrases, Delivers limit depth phrase.tokens phrase.form)
    (read : List Value) (rest : List Token) :
    readFrom limit (.expecting (.items read :: contexts)) (Phrase.spread phrases ++ rest) =
      readFrom limit (.expecting (.items ((Phrase.forms phrases).reverse ++ read) :: contexts))
        rest := by
  induction phrases generalizing read with
  | nil => rfl
  | cons phrase phrases ih =>
      have first := each phrase List.mem_cons_self (.items read :: contexts)
        (Phrase.spread phrases ++ rest) fits
      have others := ih (fun other member => each other (List.mem_cons_of_mem phrase member))
        (phrase.form :: read)
      have within : contexts.length + 1 ≤ limit := by omega
      rw [Phrase.spread_cons, List.append_assoc, first, Reading.deliver,
        resume_of_depth_le within, others]
      simp

/-- A parenthesis opens a list, which then takes its phrases. -/
theorem readFrom_opened {limit depth : Nat} {contexts : List Reading.Context}
    {phrases : List Phrase} (fits : contexts.length + (depth + 1) ≤ limit)
    (each : ∀ phrase ∈ phrases, Delivers limit depth phrase.tokens phrase.form)
    (rest : List Token) :
    readFrom limit (.expecting contexts) (.parenLeft :: (Phrase.spread phrases ++ rest)) =
      readFrom limit (.expecting (.items (Phrase.forms phrases).reverse :: contexts)) rest := by
  have within : contexts.length + 1 ≤ limit := by omega
  rw [readFrom_cons rfl, resume_of_depth_le within, readFrom_phrases (by omega) each,
    List.append_nil]

/-- After the dot one more form is read, and then only the closing parenthesis. -/
theorem readFrom_dot {limit depth : Nat} {contexts : List Reading.Context}
    {phrases : List Phrase} {tokens : List Token} {last : Value}
    (fits : contexts.length + (depth + 1) ≤ limit) (nonempty : phrases ≠ [])
    (delivered : Delivers limit depth tokens last) (rest : List Token) :
    readFrom limit (.expecting (.items (Phrase.forms phrases).reverse :: contexts))
        (.dot :: (tokens ++ .parenRight :: rest)) =
      resume limit (Reading.deliver (.ofItems (Phrase.forms phrases) last) contexts) rest := by
  obtain ⟨item, read, shape⟩ : ∃ item read, (Phrase.forms phrases).reverse = item :: read :=
    List.exists_cons_of_ne_nil (by simpa using Phrase.forms_ne_nil nonempty)
  have whole : (item :: read).reverse = Phrase.forms phrases := by
    rw [← shape, List.reverse_reverse]
  have within : contexts.length + 1 ≤ limit := by omega
  rw [shape, readFrom_cons rfl, resume_of_depth_le within,
    delivered (.terminator (item :: read) :: contexts) _ (by simpa [Nat.add_assoc, Nat.add_comm 1]
      using fits),
    Reading.deliver, resume_of_depth_le (Nat.le_of_succ_le within), readFrom_cons rfl, whole]

namespace Delivers

variable {limit depth : Nat} {tokens : List Token}

theorem atom {token : Token} {value : Value} (denoted : token.Denotes value) :
    Delivers limit depth [token] value := by
  intro contexts rest _
  apply readFrom_cons
  have found := Token.atom?_eq_some_iff.mpr denoted
  cases denoted <;> simp [Reading.accept?, found]

theorem quote {value : Value} (delivered : Delivers limit depth tokens value) :
    Delivers limit (depth + 1) (.quote :: tokens) (.quoted value) := by
  intro contexts rest fits
  have within : contexts.length + 1 ≤ limit := by omega
  have fitsInside : (Reading.Context.quote :: contexts).length + depth ≤ limit := by
    rw [List.length_cons]
    omega
  rw [List.cons_append, readFrom_cons rfl, resume_of_depth_le within,
    delivered (.quote :: contexts) rest fitsInside, Reading.deliver]

theorem list {phrases : List Phrase}
    (each : ∀ phrase ∈ phrases, Delivers limit depth phrase.tokens phrase.form) :
    Delivers limit (depth + 1) (.parenLeft :: (Phrase.spread phrases ++ [.parenRight]))
      (.ofClosed (Phrase.forms phrases)) := by
  intro contexts rest fits
  rw [List.cons_append, List.append_assoc, readFrom_opened fits each, List.singleton_append,
    readFrom_cons rfl, List.reverse_reverse]

theorem dotted {phrases : List Phrase} {last : Value}
    (each : ∀ phrase ∈ phrases, Delivers limit depth phrase.tokens phrase.form)
    (nonempty : phrases ≠ []) (delivered : Delivers limit depth tokens last) :
    Delivers limit (depth + 1)
      (.parenLeft :: (Phrase.spread phrases ++ .dot :: (tokens ++ [.parenRight])))
      (.ofItems (Phrase.forms phrases) last) := by
  intro contexts rest fits
  rw [List.cons_append, List.append_assoc, readFrom_opened fits each, List.cons_append,
    List.append_assoc, List.singleton_append, readFrom_dot fits nonempty delivered]

end Delivers

/-- The tokens of a form deliver that form. -/
theorem Derives.delivers {depth : Nat} {tokens : List Token} {value : Value}
    (derived : Derives depth tokens value) (limit : Nat) :
    Delivers limit depth tokens value := by
  induction derived with
  | atom denoted => exact .atom denoted
  | quote inner ih => exact ih.quote
  | @empty depth =>
      have none : ∀ phrase ∈ ([] : List Phrase), Delivers limit depth phrase.tokens phrase.form :=
        fun _ member => absurd member List.not_mem_nil
      exact Delivers.list none
  | @collapsed depth tokens items terminator inner ih =>
      have one : ∀ phrase ∈ [(⟨tokens, .list items terminator⟩ : Phrase)],
          Delivers limit depth phrase.tokens phrase.form := by
        simpa using ih
      simpa using! Delivers.list one
  | proper each nonempty notOneList ih =>
      have delivered := Delivers.list ih
      rwa [Value.ofClosed_of_not_one_list (Phrase.forms_ne_nil nonempty) notOneList] at delivered
  | merged each nonempty last ih inner =>
      have delivered := Delivers.dotted ih nonempty inner
      rwa [Value.ofItems_list] at delivered
  | dotted each nonempty last notList ih inner =>
      have delivered := Delivers.dotted ih nonempty inner
      rwa [Value.ofItems_of_not_list (Phrase.forms_ne_nil nonempty) notList] at delivered

end Form

end ConsLisp
