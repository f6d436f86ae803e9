import ConsLisp.Proofs.Parameter

/-!
# The syntax of accepted parameter lists

The documented syntax of a parameter list has three sections: required entries, optional ones behind
a marker, and one entry for the rest.  What is accepted is looser.  The terminator of a dotted list
counts as its last entry, the marker of the optional section may be repeated, even behind the entry
for the rest, and plain entries may stand behind it as long as no optional one does.  Every other
form is refused.
-/

namespace ConsLisp.Parameter

/-! ## Pieces of syntax -/

/-- Entries of a parameter list that form a piece of its syntax, with the parameters they stand
for. -/
abbrev Piece : Type :=
  List Value → List Parameter → Prop

/-- Any number of pieces one after the other. -/
inductive Series (piece : Piece) : Piece where
  | nil : Series piece [] []
  | cons {own more : List Value} {first others : List Parameter} (one : piece own first)
      (later : Series piece more others) : Series piece (own ++ more) (first ++ others)

inductive AtMostOne (piece : Piece) : Piece where
  | none : AtMostOne piece [] []
  | one {entries : List Value} {parameters : List Parameter} (own : piece entries parameters) :
      AtMostOne piece entries parameters

inductive Either (left right : Piece) : Piece where
  | left {entries : List Value} {parameters : List Parameter} (own : left entries parameters) :
      Either left right entries parameters
  | right {entries : List Value} {parameters : List Parameter} (own : right entries parameters) :
      Either left right entries parameters

/-- A piece and behind it another one. -/
inductive Followed (front back : Piece) : Piece where
  | intro {own more : List Value} {first others : List Parameter} (before : front own first)
      (behind : back more others) : Followed front back (own ++ more) (first ++ others)

/-! ## The documented syntax -/

/-- The names that change the mode of other names. -/
def markers : List String :=
  ["&PLAIN", "&REST", "&OPTIONAL"]

/-- A name behind the marker of its mode. -/
inductive Marked (mode : Mode) : Piece where
  | intro {name : String} (free : name ∉ markers) :
      Marked mode [.symbol mode.marker, .symbol name] [⟨mode, name, .nil⟩]

inductive Required : Piece where
  | normal {name : String} (free : name ∉ markers) :
      Required [.symbol name] [⟨.normal, name, .nil⟩]
  | plain {entries : List Value} {parameters : List Parameter}
      (own : Marked .plain entries parameters) : Required entries parameters

/-- A name, or a proper list of a name and at most one default. -/
inductive Optional : Piece where
  | name {name : String} (free : name ∉ markers) :
      Optional [.symbol name] [⟨.optional, name, .nil⟩]
  | alone (name : String) : Optional [.list [.symbol name] .nil] [⟨.optional, name, .nil⟩]
  | literal (name : String) (literal : Value) :
      Optional [.list [.symbol name, literal] .nil] [⟨.optional, name, literal⟩]

/-- The marker of the optional section, which stands for no parameter. -/
inductive Announcement : Piece where
  | intro : Announcement [.symbol Mode.optional.marker] []

/-- The documented syntax: required entries, then perhaps optional ones behind a marker, then
perhaps one for the rest. -/
inductive Documented : Value → List Parameter → Prop where
  | nil : Documented .nil []
  | list {entries : List Value} {parameters : List Parameter}
      (sections : Followed (Series Required)
        (Followed (AtMostOne (Followed Announcement (Series Optional))) (AtMostOne (Marked .rest)))
        entries parameters)
      (distinct : (parameters.map (·.name)).Nodup) : Documented (.list entries .nil) parameters

/-! ## The accepted syntax -/

/-- A name, or a list whose elements are a name and at most one default. -/
inductive LooseOptional : Piece where
  | name {name : String} (free : name ∉ markers) :
      LooseOptional [.symbol name] [⟨.optional, name, .nil⟩]
  | alone {items : List Value} {terminator : Value} {name : String}
      (own : Value.elements items terminator = [.symbol name]) :
      LooseOptional [.list items terminator] [⟨.optional, name, .nil⟩]
  | literal {items : List Value} {terminator literal : Value} {name : String}
      (own : Value.elements items terminator = [.symbol name, literal]) :
      LooseOptional [.list items terminator] [⟨.optional, name, literal⟩]

/-- The optional section, with plain entries in front and its marker anywhere. -/
def LooseSection : Piece :=
  Followed Announcement (Followed (Series (Either (Marked .plain) Announcement))
    (Series (Either LooseOptional Announcement)))

/-- The entry for the rest, with markers of the optional section behind it. -/
def LooseRest : Piece :=
  Followed (Marked .rest) (Series Announcement)

/-- The syntax that is accepted. -/
inductive Accepted : Value → List Parameter → Prop where
  | nil : Accepted .nil []
  | list {items : List Value} {terminator : Value} {parameters : List Parameter}
      (sections : Followed (Series Required)
        (Followed (AtMostOne LooseSection) (AtMostOne LooseRest))
        (Value.elements items terminator) parameters)
      (distinct : (parameters.map (·.name)).Nodup) : Accepted (.list items terminator) parameters

/-! ## Entries one after the other -/

/-- Entries with the parameters they stand for, after the marker of the optional section or not. -/
inductive Reads : Bool → List Value → List Parameter → Prop where
  | nil {among : Bool} : Reads among [] []
  | marker {among : Bool} {entries : List Value} {parameters : List Parameter}
      (later : Reads true entries parameters) :
      Reads among (.symbol Mode.optional.marker :: entries) parameters
  | marked {among : Bool} {mode : Mode} {own entries : List Value}
      {first parameters : List Parameter} (modes : mode = .plain ∨ mode = .rest)
      (one : Marked mode own first) (later : Reads among entries parameters) :
      Reads among (own ++ entries) (first ++ parameters)
  | normal {name : String} {entries : List Value} {parameters : List Parameter}
      (free : name ∉ markers) (later : Reads false entries parameters) :
      Reads false (.symbol name :: entries) (⟨.normal, name, .nil⟩ :: parameters)
  | optional {own entries : List Value} {first parameters : List Parameter}
      (one : LooseOptional own first) (later : Reads true entries parameters) :
      Reads true (own ++ entries) (first ++ parameters)

theorem marker?_eq_none_iff {name : String} :
    (Value.symbol name).marker? = none ↔ name ∉ markers := by
  unfold Value.marker? markers
  split <;> simp_all

theorem marker?_eq_some_iff {value : Value} {mode : Mode} :
    value.marker? = some mode ↔ mode ≠ .normal ∧ value = .symbol mode.marker := by
  unfold Value.marker?
  split <;> cases mode <;> simp_all [Mode.marker]

section

variable {limit : Nat} {form entry : Value} {entries : List Value} {parameter : Parameter}
  {parameters : List Parameter}

theorem nameOf_eq_ok_iff {name : String} :
    nameOf limit entry = .ok name ↔ entry = .symbol name := by
  cases entry with
  | symbol other => simp [nameOf, pure, Except.pure]
  | _ => simp [nameOf, Value.refuse_ne_ok]

theorem optionalOf_eq_ok_iff (free : entry.marker? = none) :
    optionalOf limit entry = .ok parameter ↔ LooseOptional [entry] [parameter] := by
  constructor
  · intro found
    unfold optionalOf at found
    split at found
    next name =>
        cases found
        exact .name (marker?_eq_none_iff.mp free)
    next items terminator =>
        split at found
        next own =>
            obtain ⟨name, same, rest⟩ := Result.bind_eq_ok_iff.mp found
            rw [nameOf_eq_ok_iff.mp same] at own
            cases rest
            exact .alone own
        next literal own =>
            obtain ⟨name, same, rest⟩ := Result.bind_eq_ok_iff.mp found
            rw [nameOf_eq_ok_iff.mp same] at own
            cases rest
            exact .literal own
        next => exact absurd found (Value.refuse_ne_ok limit _ _ parameter)
    next => exact absurd found (Value.refuse_ne_ok limit _ entry parameter)
  · intro own
    cases own with
    | name free => rfl
    | alone own => simp only [optionalOf, own]; rfl
    | literal own => simp only [optionalOf, own]; rfl

theorem ofEntries_of_not_marker (free : entry.marker? = none) (pending : Option Mode)
    (among : Bool) :
    ofEntries limit form pending among (entry :: entries) = .ok parameters ↔
      ∃ first others, ofEntry limit pending among entry = .ok first ∧
        ofEntries limit form none among entries = .ok others ∧ parameters = first :: others := by
  rw [ofEntries]
  case heq => exact free
  constructor
  · intro found
    obtain ⟨first, own, composed⟩ := Result.bind_eq_ok_iff.mp found
    obtain ⟨others, later, same⟩ := Result.bind_eq_ok_iff.mp composed
    exact ⟨first, others, own, later, (Except.ok.inj same).symm⟩
  · rintro ⟨first, others, own, later, rfl⟩
    exact Result.bind_eq_ok_iff.mpr ⟨first, own, Result.bind_eq_ok_iff.mpr ⟨others, later, rfl⟩⟩

/-- What is read after a marker that waits for its name, or where none does. -/
def ReadsAfter (among : Bool) : Option Mode → List Value → List Parameter → Prop
  | none => Reads among
  | some mode => fun entries parameters => ∃ own later first others,
      entries = own ++ later ∧ parameters = first ++ others ∧
        Marked mode (.symbol mode.marker :: own) first ∧ Reads among later others

theorem readsAfter_of_ofEntries {pending : Option Mode} {among : Bool}
    (found : ofEntries limit form pending among entries = .ok parameters) :
    ReadsAfter among pending entries parameters := by
  fun_induction ofEntries limit form pending among entries generalizing parameters with
  | case1 =>
      cases found
      exact .nil
  | case2 => exact absurd found (Value.refuse_ne_ok limit _ form parameters)
  | case3 => exact absurd found (Value.refuse_ne_ok limit _ form parameters)
  | case4 among entry entries marker ih =>
      obtain ⟨_, rfl⟩ := marker?_eq_some_iff.mp marker
      exact .marker (ih found)
  | case5 among entry entries mode notOptional marker ih =>
      obtain ⟨notNormal, rfl⟩ := marker?_eq_some_iff.mp marker
      obtain ⟨own, later, first, others, rfl, rfl, marked, rest⟩ := ih found
      have modes : mode = .plain ∨ mode = .rest := by
        cases mode with
        | normal => exact absurd rfl notNormal
        | plain => exact .inl rfl
        | rest => exact .inr rfl
        | optional => exact absurd rfl notOptional
      exact .marked modes marked rest
  | case6 among entry entries pending free ih =>
      obtain ⟨first, own, composed⟩ := Result.bind_eq_ok_iff.mp found
      obtain ⟨others, later, same⟩ := Result.bind_eq_ok_iff.mp composed
      cases same
      have rest : Reads among entries others := ih later
      unfold ofEntry at own
      split at own
      next mode =>
          obtain ⟨name, named, made⟩ := Result.bind_eq_ok_iff.mp own
          obtain rfl := nameOf_eq_ok_iff.mp named
          cases made
          exact ⟨[.symbol name], entries, [_], others, rfl, rfl,
            .intro (marker?_eq_none_iff.mp free), rest⟩
      next =>
          cases among with
          | true => exact .optional ((optionalOf_eq_ok_iff free).mp own) rest
          | false =>
              obtain ⟨name, named, made⟩ := Result.bind_eq_ok_iff.mp own
              obtain rfl := nameOf_eq_ok_iff.mp named
              cases made
              exact .normal (marker?_eq_none_iff.mp free) rest

theorem LooseOptional.ofEntry {own : List Value} {first : List Parameter}
    (one : LooseOptional own first) (limit : Nat) :
    ∃ entry parameter, own = [entry] ∧ first = [parameter] ∧ entry.marker? = none ∧
      optionalOf limit entry = .ok parameter := by
  cases one with
  | @name name free =>
      have plain := marker?_eq_none_iff.mpr free
      exact ⟨_, _, rfl, rfl, plain, (optionalOf_eq_ok_iff plain).mpr (.name free)⟩
  | alone own => exact ⟨_, _, rfl, rfl, rfl, (optionalOf_eq_ok_iff rfl).mpr (.alone own)⟩
  | literal own => exact ⟨_, _, rfl, rfl, rfl, (optionalOf_eq_ok_iff rfl).mpr (.literal own)⟩

theorem ofEntries_of_reads {among : Bool} (reads : Reads among entries parameters) :
    ofEntries limit form none among entries = .ok parameters := by
  induction reads with
  | nil => rfl
  | marker later ih => exact ih
  | @marked among mode own entries first parameters modes one later ih =>
      obtain ⟨free⟩ := one
      have named := (ofEntries_of_not_marker (marker?_eq_none_iff.mpr free) (some mode) among).mpr
        ⟨_, parameters, rfl, ih, rfl⟩
      rcases modes with rfl | rfl
      · exact named
      · exact named
  | normal free later ih =>
      exact (ofEntries_of_not_marker (marker?_eq_none_iff.mpr free) none false).mpr
        ⟨_, _, rfl, ih, rfl⟩
  | optional one later ih =>
      obtain ⟨entry, parameter, rfl, rfl, free, own⟩ := one.ofEntry limit
      exact (ofEntries_of_not_marker free none true).mpr ⟨parameter, _, own, ih, rfl⟩

theorem ofEntries_eq_ok_iff {among : Bool} :
    ofEntries limit form none among entries = .ok parameters ↔ Reads among entries parameters :=
  ⟨readsAfter_of_ofEntries, ofEntries_of_reads⟩

end

/-! ## Sections -/

namespace Followed

variable {piece front middle back : Piece} {own entries : List Value}
  {first parameters : List Parameter}

theorem skip (empty : front [] []) (behind : back entries parameters) :
    Followed front back entries parameters :=
  @intro front back [] entries [] parameters empty behind

theorem cons (one : piece own first) (later : Followed (Series piece) back entries parameters) :
    Followed (Series piece) back (own ++ entries) (first ++ parameters) := by
  obtain ⟨before, behind⟩ := later
  rw [← List.append_assoc, ← List.append_assoc]
  exact .intro (.cons one before) behind

theorem assoc (whole : Followed front (Followed middle back) entries parameters) :
    Followed (Followed front middle) back entries parameters := by
  obtain ⟨before, ⟨between, behind⟩⟩ := whole
  rw [← List.append_assoc, ← List.append_assoc]
  exact .intro (.intro before between) behind

end Followed

theorem announcements_of_reads {among : Bool} {entries : List Value} {parameters : List Parameter}
    (reads : Reads among entries parameters) (none : parameters = []) :
    Series Announcement entries parameters := by
  induction reads with
  | nil => exact .nil
  | marker later ih => exact .cons .intro (ih none)
  | marked modes one later => cases one; cases none
  | normal => cases none
  | optional one later => cases one <;> cases none

/-- The entry for the rest is the last one. -/
theorem rest_of_reads {among metOptional : Bool} {own entries : List Value}
    {first parameters : List Parameter} (one : Marked .rest own first)
    (later : Reads among entries parameters) (ordered : InOrder metOptional (first ++ parameters)) :
    LooseRest (own ++ entries) (first ++ parameters) := by
  refine .intro one (announcements_of_reads later ?_)
  cases one
  exact (inOrder_cons_of_rest rfl).mp ordered

/-- Behind an optional parameter. -/
theorem optional_of_reads {among : Bool} {entries : List Value} {parameters : List Parameter}
    (reads : Reads among entries parameters) (own : among = true)
    (ordered : InOrder true parameters) :
    Followed (Series (Either LooseOptional Announcement)) (AtMostOne LooseRest) entries
      parameters := by
  induction reads with
  | nil => exact .skip .nil .none
  | marker later ih => exact .cons (.right .intro) (ih rfl ordered)
  | marked modes one later ih =>
      rcases modes with rfl | rfl
      · -- A plain entry would be a required parameter behind an optional one.
        cases one
        cases ((inOrder_cons_of_required rfl).mp ordered).1
      · exact .skip .nil (.one (rest_of_reads one later ordered))
  | normal => cases own
  | optional one later ih =>
      refine .cons (.left one) (ih rfl ?_)
      cases one <;> exact (inOrder_cons_of_optional rfl).mp ordered

/-- Behind the marker of the optional section. -/
theorem section_of_reads {among : Bool} {entries : List Value} {parameters : List Parameter}
    (reads : Reads among entries parameters) (own : among = true)
    (ordered : InOrder false parameters) :
    Followed (Series (Either (Marked .plain) Announcement))
      (Followed (Series (Either LooseOptional Announcement)) (AtMostOne LooseRest)) entries
      parameters := by
  induction reads with
  | nil => exact .skip .nil (.skip .nil .none)
  | marker later ih => exact .cons (.right .intro) (ih rfl ordered)
  | marked modes one later ih =>
      rcases modes with rfl | rfl
      · refine .cons (.left one) (ih own ?_)
        cases one
        exact ((inOrder_cons_of_required rfl).mp ordered).2
      · exact .skip .nil (.skip .nil (.one (rest_of_reads one later ordered)))
  | normal => cases own
  | optional one later =>
      refine .skip .nil (.cons (.left one) (optional_of_reads later rfl ?_))
      cases one <;> exact (inOrder_cons_of_optional rfl).mp ordered

theorem sections_of_reads {among : Bool} {entries : List Value} {parameters : List Parameter}
    (reads : Reads among entries parameters) (own : among = false)
    (ordered : InOrder false parameters) :
    Followed (Series Required) (Followed (AtMostOne LooseSection) (AtMostOne LooseRest)) entries
      parameters := by
  induction reads with
  | nil => exact .skip .nil (.skip .none .none)
  | marker later ih =>
      obtain ⟨before, behind⟩ := (section_of_reads later rfl ordered).assoc
      have announced : LooseSection _ _ := .intro .intro before
      exact .skip .nil (Followed.intro (AtMostOne.one announced) behind)
  | marked modes one later ih =>
      rcases modes with rfl | rfl
      · refine .cons (.plain one) (ih own ?_)
        cases one
        exact ((inOrder_cons_of_required rfl).mp ordered).2
      · exact .skip .nil (.skip .none (.one (rest_of_reads one later ordered)))
  | normal free later ih =>
      exact .cons (.normal free) (ih rfl ((inOrder_cons_of_required rfl).mp ordered).2)
  | optional => cases own

/-! ## From sections to entries -/

/-- The piece can be read in front of anything that can be read behind it. -/
def Precedes (piece : Piece) (among behind : Bool) : Prop :=
  ∀ {own more first others}, piece own first → Reads behind more others →
    Reads among (own ++ more) (first ++ others)

namespace Precedes

variable {piece front back : Piece} {among between behind : Bool}

theorem series (each : Precedes piece among among) : Precedes (Series piece) among among := by
  intro own more first others series later
  induction series with
  | nil => exact later
  | cons one _ ih =>
      rw [List.append_assoc, List.append_assoc]
      exact each one ih

theorem either (left : Precedes front among behind) (right : Precedes back among behind) :
    Precedes (Either front back) among behind := by
  intro own more first others one later
  cases one with
  | left own => exact left own later
  | right own => exact right own later

theorem followed (before : Precedes front among between) (after : Precedes back between behind) :
    Precedes (Followed front back) among behind := by
  rintro _ more _ others ⟨first, second⟩ later
  rw [List.append_assoc, List.append_assoc]
  exact before first (after second later)

theorem announcement : Precedes Announcement among true := by
  rintro _ more _ others ⟨⟩ later
  exact .marker later

theorem marked {mode : Mode} (modes : mode = .plain ∨ mode = .rest) :
    Precedes (Marked mode) among among :=
  .marked modes

theorem required : Precedes Required false false := by
  intro own more first others one later
  cases one with
  | normal free => exact .normal free later
  | plain own => exact .marked (.inl rfl) own later

theorem looseSection : Precedes LooseSection false true :=
  followed announcement (followed (series (either (marked (.inl rfl)) announcement))
    (series (either .optional announcement)))

end Precedes

theorem Series.reads_announcements {among : Bool} {entries : List Value}
    {parameters : List Parameter} (series : Series Announcement entries parameters) :
    Reads among entries parameters := by
  induction series generalizing among with
  | nil => exact .nil
  | cons one later ih => exact Precedes.announcement one ih

theorem AtMostOne.reads_rest {among : Bool} {entries : List Value} {parameters : List Parameter}
    (back : AtMostOne LooseRest entries parameters) : Reads among entries parameters := by
  cases back with
  | none => exact .nil
  | one own =>
      obtain ⟨marked, announcements⟩ := own
      exact .marked (.inr rfl) marked announcements.reads_announcements

theorem reads_of_sections {entries : List Value} {parameters : List Parameter}
    (sections : Followed (Series Required) (Followed (AtMostOne LooseSection) (AtMostOne LooseRest))
      entries parameters) : Reads false entries parameters := by
  obtain ⟨front, ⟨middle, back⟩⟩ := sections
  refine Precedes.series Precedes.required front ?_
  cases middle with
  | none => exact back.reads_rest
  | one own => exact Precedes.looseSection own back.reads_rest

/-! ## The order of sections -/

theorem Series.holds {piece : Piece} {holds : Parameter → Prop}
    (each : ∀ {own first}, piece own first → ∀ parameter ∈ first, holds parameter)
    {entries : List Value} {parameters : List Parameter}
    (series : Series piece entries parameters) : ∀ parameter ∈ parameters, holds parameter := by
  induction series with
  | nil => exact fun _ member => by cases member
  | cons one later ih => exact List.forall_mem_append.mpr ⟨each one, ih⟩

section

variable {own : List Value} {first : List Parameter}

theorem Marked.isRequired (marked : Marked .plain own first) :
    ∀ parameter ∈ first, parameter.isRequired = true := by
  cases marked
  exact List.forall_mem_singleton.mpr rfl

theorem Required.isRequired (one : Required own first) :
    ∀ parameter ∈ first, parameter.isRequired = true := by
  cases one with
  | normal => exact List.forall_mem_singleton.mpr rfl
  | plain own => exact own.isRequired

theorem LooseOptional.mode_eq (one : LooseOptional own first) :
    ∀ parameter ∈ first, parameter.mode = .optional := by
  cases one <;> exact List.forall_mem_singleton.mpr rfl

theorem Either.holds_of_announcement {piece : Piece} {holds : Parameter → Prop}
    (each : ∀ {own first}, piece own first → ∀ parameter ∈ first, holds parameter)
    (one : Either piece Announcement own first) : ∀ parameter ∈ first, holds parameter := by
  cases one with
  | left own => exact each own
  | right own =>
      cases own
      exact fun _ member => by cases member

/-- Markers of the optional section stand for no parameters. -/
theorem Series.eq_nil_of_announcements (series : Series Announcement own first) : first = [] := by
  refine List.eq_nil_iff_forall_not_mem.mpr (series.holds ?_)
  rintro _ _ ⟨⟩ parameter member
  cases member

theorem AtMostOne.inOrder_rest {metOptional : Bool} (back : AtMostOne LooseRest own first) :
    InOrder metOptional first := by
  cases back with
  | none => exact .nil
  | one own =>
      obtain ⟨⟨free⟩, announcements⟩ := own
      rw [announcements.eq_nil_of_announcements]
      exact .rest rfl

end

theorem inOrder_of_sections {entries : List Value} {parameters : List Parameter}
    (sections : Followed (Series Required) (Followed (AtMostOne LooseSection) (AtMostOne LooseRest))
      entries parameters) : InOrder false parameters := by
  obtain ⟨front, ⟨middle, back⟩⟩ := sections
  refine .append_required (front.holds Required.isRequired) ?_
  cases middle with
  | none => exact back.inOrder_rest
  | one own =>
      obtain ⟨⟨⟩, ⟨plain, optional⟩⟩ := own
      rw [List.nil_append, List.append_assoc]
      exact .append_required (plain.holds (Either.holds_of_announcement Marked.isRequired))
        (.append_optional (optional.holds (Either.holds_of_announcement LooseOptional.mode_eq))
          back.inOrder_rest)

/-- A form is accepted exactly if it follows the accepted syntax. -/
theorem ofForm_eq_ok_iff {limit : Nat} {form : Value} {parameters : List Parameter} :
    ofForm limit form = .ok parameters ↔ Accepted form parameters := by
  constructor
  · intro found
    unfold ofForm at found
    split at found
    next =>
        cases found
        exact .nil
    next items terminator =>
        obtain ⟨read, entries, checked⟩ := Result.bind_eq_ok_iff.mp found
        split at checked
        next valid =>
            cases checked
            obtain ⟨distinct, ordered⟩ := isValid_eq_true_iff.mp valid
            exact .list (sections_of_reads (ofEntries_eq_ok_iff.mp entries) rfl ordered) distinct
        next => exact absurd checked (Value.refuse_ne_ok limit _ _ parameters)
    next => exact absurd found (Value.refuse_ne_ok limit _ form parameters)
  · intro accepted
    cases accepted with
    | nil => rfl
    | list sections distinct =>
        have valid := isValid_eq_true_iff.mpr ⟨distinct, inOrder_of_sections sections⟩
        refine Result.bind_eq_ok_iff.mpr
          ⟨parameters, ofEntries_of_reads (reads_of_sections sections), ?_⟩
        rw [if_pos valid]
        rfl

end ConsLisp.Parameter
