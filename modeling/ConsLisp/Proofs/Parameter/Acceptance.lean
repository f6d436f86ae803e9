import ConsLisp.Proofs.Parameter.Syntax
import ConsLisp.Proofs.Value.Depth
import ConsLisp.Proofs.Value.Printer

/-!
# Documented, accepted and refused parameter lists

Everything that is documented is accepted, and whatever else is accepted is disorderly in one of few
ways.  What is not accepted is refused with a text of the form or of the part that is wrong.
-/

namespace ConsLisp

namespace Parameter

/-! ## Orderly lists -/

/-- A proper list with proper lists among its entries, in which the marker of the optional section
stands at most once, not behind the entry for the rest and not before a plain one. -/
structure Orderly (items : List Value) (terminator : Value) : Prop where
  proper : terminator = .nil
  properEntries : ∀ inner last, Value.list inner last ∈ items → last = .nil
  once : ∀ before behind, items = before ++ .symbol Mode.optional.marker :: behind →
    .symbol Mode.rest.marker ∉ before ∧ .symbol Mode.plain.marker ∉ behind ∧
      .symbol Mode.optional.marker ∉ behind

/-- What the entries of a documented section are: names without a marker's function, proper lists,
and markers of the modes that the section has. -/
structure Tidy (modes : List Mode) (entry : Value) : Prop where
  proper : ∀ inner last, entry = .list inner last → last = .nil
  marker : ∀ mode ∈ entry.marker?, mode ∈ modes

theorem Tidy.name {name : String} (free : name ∉ markers) (modes : List Mode) :
    Tidy modes (.symbol name) := by
  refine ⟨nofun, ?_⟩
  rw [marker?_eq_none_iff.mpr free]
  exact nofun

theorem Tidy.ne_marker {modes : List Mode} {entry : Value} (tidy : Tidy modes entry) {mode : Mode}
    (marks : mode ≠ .normal) (apart : mode ∉ modes) : .symbol mode.marker ≠ entry := by
  rintro rfl
  exact apart (tidy.marker mode (marker?_eq_some_iff.mpr ⟨marks, rfl⟩))

theorem notMem_of_tidy {modes : List Mode} {entries : List Value}
    (tidy : ∀ entry ∈ entries, Tidy modes entry) {mode : Mode} (marks : mode ≠ .normal)
    (apart : mode ∉ modes) : .symbol mode.marker ∉ entries :=
  fun member => (tidy _ member).ne_marker marks apart rfl

theorem Series.forall_entries {piece : Piece} {holds : Value → Prop}
    (each : ∀ {own first}, piece own first → ∀ entry ∈ own, holds entry)
    {entries : List Value} {parameters : List Parameter}
    (series : Series piece entries parameters) : ∀ entry ∈ entries, holds entry := by
  induction series with
  | nil => exact fun _ member => by cases member
  | cons one later ih => exact List.forall_mem_append.mpr ⟨each one, ih⟩

theorem AtMostOne.forall_entries {piece : Piece} {holds : Value → Prop}
    (each : ∀ {own first}, piece own first → ∀ entry ∈ own, holds entry)
    {entries : List Value} {parameters : List Parameter}
    (piece : AtMostOne piece entries parameters) : ∀ entry ∈ entries, holds entry := by
  cases piece with
  | none => exact fun _ member => by cases member
  | one own => exact each own

theorem Series.map {piece other : Piece}
    (each : ∀ {own first}, piece own first → other own first)
    {entries : List Value} {parameters : List Parameter}
    (series : Series piece entries parameters) : Series other entries parameters := by
  induction series with
  | nil => exact .nil
  | cons one later ih => exact .cons (each one) ih

section

variable {own : List Value} {first : List Parameter}

theorem Marked.tidy {mode : Mode} (marks : mode ≠ .normal) (marked : Marked mode own first) :
    ∀ entry ∈ own, Tidy [mode] entry := by
  obtain ⟨free⟩ := marked
  refine List.forall_mem_cons.mpr ⟨⟨nofun, ?_⟩, List.forall_mem_singleton.mpr (.name free _)⟩
  rw [marker?_eq_some_iff.mpr ⟨marks, rfl⟩]
  rintro _ ⟨⟩
  exact List.mem_singleton_self mode

theorem Required.tidy (one : Required own first) : ∀ entry ∈ own, Tidy [.plain] entry := by
  cases one with
  | normal free => exact List.forall_mem_singleton.mpr (.name free _)
  | plain own => exact own.tidy nofun

theorem Optional.tidy (one : Optional own first) : ∀ entry ∈ own, Tidy [] entry := by
  cases one with
  | name free => exact List.forall_mem_singleton.mpr (.name free _)
  | alone name =>
      refine List.forall_mem_singleton.mpr ⟨?_, nofun⟩
      rintro inner last ⟨⟩
      rfl
  | literal name literal =>
      refine List.forall_mem_singleton.mpr ⟨?_, nofun⟩
      rintro inner last ⟨⟩
      rfl

theorem Optional.loose (one : Optional own first) : LooseOptional own first := by
  cases one with
  | name free => exact .name free
  | alone name => exact .alone rfl
  | literal name literal => exact .literal rfl

theorem LooseOptional.optional (one : LooseOptional own first)
    (proper : ∀ inner last, Value.list inner last ∈ own → last = .nil) : Optional own first := by
  cases one with
  | name free => exact .name free
  | @alone items terminator name parts =>
      obtain rfl := proper items terminator List.mem_cons_self
      obtain rfl : items = [.symbol name] := parts
      exact .alone name
  | @literal items terminator literal name parts =>
      obtain rfl := proper items terminator List.mem_cons_self
      obtain rfl : items = [.symbol name, literal] := parts
      exact .literal name literal

end

/-! ## Documented lists -/

theorem Marked.looseRest {own : List Value} {first : List Parameter}
    (marked : Marked .rest own first) : LooseRest own first := by
  have loose : LooseRest (own ++ []) (first ++ []) := .intro marked .nil
  rwa [List.append_nil, List.append_nil] at loose

theorem Documented.accepted {form : Value} {parameters : List Parameter}
    (documented : Documented form parameters) : Accepted form parameters := by
  cases documented with
  | nil => exact .nil
  | list sections distinct =>
      refine .list ?_ distinct
      obtain ⟨front, ⟨middle, back⟩⟩ := sections
      refine .intro front (.intro ?_ ?_)
      · cases middle with
        | none => exact .none
        | one own =>
            obtain ⟨announced, optional⟩ := own
            exact .one (.intro announced (.skip .nil (optional.map fun one => .left one.loose)))
      · cases back with
        | none => exact .none
        | one own => exact .one own.looseRest

theorem orderly_of_tidy {required optional rest : List Value}
    (front : ∀ entry ∈ required, Tidy [.plain] entry)
    (middle : optional = [] ∨ ∃ entries, optional = .symbol Mode.optional.marker :: entries ∧
      ∀ entry ∈ entries, Tidy [] entry)
    (back : ∀ entry ∈ rest, Tidy [.rest] entry) :
    Orderly (required ++ (optional ++ rest)) .nil := by
  have before : .symbol Mode.optional.marker ∉ required := notMem_of_tidy front nofun (by decide)
  have after : .symbol Mode.optional.marker ∉ rest := notMem_of_tidy back nofun (by decide)
  rcases middle with rfl | ⟨entries, rfl, each⟩
  · refine ⟨rfl, fun inner last member => ?_, fun _ _ same => ?_⟩
    · rcases List.mem_append.mp member with own | own
      · exact (front _ own).proper inner last rfl
      · exact (back _ own).proper inner last rfl
    · have member : .symbol Mode.optional.marker ∈ required ++ ([] ++ rest) :=
        same ▸ List.mem_append_right _ List.mem_cons_self
      exact absurd member (List.not_mem_append before after)
  · have between : .symbol Mode.optional.marker ∉ entries := notMem_of_tidy each nofun nofun
    refine ⟨rfl, fun inner last member => ?_, fun first second same => ?_⟩
    · simp only [List.cons_append, List.mem_append, List.mem_cons, reduceCtorEq, false_or] at member
      rcases member with own | own | own
      · exact (front _ own).proper inner last rfl
      · exact (each _ own).proper inner last rfl
      · exact (back _ own).proper inner last rfl
    · -- The marker stands nowhere else, so a list is cut at it in one way only.
      obtain ⟨rfl, _, rfl⟩ := (List.append_cons_inj_of_notMem before
        (List.not_mem_append between after)).mp same
      exact ⟨notMem_of_tidy front nofun (by decide),
        List.not_mem_append (notMem_of_tidy each nofun nofun)
          (notMem_of_tidy back nofun (by decide)),
        List.not_mem_append between after⟩

theorem Documented.orderly {items : List Value} {terminator : Value} {parameters : List Parameter}
    (documented : Documented (.list items terminator) parameters) : Orderly items terminator := by
  obtain _ | ⟨⟨front, ⟨middle, back⟩⟩, _⟩ := documented
  refine orderly_of_tidy (front.forall_entries Required.tidy) ?_
    (back.forall_entries fun one => one.tidy nofun)
  cases middle with
  | none => exact .inl rfl
  | one own =>
      obtain ⟨⟨⟩, optional⟩ := own
      exact .inr ⟨_, rfl, optional.forall_entries Optional.tidy⟩

/-! ## Orderly lists are documented -/

theorem Series.optional_of_notMem {entries : List Value} {parameters : List Parameter}
    (series : Series (Either LooseOptional Announcement) entries parameters)
    (proper : ∀ inner last, Value.list inner last ∈ entries → last = .nil)
    (apart : .symbol Mode.optional.marker ∉ entries) : Series Optional entries parameters := by
  induction series with
  | nil => exact .nil
  | cons one later ih =>
      have rest := ih (fun inner last member => proper inner last (List.mem_append_right _ member))
        fun member => apart (List.mem_append_right _ member)
      cases one with
      | left own =>
          have own := own.optional fun inner last member =>
            proper inner last (List.mem_append_left _ member)
          exact .cons own rest
      | right own =>
          cases own
          exact absurd List.mem_cons_self apart

/-- Without any markers there are no plain entries in the optional section. -/
theorem Series.eq_nil_of_plain {entries : List Value} {parameters : List Parameter}
    (series : Series (Either (Marked .plain) Announcement) entries parameters)
    (noPlain : .symbol Mode.plain.marker ∉ entries)
    (noOptional : .symbol Mode.optional.marker ∉ entries) : entries = [] ∧ parameters = [] := by
  cases series with
  | nil => exact ⟨rfl, rfl⟩
  | cons one later =>
      cases one with
      | left own =>
          cases own
          exact absurd List.mem_cons_self noPlain
      | right own =>
          cases own
          exact absurd List.mem_cons_self noOptional

theorem AtMostOne.marked_of_notMem {entries : List Value} {parameters : List Parameter}
    (back : AtMostOne LooseRest entries parameters)
    (apart : ∀ before behind, entries = before ++ .symbol Mode.optional.marker :: behind →
      .symbol Mode.rest.marker ∉ before) : AtMostOne (Marked .rest) entries parameters := by
  cases back with
  | none => exact .none
  | one own =>
      obtain ⟨marked, announcements⟩ := own
      cases announcements with
      | nil =>
          rw [List.append_nil, List.append_nil]
          exact .one marked
      | cons one later =>
          cases marked
          cases one
          exact absurd List.mem_cons_self (apart [_, _] _ rfl)

theorem Orderly.documented {items : List Value} {terminator : Value} {parameters : List Parameter}
    (orderly : Orderly items terminator) (accepted : Accepted (.list items terminator) parameters) :
    Documented (.list items terminator) parameters := by
  obtain ⟨rfl, proper, once⟩ := orderly
  obtain _ | ⟨sections, distinct⟩ := accepted
  refine .list ?_ distinct
  have entries : Value.elements items .nil = items := rfl
  rw [entries] at sections
  obtain @⟨required, _, _, _, front, @⟨optional, rest, _, _, middle, back⟩⟩ := sections
  refine .intro front ?_
  cases middle with
  | none =>
      refine .skip .none (back.marked_of_notMem fun before behind same member => ?_)
      refine (once (required ++ before) behind ?_).1 (List.mem_append_right _ member)
      rw [same, List.nil_append, List.append_assoc]
  | one own =>
      obtain ⟨⟨⟩, @⟨late, own, _, _, plain, each⟩⟩ := own
      obtain ⟨_, noPlain, noOptional⟩ := once required ((late ++ own) ++ rest) rfl
      simp only [List.mem_append, not_or] at noPlain noOptional
      obtain ⟨rfl, rfl⟩ := plain.eq_nil_of_plain noPlain.1.1 noOptional.1.1
      have optional := each.optional_of_notMem (fun inner last member => proper inner last
        (List.mem_append_right _ (List.mem_append_left _ (List.mem_cons_of_mem _ member))))
        noOptional.1.2
      refine .intro (.one (.intro .intro optional)) (back.marked_of_notMem fun before behind same =>
        absurd ?_ noOptional.2)
      rw [same]
      exact List.mem_append_right _ List.mem_cons_self

end Parameter

/-! ## Refusals -/

/-- A result, or the refusal of a value of the wrong kind. -/
def Refusing {α : Type} (outcome : Except Error α) : Prop :=
  ∀ cause, outcome = .error cause → ∃ reason, cause = .mismatch reason

namespace Refusing

variable {α β : Type}

theorem ok (value : α) : Refusing (.ok value) :=
  fun _ impossible => by cases impossible

theorem bind {first : Except Error α} {next : α → Except Error β} (own : Refusing first)
    (others : ∀ value, Refusing (next value)) : Refusing (first >>= next) := by
  cases first with
  | error cause =>
      rintro _ ⟨⟩
      exact own cause rfl
  | ok value => exact others value

/-- A value that has a text is refused with it. -/
theorem refuse {limit : Nat} {value : Value} (shown : ∃ text, value.display limit = .ok text)
    (reason : String → Mismatch) : Refusing (value.refuse limit reason : Except Error α) := by
  obtain ⟨text, shown⟩ := shown
  rintro _ failed
  rw [Value.refuse, Value.shown, shown] at failed
  cases failed
  exact ⟨reason text, rfl⟩

end Refusing

theorem Value.exists_display_elements {limit : Nat} {items : List Value} {terminator : Value}
    (shown : ∃ text, (Value.list items terminator).display limit = .ok text) :
    ∀ element ∈ elements items terminator, ∃ text, element.display limit = .ok text := by
  cases limit with
  | zero =>
      obtain ⟨_, impossible⟩ := shown
      cases impossible
  | succ limit =>
      obtain ⟨each, last⟩ := exists_display_list_iff.mp shown
      have deeper {value : Value} (own : ∃ text, value.display limit = .ok text) :
          ∃ text, value.display (limit + 1) = .ok text :=
        own.imp fun _ => (display_deepens (Nat.le_succ limit) value).ok_of_ok
      unfold elements
      split
      next => exact fun element member => deeper (each element member)
      next some =>
          exact List.forall_mem_append.mpr ⟨fun element member => deeper (each element member),
            List.forall_mem_singleton.mpr (deeper (last (Bool.eq_false_iff.mpr some)))⟩

namespace Parameter

section

variable {limit : Nat} {form entry : Value}

theorem refusing_nameOf (shown : ∃ text, entry.display limit = .ok text) :
    Refusing (nameOf limit entry) := by
  unfold nameOf
  split
  · exact .ok _
  · exact .refuse shown _

theorem refusing_optionalOf (shown : ∃ text, entry.display limit = .ok text) :
    Refusing (optionalOf limit entry) := by
  unfold optionalOf
  split
  · exact .ok _
  next items terminator =>
      have each := Value.exists_display_elements shown
      split
      next name same =>
          exact .bind (refusing_nameOf (each name (same ▸ List.mem_cons_self))) fun _ => .ok _
      next name literal same =>
          exact .bind (refusing_nameOf (each name (same ▸ List.mem_cons_self))) fun _ => .ok _
      next => exact .refuse shown _
  · exact .refuse shown _

theorem refusing_ofEntry (pending : Option Mode) (among : Bool)
    (shown : ∃ text, entry.display limit = .ok text) :
    Refusing (ofEntry limit pending among entry) := by
  unfold ofEntry
  split
  · exact .bind (refusing_nameOf shown) fun _ => .ok _
  · split
    · exact refusing_optionalOf shown
    · exact .bind (refusing_nameOf shown) fun _ => .ok _

theorem refusing_ofEntries {pending : Option Mode} {among : Bool} {entries : List Value}
    (shown : ∃ text, form.display limit = .ok text)
    (each : ∀ entry ∈ entries, ∃ text, entry.display limit = .ok text) :
    Refusing (ofEntries limit form pending among entries) := by
  fun_induction ofEntries limit form pending among entries with
  | case1 => exact .ok []
  | case2 => exact .refuse shown _
  | case3 => exact .refuse shown _
  | case4 _ _ _ _ ih => exact ih (List.forall_mem_cons.mp each).2
  | case5 _ _ _ _ _ _ ih => exact ih (List.forall_mem_cons.mp each).2
  | case6 among entry entries pending _ ih =>
      obtain ⟨own, others⟩ := List.forall_mem_cons.mp each
      exact .bind (refusing_ofEntry pending among own) fun _ => .bind (ih others) fun _ => .ok _

/-- A form that has a text is accepted or refused. -/
theorem refusing_ofForm (shown : ∃ text, form.display limit = .ok text) :
    Refusing (ofForm limit form) := by
  unfold ofForm
  split
  · exact .ok []
  · refine .bind (refusing_ofEntries shown (Value.exists_display_elements shown)) fun read => ?_
    split
    · exact .ok read
    · exact .refuse shown _
  · exact .refuse shown _

end

/-- Reading a parameter list off a form succeeds exactly on the accepted syntax.  The documented
syntax is the part of it that is orderly.  Every other form that has a text is refused as a value of
the wrong kind. -/
theorem ofForm_decides_syntax (limit : Nat) (form : Value) :
    (∀ parameters, ofForm limit form = .ok parameters ↔ Accepted form parameters) ∧
    (∀ parameters, Documented form parameters ↔ Accepted form parameters ∧
      ∀ items terminator, form = .list items terminator → Orderly items terminator) ∧
    ∀ text, form.display limit = .ok text → (∀ parameters, ¬ Accepted form parameters) →
      ∃ reason, ofForm limit form = .error (.mismatch reason) := by
  refine ⟨fun parameters => ofForm_eq_ok_iff, fun parameters => ⟨fun documented => ?_, ?_⟩,
    fun text shown none => ?_⟩
  · refine ⟨documented.accepted, ?_⟩
    rintro items terminator rfl
    exact documented.orderly
  · rintro ⟨accepted, orderly⟩
    cases accepted with
    | nil => exact .nil
    | list sections distinct => exact (orderly _ _ rfl).documented (.list sections distinct)
  · cases outcome : ofForm limit form with
    | ok parameters => exact absurd (ofForm_eq_ok_iff.mp outcome) (none parameters)
    | error cause =>
        obtain ⟨reason, rfl⟩ := refusing_ofForm ⟨text, shown⟩ cause outcome
        exact ⟨reason, rfl⟩

/-- The terminator of `(A . T)` counts as an entry, and it is no name. -/
theorem ofForm_decides_syntax_dotted :
    (Value.list [.symbol "A"] .truth).display 2 = .ok "(A . T)" ∧
      (∀ parameters, ¬ Accepted (.list [.symbol "A"] .truth) parameters) ∧
      ∃ reason, ofForm 2 (.list [.symbol "A"] .truth) = .error (.mismatch reason) := by
  obtain ⟨accepts, _, refuses⟩ := ofForm_decides_syntax 2 (.list [.symbol "A"] .truth)
  have none (parameters : List Parameter) : ¬ Accepted (.list [.symbol "A"] .truth) parameters := by
    intro accepted
    cases (accepts parameters).mpr accepted
  exact ⟨rfl, none, refuses "(A . T)" rfl none⟩

/-- The marker of the optional section is accepted behind the entry for the rest, and a dotted list
like a proper one. -/
theorem undocumented_lists_are_accepted :
    (ofForm 9 (.list [.symbol "&REST", .symbol "A", .symbol "&OPTIONAL"] .nil) =
        .ok [⟨.rest, "A", .nil⟩] ∧
      ∀ parameters, ¬ Documented
        (.list [.symbol "&REST", .symbol "A", .symbol "&OPTIONAL"] .nil) parameters) ∧
    ofForm 9 (.list [.symbol "A"] (.symbol "B")) =
        .ok [⟨.normal, "A", .nil⟩, ⟨.normal, "B", .nil⟩] ∧
      ∀ parameters, ¬ Documented (.list [.symbol "A"] (.symbol "B")) parameters := by
  refine ⟨⟨rfl, fun parameters documented => ?_⟩, rfl, fun parameters documented => ?_⟩
  · exact (documented.orderly.once [.symbol "&REST", .symbol "A"] [] rfl).1 List.mem_cons_self
  · cases documented.orderly.proper

end Parameter

end ConsLisp
