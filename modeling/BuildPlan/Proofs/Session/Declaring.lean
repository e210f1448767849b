import BuildPlan.Proofs.Declarative.Evaluation
import BuildPlan.Proofs.Redeclaration
import BuildPlan.Proofs.Session.Restoration
import BuildPlan.Proofs.Specification
import BuildPlan.Text.Utf8.Exact

/-! # What a call of a declaration function does

`Specification.StatedBy` says which arguments state a specification, for any values: a table with
a name that is a text or a number, and with a list of texts that there is room for.  Reading the
arguments finds exactly what they state (`Specification.read_eq_ok_iff`).
`Specification.Describes` says which descriptor a specification stands for.  So a call succeeds
exactly if its arguments state something that the registry has no other descriptor for, the
registry then holds this descriptor and all that it held before, and a call that fails or panics
leaves the registry alone.  The main statement is `Run.call_declares`.

A table whose texts stand at 1, 2, ... and then nothing lists these texts, whatever stands behind
them.  But room is made for as many as the table is long, and what stands further behind can make
it so long that the call panics (`Run.call_panics_holding`). -/

namespace BuildPlan

/-! ### Values that have a text -/

namespace Value

variable {v : Value} {s : String}

/-- A string of well-formed bytes has its text, a number the text that it is shown with. -/
inductive HasText : Value → String → Prop
  | text (s : String) : HasText (.text s) s
  | integer (i : Int) : HasText (.integer i) (toString i)
  | number (x : Binary64) : HasText (.number x) x.text

theorem bytes?_eq_encode_iff : v.bytes? = some (Utf8.encode s) ↔ v.HasText s := by
  constructor
  · intro h
    cases v <;> try cases h
    case string.refl => exact .text s
    case integer i =>
      have htext : toString i = s := Utf8.encode_injective (Option.some.inj h)
      exact htext ▸ .integer i
    case number x =>
      have htext : x.text = s := Utf8.encode_injective (Option.some.inj h)
      exact htext ▸ .number x
  · rintro ⟨⟩ <;> rfl

theorem toText_eq_ok_iff : v.toText = .ok s ↔ v.HasText s := by
  rw [← bytes?_eq_encode_iff]
  unfold toText
  cases v.bytes? with
  | none => exact ⟨nofun, nofun⟩
  | some bytes =>
      rw [Option.some.injEq, ← Utf8.decode_eq_ok_iff]
      dsimp only
      cases Utf8.decode bytes with
      | error e => exact ⟨nofun, nofun⟩
      | ok s' =>
          change Except.ok s' = Except.ok s ↔ _
          rw [Except.ok.injEq, Except.ok.injEq]

end Value

/-! ### What arguments state -/

namespace Specification

variable {kind : Kind} {s : Session} {t : Table} {v : Value} {arguments : List Value}
variable {spec : Specification} {target name : String} {names : List String} {d : Descriptor}

/-- A value states requirements: it is a table that lists them and that there is room for, or, for
a project without requirements, it is taken for nil. -/
inductive Requires (s : Session) : Kind → Value → List String → Prop
  | nothing {v : Value} : s.take v = .ok .nil → Requires s .project v []
  | list {kind : Kind} {r : Ref} {names : List String} : HasRoom s r →
      (s.heap.get r).Lists (names.map .text) → Requires s kind (.table r) names

/-- The first of some arguments is a table that states a specification. -/
inductive StatedBy (kind : Kind) (s : Session) : List Value → Specification → Prop
  | table {r : Ref} {more : List Value} {name : String} {requirements : List String}
      (hasText : ((s.heap.get r).get (.text "name")).HasText name)
      (not_blank : ¬isBlank name)
      (requires : Requires s kind ((s.heap.get r).get (.text kind.field)) requirements) :
      StatedBy kind s (.table r :: more) ⟨name, requirements⟩

/-- The first of some arguments is a table with a name and with a list that there is no room
for. -/
inductive Overflows (kind : Kind) (s : Session) : List Value → Prop
  | table {r list : Ref} {more : List Value} {name : String}
      (hasText : ((s.heap.get r).get (.text "name")).HasText name)
      (not_blank : ¬isBlank name)
      (get_field : (s.heap.get r).get (.text kind.field) = .table list)
      (no_room : ¬HasRoom s list) : Overflows kind s (.table r :: more)

theorem readName_eq_ok_iff :
    readName kind s t = .ok name ↔ (t.get (.text "name")).HasText name ∧ ¬isBlank name := by
  rw [← Value.toText_eq_ok_iff]
  constructor
  · intro h
    refine ⟨?_, not_isBlank_of_readName h⟩
    unfold readName at h
    split at h
    · cases h
    · split at h
      · cases h
      next v htake =>
        split at h
        · cases h
        next htext =>
          have hv : v ≠ .nil := by
            rintro rfl
            cases htext
          split at h
          · cases h
          · rw [Session.eq_of_take s htake hv, htext, Except.ok.inj h]
  · rintro ⟨htext, hblank⟩
    unfold readName
    split
    next hnil =>
      rw [hnil] at htext
      cases htext
    next =>
      have htake : s.take (t.get (.text "name")) = .ok (t.get (.text "name")) := by
        refine Session.take_of_ne_panic s fun n hn => ?_
        rw [hn] at htext
        cases htext
      simp only [htake, htext, if_neg hblank]

theorem readRequirements_eq_ok_iff :
    readRequirements kind target s t = .ok names ↔
      Requires s kind (t.get (.text kind.field)) names := by
  constructor
  · intro h
    unfold readRequirements at h
    split at h
    · cases h
    next v htake =>
      split at h
      next r =>
        rw [Session.eq_of_take s htake nofun]
        unfold readList at h
        split at h
        next hroom => exact .list hroom (Table.sequence_eq_iff.1 (readEntries_eq_ok_iff.1 h))
        · cases h
      next =>
        obtain rfl := Except.ok.inj h
        exact .nothing htake
      · cases h
      · cases h
  · intro h
    unfold readRequirements
    generalize t.get (.text kind.field) = v at h
    cases h with
    | nothing htake => rw [htake]
    | @list _ r _ hroom hlists =>
        have htake : s.take (.table r) = .ok (.table r) := rfl
        rw [htake]
        dsimp only
        rw [readList, if_pos hroom]
        exact readEntries_eq_ok_iff.2 (Table.sequence_eq_iff.2 hlists)

/-- What is read is what the arguments state. -/
theorem read_eq_ok_iff : read kind s arguments = .ok spec ↔ StatedBy kind s arguments spec := by
  constructor
  · intro h
    obtain ⟨r, hr, hname, hrequirements⟩ := exists_of_read h
    cases arguments with
    | nil => cases hr
    | cons v more =>
        obtain rfl : v = .table r := hr
        obtain ⟨htext, hblank⟩ := readName_eq_ok_iff.1 hname
        exact .table htext hblank (readRequirements_eq_ok_iff.1 hrequirements)
  · rintro ⟨htext, hblank, hrequires⟩
    exact read_eq_ok (readName_eq_ok_iff.2 ⟨htext, hblank⟩)
      (readRequirements_eq_ok_iff.2 hrequires) _

/-- A list that there is no room for is not read. -/
theorem read_eq_panic (h : Overflows kind s arguments) : read kind s arguments = .error .panic := by
  obtain @⟨r, list, more, name, htext, hblank, hfield, hroom⟩ := h
  have hname : readName kind s (s.heap.get r) = .ok name :=
    readName_eq_ok_iff.2 ⟨htext, hblank⟩
  unfold read
  rw [List.headD_cons, Session.takeTable_eq_ok_iff.2 rfl]
  simp only [bind, Except.bind, hname, readRequirements, hfield, Session.take, readList,
    if_neg hroom]

-- The name may be a number, and what stands behind a hole in the list is not read.
example :
    let spec : Table := ⟨[(.text "name", .integer 7), (.text "required", .table ⟨1⟩)]⟩
    let list : Table := ⟨[(.integer 1, .text "a"), (.integer 3, .boolean true)]⟩
    read .composite { Session.start with heap := ⟨#[spec, list]⟩ } [.table ⟨0⟩, .nil] =
      .ok ⟨"7", ["a"]⟩ := by rfl

/-! ### What is declared -/

/-- A specification stands for a descriptor: a project with the set of the requirements, or a
composite with their list up to repeats, of which there must be some. -/
inductive Describes (spec : Specification) : Kind → Descriptor → Prop
  | project {p : Project} (name_eq : p.name = ⟨spec.name⟩)
      (mem_requires : ∀ m, m ∈ p.requires ↔ m.text ∈ spec.requirements) :
      Describes spec .project (.project p)
  | composite {c : Composite} (ne_nil : spec.requirements ≠ []) (name_eq : c.name = ⟨spec.name⟩)
      (required_eq : c.required = (spec.requirements.map TargetName.mk).eraseDups) :
      Describes spec .composite (.composite c)

theorem descriptor_eq_ok_iff :
    (declaration kind spec).descriptor = .ok d ↔ spec.Describes kind d := by
  cases kind with
  | project =>
      have hproject : (declaration .project spec).descriptor =
          .ok (.project (.requiring ⟨spec.name⟩ [spec.requirements.map TargetName.mk])) := rfl
      have hmem : ∀ m : TargetName, (∃ ns ∈ [spec.requirements.map TargetName.mk], m ∈ ns) ↔
          m.text ∈ spec.requirements := by
        intro m
        simp only [List.mem_singleton, exists_eq_left, List.mem_map]
        constructor
        · rintro ⟨text, htext, rfl⟩
          exact htext
        · intro htext
          exact ⟨m.text, htext, rfl⟩
      rw [hproject, Except.ok.injEq]
      constructor
      · rintro rfl
        exact .project (Project.name_requiring _ _) fun m => Project.mem_requiring.trans (hmem m)
      · rintro ⟨hname, hrequires⟩
        rw [Project.eq_requiring_iff.2 ⟨hname, fun m => (hrequires m).trans (hmem m).symm⟩]
  | composite =>
      have hnil : spec.requirements.map TargetName.mk ≠ [] ↔ spec.requirements ≠ [] :=
        not_congr List.map_eq_nil_iff
      rw [declaration, Composite.descriptor_compose_eq_ok_iff]
      constructor
      · rintro ⟨c, hc, rfl⟩
        obtain ⟨hne, hname, hrequired⟩ := Composite.ofList_eq_ok_iff.1 hc
        exact .composite (hnil.1 hne) hname hrequired
      · intro h
        cases h with
        | composite hne hname hrequired =>
            exact ⟨_, Composite.ofList_eq_ok_iff.2 ⟨hnil.2 hne, hname, hrequired⟩, rfl⟩

end Specification

namespace Registry

variable {r r' : Registry} {kind : Kind} {spec : Specification} {d : Descriptor}

/-- The second registry is the first one with a descriptor: it is the same if the descriptor is
declared already, and otherwise has the descriptor behind all others. -/
structure With (r : Registry) (d : Descriptor) (r' : Registry) : Prop where
  get?_self : r'.get? d.name = some d
  get?_of_ne : ∀ n, n ≠ d.name → r'.get? n = r.get? n
  eq_of_declared : r.get? d.name = some d → r' = r
  toList_of_new : r.get? d.name = none → r'.toList = r.toList ++ [d]

theorem with_self (hd : r.get? d.name = some d) : r.With d r where
  get?_self := hd
  get?_of_ne _ _ := rfl
  eq_of_declared _ := rfl
  toList_of_new hnone := by
    rw [hnone] at hd
    cases hd

theorem with_of_toList (hd : d.name ∉ r.names) (hlist : r'.toList = r.toList ++ [d]) :
    r.With d r' where
  get?_self := get?_eq_some_iff.2 ⟨by simp [hlist], rfl⟩
  get?_of_ne n hn := by
    refine Option.ext fun e => ?_
    rw [get?_eq_some_iff, get?_eq_some_iff, hlist, List.mem_append, List.mem_singleton]
    constructor
    · rintro ⟨he | rfl, hname⟩
      · exact ⟨he, hname⟩
      · exact absurd hname.symm hn
    · rintro ⟨he, hname⟩
      exact ⟨.inl he, hname⟩
  eq_of_declared hsome := absurd (mem_names_iff.2 ⟨d, hsome⟩) hd
  toList_of_new _ := hlist

/-- A specification is accepted if the name has no other descriptor than the one it stands for. -/
theorem exists_declare_iff :
    (∃ r', r.declare kind spec = .ok r') ↔
      ∃ d, spec.Describes kind d ∧ ∀ e, r.get? d.name = some e → e = d := by
  constructor
  · rintro ⟨r', h⟩
    obtain ⟨d, -, hd, hdeclared⟩ := declare_eq_ok h
    refine ⟨d, Specification.descriptor_eq_ok_iff.1 hd, fun e he => ?_⟩
    rcases hdeclared with ⟨-, hmem⟩ | ⟨hnew, -⟩
    · have hget : r.get? d.name = some d := get?_eq_some_iff.2 ⟨hmem, rfl⟩
      exact Option.some.inj (he.symm.trans hget)
    · exact absurd (mem_names_iff.2 ⟨e, he⟩) hnew
  · rintro ⟨d, hd, hother⟩
    have hdescriptor := Specification.descriptor_eq_ok_iff.2 hd
    cases hget : r.get? d.name with
    | none =>
        refine ⟨r.push d hget, ?_⟩
        rw [declare_eq_apply, Declaration.apply_eq_bind, hdescriptor]
        exact register_of_get?_eq_none hget
    | some e =>
        obtain rfl := hother e hget
        exact ⟨r, declare_eq_self hdescriptor (get?_eq_some_iff.1 hget).1⟩

theorem with_of_declare (h : r.declare kind spec = .ok r') (hd : spec.Describes kind d) :
    r.With d r' := by
  obtain ⟨d', -, hd', hdeclared⟩ := declare_eq_ok h
  obtain rfl : d' = d :=
    Except.ok.inj (hd'.symm.trans (Specification.descriptor_eq_ok_iff.2 hd))
  rcases hdeclared with ⟨rfl, hmem⟩ | ⟨hnew, hlist⟩
  · exact with_self (get?_eq_some_iff.2 ⟨hmem, rfl⟩)
  · exact with_of_toList hnew hlist

end Registry

/-! ### Calls -/

namespace Run

variable {kind : Kind} {arguments : List Value} {s t : Session} {v : Value}
variable {answers : List Value} {spec : Specification} {d : Descriptor}

/-- Arguments state a target that the registry of a session can take: it has no other descriptor
under the name. -/
def Takes (s : Session) (kind : Kind) (arguments : List Value) (spec : Specification)
    (d : Descriptor) : Prop :=
  spec.StatedBy kind s arguments ∧ spec.Describes kind d ∧
    ∀ e, s.registry.get? d.name = some e → e = d

/-- How a call that should declare a target of a kind ends, and in which session.  It succeeds
exactly if its arguments state a target that the registry can take.  The registry then has this
target too, and otherwise it is as before, also if the call panics, which it does for a list that
there is no room for. -/
structure Declares (kind : Kind) (arguments : List Value) (s : Session)
    (ending : Except Value (List Value) × Session) : Prop where
  succeeds_iff : (∃ answers, ending.1 = .ok answers) ↔ ∃ spec d, Takes s kind arguments spec d
  registers : ∀ answers spec d, ending.1 = .ok answers → Takes s kind arguments spec d →
    s.registry.With d ending.2.registry
  keeps : ∀ v, ending.1 = .error v → ending.2.registry = s.registry
  panics : Specification.Overflows kind s arguments → ∃ n, ending.1 = .error (.panic n)

theorem declares_of_error (h : ∀ spec d, ¬Takes s kind arguments spec d)
    (ht : t.registry = s.registry)
    (hpanics : Specification.Overflows kind s arguments → ∃ n, v = .panic n) :
    Declares kind arguments s (.error v, t) where
  succeeds_iff := by
    constructor
    · rintro ⟨answers, hanswers⟩
      cases hanswers
    · rintro ⟨spec, d, htakes⟩
      exact absurd htakes (h spec d)
  registers _ _ _ hanswers := by cases hanswers
  keeps _ _ := ht
  panics hoverflows := by
    obtain ⟨n, rfl⟩ := hpanics hoverflows
    exact ⟨n, rfl⟩

theorem declares_of_ok (h : Takes s kind arguments spec d)
    (ht : ∀ spec d, Takes s kind arguments spec d → s.registry.With d t.registry) :
    Declares kind arguments s (.ok answers, t) where
  succeeds_iff := ⟨fun _ => ⟨spec, d, h⟩, fun _ => ⟨answers, rfl⟩⟩
  registers _ spec d _ := ht spec d
  keeps _ hv := by cases hv
  panics hoverflows := by
    have hread := Specification.read_eq_ok_iff.2 h.1
    rw [Specification.read_eq_panic hoverflows] at hread
    cases hread

/-- Arguments that are not read leave the registry as it is. -/
theorem declares_of_read_eq_error {i : Interruption}
    (hread : Specification.read kind s arguments = .error i) (load : Loader) (room : Nat)
    (callers : List Caller) :
    Declares kind arguments s
      ((call load room callers (.function kind.builtin) arguments).outcome s) := by
  have htakes : ∀ spec d, ¬Takes s kind arguments spec d := by
    intro spec d htakes
    rw [Specification.read_eq_ok_iff.2 htakes.1] at hread
    cases hread
  have hpanics : Specification.Overflows kind s arguments → i = .panic := by
    intro hoverflows
    exact Except.error.inj (hread.symm.trans (Specification.read_eq_panic hoverflows))
  rw [Activation.outcome_call_of_kind, outcome_declare, hread]
  cases i with
  | fault f => exact declares_of_error htakes rfl fun h => nomatch hpanics h
  | panic => exact declares_of_error htakes rfl fun _ => ⟨_, rfl⟩
  | resumed n => exact declares_of_error htakes rfl fun h => nomatch hpanics h

/-- For any values as arguments, in any session, a declaration function declares what they state
or leaves the registry as it is. -/
theorem call_declares (load : Loader) (room : Nat) (callers : List Caller) (kind : Kind)
    (arguments : List Value) (s : Session) :
    Declares kind arguments s
      ((call load room callers (.function kind.builtin) arguments).outcome s) := by
  cases hread : Specification.read kind s arguments with
  | error i => exact declares_of_read_eq_error hread load room callers
  | ok spec =>
      -- The arguments state nothing else.
      have heq : ∀ {spec' d}, Takes s kind arguments spec' d → spec' = spec := fun htakes =>
        Except.ok.inj ((Specification.read_eq_ok_iff.2 htakes.1).symm.trans hread)
      rw [Activation.outcome_call_builtin hread]
      dsimp only
      cases hdeclare : s.registry.declare kind spec with
      | error e =>
          refine declares_of_error (fun spec' d htakes => ?_) rfl fun hoverflows => ?_
          · obtain rfl := heq htakes
            obtain ⟨registry, hregistry⟩ := Registry.exists_declare_iff.2 ⟨d, htakes.2⟩
            rw [hdeclare] at hregistry
            cases hregistry
          · rw [Specification.read_eq_panic hoverflows] at hread
            cases hread
      | ok registry =>
          obtain ⟨d, hd⟩ := Registry.exists_declare_iff.1 ⟨registry, hdeclare⟩
          refine declares_of_ok ⟨Specification.read_eq_ok_iff.1 hread, hd⟩ fun spec' d htakes => ?_
          obtain rfl := heq htakes
          exact Registry.with_of_declare hdeclare htakes.2.1

/-- A table with a name that nothing is declared under and with a list of two texts, behind which
others stand.  The call that should declare the target panics. -/
theorem call_panics_holding :
    ((holding.heap.get ⟨1⟩).get (.text "name")).HasText "a" ∧ ¬isBlank "a" ∧
      (holding.heap.get ⟨1⟩).get (.text "requires") = .table ⟨2⟩ ∧
      (holding.heap.get ⟨2⟩).Lists (["x", "x"].map .text) ∧
      holding.registry.get? ⟨"a"⟩ = none ∧
      ((call (load guarded) 9 [] (.function .project) [.table ⟨1⟩]).outcome holding).1 =
        .error (.panic 0) := by
  have htext : ((holding.heap.get ⟨1⟩).get (.text "name")).HasText "a" :=
    Value.toText_eq_ok_iff.1 (by decide +kernel)
  have hblank : ¬isBlank "a" := by decide +kernel
  have hfield : (holding.heap.get ⟨1⟩).get (.text "requires") = .table ⟨2⟩ := by decide +kernel
  have hlists : (holding.heap.get ⟨2⟩).Lists (["x", "x"].map .text) :=
    Table.sequence_eq_iff.1 (by decide +kernel)
  have hroom : ¬Specification.HasRoom holding ⟨2⟩ := by decide +kernel
  have hread : Specification.read .project holding [.table ⟨1⟩] = .error .panic :=
    Specification.read_eq_panic (.table htext hblank hfield hroom)
  have hcall := Activation.outcome_call_of_kind (s := holding) (load guarded) 9 [] .project
    [.table ⟨1⟩]
  rw [outcome_declare, hread] at hcall
  exact ⟨htext, hblank, hfield, hlists, rfl, congrArg Prod.fst hcall⟩

end Run

end BuildPlan
