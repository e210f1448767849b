import Mathlib.Data.List.Basic
import Mathlib.Data.List.Induction
import BuildPlan.Proofs.Requirement

/-! # The history of a registry

A registry is filled by declarations, some of which fail (`Registry.afterAll`).  What one of them
does is said once, by `Registry.Effect`: it is refused and changes nothing, it repeats a target
that is declared already, or it adds its target behind all others.

By induction on the declarations the registry then lists the first descriptor under every name, in
the order in which they were declared (`Registry.toList_afterAll`), so what it lists once is never
changed and never moves (`Registry.toList_isPrefix`).  The main statement is
`Registry.records_afterAll`. -/

namespace BuildPlan

/-- A request to declare a target. -/
inductive Declaration where
  /-- Declares a target under its own name. -/
  | register (d : Descriptor)
  /-- Declares the composite of the listed targets. -/
  | compose (name : TargetName) (required : List TargetName)
deriving DecidableEq

namespace Declaration

/-- The descriptor of the target, or why there is none. -/
def descriptor : Declaration → Except PlanError Descriptor
  | .register d => .ok d
  | .compose name required => (Composite.ofList name required).map .composite

/-- The registry with the target declared, or why it cannot be. -/
def apply (r : Registry) : Declaration → Except PlanError Registry
  | .register d => r.register d
  | .compose name required => r.compose name required

/-- The descriptors of several declarations, in order; those without one are left out. -/
def descriptors (cs : List Declaration) : List Descriptor :=
  cs.filterMap fun c => c.descriptor.toOption

theorem apply_eq_bind (r : Registry) (c : Declaration) :
    c.apply r = c.descriptor.bind r.register := by
  cases c with
  | register d => rfl
  | compose name required =>
      change (Composite.ofList name required).bind _ =
        ((Composite.ofList name required).map Descriptor.composite).bind r.register
      cases Composite.ofList name required with
      | error e => rfl
      | ok x => rfl

theorem descriptors_cons_of_ok {c : Declaration} {d : Descriptor} (h : c.descriptor = .ok d)
    (cs : List Declaration) : descriptors (c :: cs) = d :: descriptors cs := by
  unfold descriptors
  rw [List.filterMap_cons, h]
  rfl

theorem descriptors_cons_of_error {c : Declaration} {e : PlanError} (h : c.descriptor = .error e)
    (cs : List Declaration) : descriptors (c :: cs) = descriptors cs := by
  unfold descriptors
  rw [List.filterMap_cons, h]
  rfl

/-- Only the composite of no names has no descriptor. -/
theorem descriptor_eq_error_iff {c : Declaration} {e : PlanError} :
    c.descriptor = .error e ↔ ∃ n, c = .compose n [] ∧ e = .emptyComposite n := by
  constructor
  · intro h
    cases c with
    | register d => cases h
    | compose n ns =>
        change (Composite.ofList n ns).map Descriptor.composite = _ at h
        unfold Composite.ofList at h
        split at h
        · next hns =>
            subst hns
            exact ⟨n, rfl, (Except.error.inj h).symm⟩
        · cases h
  · rintro ⟨n, rfl, rfl⟩
    rfl

/-- A target is declared as it is, or composed of listed names at their first occurrences. -/
theorem eq_of_descriptor_eq_ok {c : Declaration} {d : Descriptor} (h : c.descriptor = .ok d) :
    c = .register d ∨
      ∃ x ns, d = .composite x ∧ c = .compose x.name ns ∧ x.required = ns.eraseDups := by
  cases c with
  | register d' =>
      obtain rfl := Except.ok.inj h
      exact .inl rfl
  | compose n ns =>
      change (Composite.ofList n ns).map Descriptor.composite = _ at h
      unfold Composite.ofList at h
      split at h
      · cases h
      · obtain rfl := Except.ok.inj h
        exact .inr ⟨_, ns, rfl, rfl, distinct_eq_eraseDups ns⟩

end Declaration

namespace Registry

variable {r : Registry} {c : Declaration} {d : Descriptor} {n : TargetName}

/-! ### Order and index -/

theorem mem_index_iff : n ∈ r.index ↔ n ∈ r.names := by
  rw [Std.TreeMap.mem_iff_isSome_getElem?, Option.isSome_iff_exists]
  exact mem_names_iff.symm

theorem contains_iff : r.contains n = true ↔ n ∈ r.names :=
  Std.TreeMap.contains_iff_mem.trans mem_index_iff

/-- Looking up the names in their order passes none of them over. -/
theorem filterMap_names (r : Registry) : r.names.filterMap r.get? = r.toList := by
  have hget : ∀ d ∈ r.toList, r.get? d.name = some d :=
    fun d hd => get?_eq_some_iff.2 ⟨hd, rfl⟩
  rw [names, List.filterMap_map]
  exact (List.filterMap_congr hget).trans List.filterMap_some

theorem size_index (r : Registry) : r.index.size = r.size := by
  have hnames : r.names.Nodup := r.nodup_names
  have hperm : r.index.keys.Perm r.names := by
    apply (List.perm_ext_iff_of_nodup Std.TreeMap.nodup_keys hnames).2
    intro n
    rw [Std.TreeMap.mem_keys, mem_index_iff]
  have hlength : r.index.keys.length = r.names.length := hperm.length_eq
  rw [Std.TreeMap.length_keys] at hlength
  rw [hlength, names, List.length_map]
  rfl

/-! ### One declaration -/

theorem toList_push (hd : r.get? d.name = none) : (r.push d hd).toList = r.toList ++ [d] := by
  simp [push, toList]

theorem register_of_get?_eq_none (hd : r.get? d.name = none) :
    r.register d = .ok (r.push d hd) := by
  unfold register
  split
  · rfl
  · next e he =>
      rw [hd] at he
      cases he

theorem register_of_get?_eq_some {e : Descriptor} (he : r.get? d.name = some e) :
    r.register d = if e = d then .ok r else .error (.duplicateTarget d.name) := by
  unfold register
  split
  · next h =>
      rw [h] at he
      cases he
  · next e' he' => rw [Option.some.inj (he'.symm.trans he)]

/-- The registry after a declaration: one that fails changes nothing. -/
def after (r : Registry) (c : Declaration) : Registry :=
  match c.apply r with
  | .ok r' => r'
  | .error _ => r

/-- The registry after several declarations. -/
def afterAll (r : Registry) (cs : List Declaration) : Registry := cs.foldl after r

/-- Why a declaration is refused: it composes no names, or its name has another descriptor. -/
def Refuses (r : Registry) (c : Declaration) (e : PlanError) : Prop :=
  (∃ n, c = .compose n [] ∧ e = .emptyComposite n) ∨
    ∃ d d', c.descriptor = .ok d ∧ r.get? d.name = some d' ∧ d' ≠ d ∧ e = .duplicateTarget d.name

/-- What a declaration does to a registry. -/
inductive Effect (r : Registry) (c : Declaration) : Registry → Prop
  | refused {e : PlanError} : c.apply r = .error e → r.Refuses c e → Effect r c r
  | repeated {d : Descriptor} : c.apply r = .ok r → c.descriptor = .ok d → d ∈ r.toList →
      Effect r c r
  | added {d : Descriptor} {r' : Registry} : c.apply r = .ok r' → c.descriptor = .ok d →
      d.name ∉ r.names → r'.toList = r.toList ++ [d] → Effect r c r'

theorem after_of_ok {r' : Registry} (h : c.apply r = .ok r') : r.after c = r' := by
  rw [after, h]

theorem after_of_error {e : PlanError} (h : c.apply r = .error e) : r.after c = r := by
  rw [after, h]

theorem effect_after (r : Registry) (c : Declaration) : r.Effect c (r.after c) := by
  have happly := c.apply_eq_bind r
  cases hc : c.descriptor with
  | error e =>
      rw [hc] at happly
      rw [after_of_error happly]
      exact .refused happly (.inl (Declaration.descriptor_eq_error_iff.1 hc))
  | ok d =>
      rw [hc] at happly
      change c.apply r = r.register d at happly
      cases hget : r.get? d.name with
      | none =>
          rw [register_of_get?_eq_none hget] at happly
          rw [after_of_ok happly]
          exact .added happly hc (get?_eq_none_iff.1 hget) (toList_push hget)
      | some e =>
          rw [register_of_get?_eq_some hget] at happly
          by_cases he : e = d
          · subst he
            rw [if_pos rfl] at happly
            rw [after_of_ok happly]
            exact .repeated happly hc (get?_eq_some_iff.1 hget).1
          · rw [if_neg he] at happly
            rw [after_of_error happly]
            exact .refused happly (.inr ⟨d, e, hc, hget, he, rfl⟩)

/-! ### Several declarations -/

/-- The first descriptor under every name. -/
def firsts (ds : List Descriptor) : List Descriptor := ds.eraseDupsBy fun d e => d.name == e.name

theorem firsts_cons (d : Descriptor) (ds : List Descriptor) :
    firsts (d :: ds) = d :: firsts (ds.filter fun e => e.name ≠ d.name) := by
  unfold firsts
  rw [List.eraseDupsBy_cons]
  congr 3
  funext e
  simp

/-- The descriptors of declarations under names that a registry does not know. -/
def unknown (r : Registry) (cs : List Declaration) : List Descriptor :=
  (Declaration.descriptors cs).filter fun d => d.name ∉ r.names

theorem unknown_cons_of_error {e : PlanError} (h : c.descriptor = .error e)
    (cs : List Declaration) : r.unknown (c :: cs) = r.unknown cs := by
  rw [unknown, Declaration.descriptors_cons_of_error h]
  rfl

theorem unknown_cons_of_mem (h : c.descriptor = .ok d) (hd : d.name ∈ r.names)
    (cs : List Declaration) : r.unknown (c :: cs) = r.unknown cs := by
  rw [unknown, Declaration.descriptors_cons_of_ok h, List.filter_cons_of_neg (by simpa using hd)]
  rfl

theorem unknown_cons_of_not_mem (h : c.descriptor = .ok d) (hd : d.name ∉ r.names)
    (cs : List Declaration) :
    r.unknown (c :: cs) = d :: (Declaration.descriptors cs).filter fun e => e.name ∉ r.names := by
  rw [unknown, Declaration.descriptors_cons_of_ok h, List.filter_cons_of_pos (by simpa using hd)]

/-- A registry goes on with the first descriptor under every name that it does not know. -/
theorem toList_afterAll (r : Registry) (cs : List Declaration) :
    (r.afterAll cs).toList = r.toList ++ firsts (r.unknown cs) := by
  induction cs generalizing r with
  | nil => exact (List.append_nil r.toList).symm
  | cons c cs ih =>
      change ((r.after c).afterAll cs).toList = _
      rw [ih]
      have heffect := r.effect_after c
      generalize r.after c = r' at heffect ⊢
      cases heffect with
      | refused _ hwhy =>
          rcases hwhy with hnone | ⟨d, d', hc, hget, -, -⟩
          · rw [unknown_cons_of_error (Declaration.descriptor_eq_error_iff.2 hnone)]
          · rw [unknown_cons_of_mem hc (mem_names_iff.2 ⟨d', hget⟩)]
      | repeated _ hc hd => rw [unknown_cons_of_mem hc (List.mem_map_of_mem hd)]
      | @added d r' _ hc hd hlist =>
          -- From now on the name is known, so whatever else is declared under it is passed over.
          have hnames : r'.names = r.names ++ [d.name] := by
            rw [names, hlist, List.map_append]
            rfl
          have hunknown : r'.unknown cs = (r.unknown cs).filter fun e => e.name ≠ d.name := by
            unfold unknown
            rw [List.filter_filter]
            congr 1
            funext e
            simp [hnames, not_or, and_comm]
          rw [unknown_cons_of_not_mem hc hd, firsts_cons, hlist, hunknown, List.append_assoc]
          rfl

theorem afterAll_append (r : Registry) (cs later : List Declaration) :
    r.afterAll (cs ++ later) = (r.afterAll cs).afterAll later :=
  List.foldl_append

/-- What is listed stays as it is and where it is. -/
theorem toList_isPrefix (r : Registry) (cs later : List Declaration) :
    (r.afterAll cs).toList <+: (r.afterAll (cs ++ later)).toList := by
  rw [afterAll_append, toList_afterAll (r.afterAll cs) later]
  exact List.prefix_append _ _

theorem toList_afterAll_empty (cs : List Declaration) :
    (empty.afterAll cs).toList = firsts (Declaration.descriptors cs) := by
  have hunknown : empty.unknown cs = Declaration.descriptors cs :=
    List.filter_eq_self.2 fun d _ => by simp [names, toList, empty]
  rw [toList_afterAll, hunknown]
  rfl

/-- One of the declarations was accepted with this descriptor under a name that was new then. -/
def Accepted (cs : List Declaration) (d : Descriptor) : Prop :=
  ∃ before c later, cs = before ++ c :: later ∧ c.descriptor = .ok d ∧
    d.name ∉ (empty.afterAll before).names ∧
    c.apply (empty.afterAll before) = .ok (empty.afterAll (before ++ [c]))

theorem Accepted.append {cs : List Declaration} (h : Accepted cs d) (more : List Declaration) :
    Accepted (cs ++ more) d := by
  obtain ⟨before, c, later, rfl, hc, hnew, happly⟩ := h
  exact ⟨before, c, later ++ more, List.append_assoc _ _ _, hc, hnew, happly⟩

theorem accepted_of_mem_toList {cs : List Declaration} (hd : d ∈ (empty.afterAll cs).toList) :
    Accepted cs d := by
  -- A descriptor is new in the last declaration, or was listed before it.
  induction cs using List.reverseRecOn with
  | nil => cases hd
  | append_singleton cs c ih =>
      have heffect := (empty.afterAll cs).effect_after c
      have hlast : empty.afterAll (cs ++ [c]) = (empty.afterAll cs).after c :=
        afterAll_append empty cs [c]
      rw [hlast] at hd
      generalize hafter : (empty.afterAll cs).after c = r' at heffect hd
      cases heffect with
      | refused _ _ => exact (ih hd).append [c]
      | repeated _ _ _ => exact (ih hd).append [c]
      | @added e r' happly hc hnew hlist =>
          rw [hlist] at hd
          rcases List.mem_append.1 hd with hd | hd
          · exact (ih hd).append [c]
          · obtain rfl := List.mem_singleton.1 hd
            refine ⟨cs, c, [], rfl, hc, hnew, ?_⟩
            rw [happly, hlast, hafter]

/-- What a registry holds after declarations, some of which may have failed. -/
structure Records (r : Registry) (cs : List Declaration) : Prop where
  /-- The declaration order has no repeats and the index has just its names as keys. -/
  nodup_names : r.names.Nodup
  mem_index : ∀ n, n ∈ r.index ↔ n ∈ r.names
  name_of_get? : ∀ n d, r.get? n = some d → d.name = n
  /-- Looking up the names in their order finds all descriptors, one for every key. -/
  filterMap_names : r.names.filterMap r.get? = r.toList
  length_toList : r.toList.length = r.size ∧ r.size = r.index.size
  /-- Of all descriptors under a name the first one is listed. -/
  toList_eq : r.toList = firsts (Declaration.descriptors cs)
  accepted : ∀ d ∈ r.toList, Accepted cs d
  /-- A target is listed as it was registered, or composed of the names that were given. -/
  declared : ∀ d ∈ r.toList, .register d ∈ cs ∨
    ∃ x ns, d = .composite x ∧ .compose x.name ns ∈ cs ∧ x.required = ns.eraseDups
  composites : ∀ x, .composite x ∈ r.toList → x.required ≠ [] ∧ x.required.Nodup
  projects : ∀ x, .project x ∈ r.toList → x.requires.names.Pairwise (· < ·)

theorem declared_afterAll {cs : List Declaration} (hd : d ∈ (empty.afterAll cs).toList) :
    .register d ∈ cs ∨
      ∃ x ns, d = .composite x ∧ .compose x.name ns ∈ cs ∧ x.required = ns.eraseDups := by
  obtain ⟨before, c, later, rfl, hc, -, -⟩ := accepted_of_mem_toList hd
  have hmem : c ∈ before ++ c :: later := List.mem_append_right before List.mem_cons_self
  rcases Declaration.eq_of_descriptor_eq_ok hc with rfl | ⟨x, ns, rfl, rfl, hns⟩
  · exact .inl hmem
  · exact .inr ⟨x, ns, rfl, hmem, hns⟩

/-- After any declarations on the empty registry, failing ones included, the declaration order and
the index are in step, and the registry lists the first descriptor under every name, in the order
in which they were accepted.  A declaration that fails changes nothing, and whatever is listed
stays as it is and where it is. -/
theorem records_afterAll :
    (∀ cs, (empty.afterAll cs).Records cs) ∧
    (∀ cs c, (empty.afterAll cs).Effect c (empty.afterAll (cs ++ [c]))) ∧
    ∀ cs later, (empty.afterAll cs).toList <+: (empty.afterAll (cs ++ later)).toList := by
  refine ⟨fun cs => ?_, fun cs c => ?_, toList_isPrefix empty⟩
  · constructor
    case nodup_names => exact (empty.afterAll cs).nodup_names
    case mem_index => exact fun n => mem_index_iff
    case name_of_get? => exact fun n d => Registry.name_of_get?
    case filterMap_names => exact filterMap_names _
    case length_toList => exact ⟨rfl, (size_index _).symm⟩
    case toList_eq => exact toList_afterAll_empty cs
    case accepted => exact fun d hd => accepted_of_mem_toList hd
    case declared => exact fun d hd => declared_afterAll hd
    case composites => exact fun x _ => ⟨x.required_ne_nil, x.nodup_required⟩
    case projects => exact fun x _ => x.requires.ascending
  · rw [afterAll_append]
    exact effect_after _ c

/-- Declarations that are accepted, refused and repeated in turn. -/
def disputed : List Declaration :=
  [.register (.project ((Project.leaf ⟨"app"⟩).withRequires [⟨"net"⟩, ⟨"core"⟩])),
    .compose ⟨"all"⟩ [⟨"app"⟩, ⟨"core"⟩, ⟨"app"⟩],
    .compose ⟨"none"⟩ [],
    .register (.project (.leaf ⟨"app"⟩)),
    .compose ⟨"all"⟩ [⟨"app"⟩, ⟨"core"⟩],
    .compose ⟨"all"⟩ [⟨"core"⟩, ⟨"app"⟩],
    .register (.project (.leaf ⟨"core"⟩))]

theorem records_afterAll_disputed :
    (empty.afterAll disputed).Records disputed ∧
      (empty.afterAll disputed).toList.map (fun d => (d.name, d.requirements)) =
        [(⟨"app"⟩, [⟨"core"⟩, ⟨"net"⟩]), (⟨"all"⟩, [⟨"app"⟩, ⟨"core"⟩]), (⟨"core"⟩, [])] :=
  ⟨records_afterAll.1 disputed, by decide +kernel⟩

end Registry

end BuildPlan
