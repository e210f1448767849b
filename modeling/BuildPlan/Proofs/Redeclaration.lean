import BuildPlan.Proofs.Registry

/-! # Declaring a name again

Two projects are the same if their requirements are the same set, however they were listed
(`Project.eq_requiring_iff`), and two composites are if their lists are the same up to repeats
(`Composite.ofList_eq_ok_iff`).  So a registry accepts a name that it has once more exactly if it is
declared as it was, up to the order of the requirements of a project and the repeats in the list of
a composite, and never changes by it.  The main statement is `Registry.redeclare`. -/

namespace BuildPlan

/-! ### Equal descriptors -/

namespace Project

variable {n m : TargetName} {lists : List (List TargetName)} {p : Project}

/-- The project to which the names of several lists were added, one list after the other. -/
def requiring (n : TargetName) (lists : List (List TargetName)) : Project :=
  lists.foldl withRequires (leaf n)

theorem foldl_withRequires (p : Project) (lists : List (List TargetName)) :
    lists.foldl withRequires p = p.withRequires lists.flatten := by
  induction lists generalizing p with
  | nil => rfl
  | cons ns lists ih =>
      rw [List.foldl_cons, ih, List.flatten_cons]
      unfold withRequires NameSet.insertAll
      rw [List.foldl_append]

theorem name_requiring (n : TargetName) (lists : List (List TargetName)) :
    (requiring n lists).name = n := by
  rw [requiring, foldl_withRequires]
  rfl

theorem mem_requiring : m ∈ (requiring n lists).requires ↔ ∃ ns ∈ lists, m ∈ ns := by
  have hadded : m ∈ ((leaf n).withRequires lists.flatten).requires ↔
      m ∈ lists.flatten ∨ m ∈ NameSet.empty := NameSet.mem_insertAll
  rw [requiring, foldl_withRequires, hadded, List.mem_flatten]
  simp

/-- A project is known by its name and by what it requires. -/
theorem eq_requiring_iff :
    p = requiring n lists ↔ p.name = n ∧ ∀ m, m ∈ p.requires ↔ ∃ ns ∈ lists, m ∈ ns := by
  constructor
  · rintro rfl
    exact ⟨name_requiring n lists, fun m => mem_requiring⟩
  · rintro ⟨hname, hrequires⟩
    obtain ⟨name, requires⟩ := p
    obtain rfl : name = (requiring n lists).name := hname.trans (name_requiring n lists).symm
    obtain rfl : requires = (requiring n lists).requires :=
      NameSet.ext_mem fun m => (hrequires m).trans mem_requiring.symm
    rfl

end Project

namespace Composite

variable {n : TargetName} {ns : List TargetName} {c : Composite} {d : Descriptor}

/-- A composite is known by its name and by the first occurrences in its list. -/
theorem ofList_eq_ok_iff :
    ofList n ns = .ok c ↔ ns ≠ [] ∧ c.name = n ∧ c.required = ns.eraseDups := by
  unfold ofList
  by_cases hns : ns = []
  · rw [dif_pos hns]
    constructor
    · intro h
      cases h
    · rintro ⟨hne, -⟩
      exact absurd hns hne
  · rw [dif_neg hns, ← distinct_eq_eraseDups]
    constructor
    · intro h
      obtain rfl := Except.ok.inj h
      exact ⟨hns, rfl, rfl⟩
    · rintro ⟨-, rfl, hrequired⟩
      obtain ⟨name, required, hne, hnodup⟩ := c
      obtain rfl : required = distinct ns := hrequired
      rfl

theorem descriptor_compose_eq_ok_iff :
    (Declaration.compose n ns).descriptor = .ok d ↔
      ∃ c, ofList n ns = .ok c ∧ d = .composite c := by
  rw [Declaration.descriptor]
  cases ofList n ns with
  | error e =>
      refine ⟨nofun, ?_⟩
      rintro ⟨c, hc, -⟩
      cases hc
  | ok c =>
      constructor
      · intro h
        exact ⟨c, rfl, (Except.ok.inj h).symm⟩
      · rintro ⟨c', hc, rfl⟩
        rw [Except.ok.inj hc]
        rfl

end Composite

/-! ### Names that are declared already -/

namespace Registry

variable {r : Registry} {n : TargetName} {d e : Descriptor} {c : Declaration}

/-- How a registry meets a declaration that cannot add anything: it accepts the declaration in one
case and refuses it with an error in all others, and stays as it is. -/
structure Decides (r : Registry) (c : Declaration) (accepts : Prop) (err : PlanError) : Prop where
  accepted_iff : (∃ r', c.apply r = .ok r') ↔ accepts
  refused : ¬accepts → c.apply r = .error err
  unchanged : r.after c = r

theorem Decides.congr {accepts accepts' : Prop} {err : PlanError} (h : r.Decides c accepts err)
    (hiff : accepts ↔ accepts') : r.Decides c accepts' err :=
  propext hiff ▸ h

/-- A name that has a descriptor is accepted with this one only. -/
theorem decides_of_descriptor (hd : r.get? n = some d) (hc : c.descriptor = .ok e)
    (hname : e.name = n) : r.Decides c (d = e) (.duplicateTarget n) := by
  have happly : c.apply r = if d = e then .ok r else .error (.duplicateTarget n) := by
    rw [c.apply_eq_bind, hc]
    change r.register e = _
    rw [register_of_get?_eq_some (hname ▸ hd), hname]
  by_cases hde : d = e
  · rw [if_pos hde] at happly
    exact ⟨⟨fun _ => hde, fun _ => ⟨r, happly⟩⟩, fun h => absurd hde h, after_of_ok happly⟩
  · rw [if_neg hde] at happly
    refine ⟨⟨?_, fun h => absurd h hde⟩, fun _ => happly, after_of_error happly⟩
    rintro ⟨r', hr'⟩
    rw [happly] at hr'
    cases hr'

/-- A composite of no names is refused whatever is declared. -/
theorem decides_compose_nil (r : Registry) (n : TargetName) :
    r.Decides (.compose n []) False (.emptyComposite n) := by
  have happly : (Declaration.compose n []).apply r = .error (.emptyComposite n) := rfl
  refine ⟨⟨?_, False.elim⟩, fun _ => happly, after_of_error happly⟩
  rintro ⟨r', hr'⟩
  rw [happly] at hr'
  cases hr'

theorem decides_project (hd : r.get? n = some d) (lists : List (List TargetName)) :
    r.Decides (.register (.project (.requiring n lists)))
      (∃ p, d = .project p ∧ ∀ m, m ∈ p.requires ↔ ∃ ns ∈ lists, m ∈ ns) (.duplicateTarget n) := by
  have hdecides := decides_of_descriptor hd
    (c := .register (.project (.requiring n lists))) rfl (Project.name_requiring n lists)
  refine hdecides.congr ⟨?_, ?_⟩
  · rintro rfl
    exact ⟨_, rfl, fun m => Project.mem_requiring⟩
  · rintro ⟨p, rfl, hrequires⟩
    rw [Project.eq_requiring_iff.2 ⟨name_of_get? hd, hrequires⟩]

theorem decides_compose (hd : r.get? n = some d) {ns : List TargetName} (hns : ns ≠ []) :
    r.Decides (.compose n ns) (∃ x, d = .composite x ∧ x.required = ns.eraseDups)
      (.duplicateTarget n) := by
  obtain ⟨y, hy⟩ : ∃ y, Composite.ofList n ns = .ok y := ⟨_, dif_neg hns⟩
  obtain ⟨-, hname, hrequired⟩ := Composite.ofList_eq_ok_iff.1 hy
  have hdescriptor := Composite.descriptor_compose_eq_ok_iff.2 ⟨y, hy, rfl⟩
  refine (decides_of_descriptor hd hdescriptor hname).congr ⟨?_, ?_⟩
  · rintro rfl
    exact ⟨y, rfl, hrequired⟩
  · rintro ⟨x, rfl, hx⟩
    have hsame := Composite.ofList_eq_ok_iff.2 ⟨hns, name_of_get? hd, hx⟩
    rw [Except.ok.inj (hsame.symm.trans hy)]

/-- A declared name is accepted again as a project if it is one with the same set of requirements,
and as a composite if it is one with the same list up to repeats.  Of no names there is no
composite; all else contradicts what is declared.  The registry stays as it is in every case. -/
theorem redeclare (hd : r.get? n = some d) :
    (∀ lists, r.Decides (.register (.project (.requiring n lists)))
      (∃ p, d = .project p ∧ ∀ m, m ∈ p.requires ↔ ∃ ns ∈ lists, m ∈ ns) (.duplicateTarget n)) ∧
    (∀ ns, ns ≠ [] → r.Decides (.compose n ns)
      (∃ x, d = .composite x ∧ x.required = ns.eraseDups) (.duplicateTarget n)) ∧
    r.Decides (.compose n []) False (.emptyComposite n) :=
  ⟨decides_project hd, fun _ hns => decides_compose hd hns, decides_compose_nil r n⟩

/-- In the workspace `app` requires `libs` and `net`, and `libs` lists `util`, `base` and `net`. -/
theorem redeclare_workspace :
    (∃ r', (Declaration.register (.project (.requiring ⟨"app"⟩
      [[⟨"net"⟩, ⟨"net"⟩], [], [⟨"libs"⟩, ⟨"net"⟩]]))).apply workspace = .ok r') ∧
    (Declaration.register (.project (.requiring ⟨"app"⟩ [[⟨"net"⟩]]))).apply workspace =
      .error (.duplicateTarget ⟨"app"⟩) ∧
    (∃ r', (Declaration.compose ⟨"libs"⟩
      [⟨"util"⟩, ⟨"base"⟩, ⟨"util"⟩, ⟨"net"⟩]).apply workspace = .ok r') ∧
    (Declaration.compose ⟨"libs"⟩ [⟨"base"⟩, ⟨"util"⟩, ⟨"net"⟩]).apply workspace =
      .error (.duplicateTarget ⟨"libs"⟩) ∧
    (Declaration.compose ⟨"libs"⟩ []).apply workspace = .error (.emptyComposite ⟨"libs"⟩) := by
  have happ : workspace.get? ⟨"app"⟩ =
      some (.project (.requiring ⟨"app"⟩ [[⟨"libs"⟩, ⟨"net"⟩]])) := by decide +kernel
  obtain ⟨x, hlibs, hx⟩ : ∃ x, workspace.get? ⟨"libs"⟩ = some (.composite x) ∧
      x.required = [⟨"util"⟩, ⟨"base"⟩, ⟨"net"⟩] := by
    refine ⟨⟨⟨"libs"⟩, [⟨"util"⟩, ⟨"base"⟩, ⟨"net"⟩], by decide, by decide⟩, ?_, rfl⟩
    decide +kernel
  obtain ⟨hproject, -, -⟩ := redeclare happ
  obtain ⟨-, hcompose, hempty⟩ := redeclare hlibs
  refine ⟨(hproject _).accepted_iff.2 ⟨_, rfl, fun m => ?_⟩, (hproject _).refused ?_,
    (hcompose _ (by decide)).accepted_iff.2 ⟨x, rfl, hx.trans (by decide)⟩,
    (hcompose _ (by decide)).refused ?_, hempty.refused id⟩
  · rw [Project.mem_requiring]
    simp only [List.mem_cons, List.not_mem_nil, or_false, exists_eq_or_imp, exists_eq_left]
    tauto
  · rintro ⟨p, hp, hrequires⟩
    obtain rfl := Descriptor.project.inj hp
    have hmem := (hrequires ⟨"libs"⟩).1 (Project.mem_requiring.2 (by simp))
    revert hmem
    decide
  · rintro ⟨y, hy, hrequired⟩
    obtain rfl := Descriptor.composite.inj hy
    rw [hx] at hrequired
    revert hrequired
    decide

end Registry

end BuildPlan
