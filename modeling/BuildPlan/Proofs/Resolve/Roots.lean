import BuildPlan.Proofs.Resolve.TopLevel

/-! # Roots when all declared names have a plan

If all declared names have a plan, so have any roots that are declared, and of other roots the first
one that is not declared is the error (`exists_resolve_iff_declared`, `resolve_of_undeclared`).  The
plan of all names and that of the top-level ones hold the declared projects, so both are as long as
there are projects (`size_of_targets`). -/

namespace BuildPlan

variable {r : Registry} {roots : List TargetName} {n : TargetName} {p : Plan}

/-! ### Roots that are declared, and the first that is not -/

namespace Registry

section

variable {resolved : List TargetName} (h : r.postorder [] r.names [] = .ok resolved)

include h

theorem exists_postorder_of_declared (hroots : ∀ n ∈ roots, n ∈ r.names) :
    ∃ resolved', r.postorder [] roots [] = .ok resolved' := by
  have hgood := exists_postorder_iff.1 ⟨resolved, h⟩
  exact exists_postorder_iff.2 fun n hn => hgood n (hn.mono hroots)

theorem postorder_of_undeclared {known rest : List TargetName} (hknown : ∀ m ∈ known, m ∈ r.names)
    (hn : n ∉ r.names) :
    r.postorder [] (known ++ n :: rest) [] = .error (.unknownTarget n none) := by
  obtain ⟨resolved', hresolved⟩ := exists_postorder_of_declared h hknown
  have hmem : n ∉ resolved' := fun hmem =>
    hn (mem_names_iff.2 ((postordered_of_postorder hresolved).declared hmem))
  rw [postorder_append, hresolved]
  exact postorder_of_get?_eq_none hmem List.not_mem_nil (get?_eq_none_iff.2 hn)

end

end Registry

section

variable (hp : resolve r r.names = .ok p)

include hp

theorem exists_resolve_iff_declared :
    (∃ q, resolve r roots = .ok q) ↔ ∀ n ∈ roots, n ∈ r.names := by
  obtain ⟨resolved, h, -⟩ := resolve_eq_ok_iff.1 hp
  rw [exists_resolve_iff]
  constructor
  · intro hroots n hn
    exact (Registry.exists_postorder_iff.1 hroots n (.of_mem hn)).1
  · exact Registry.exists_postorder_of_declared h

/-- The first root that is not declared is unknown, and no target requires it. -/
theorem resolve_of_undeclared {known rest : List TargetName} (hknown : ∀ m ∈ known, m ∈ r.names)
    (hn : n ∉ r.names) : resolve r (known ++ n :: rest) = .error (.unknownTarget n none) := by
  obtain ⟨resolved, h, -⟩ := resolve_eq_ok_iff.1 hp
  exact resolve_eq_error_iff.2 (Registry.postorder_of_undeclared h hknown hn)

/-! ### As many targets as projects -/

theorem mem_targets_names_iff : n ∈ p.targets ↔ ∃ x, r.get? n = some (.project x) := by
  obtain ⟨resolved, h, hsteps⟩ := resolve_eq_ok_iff.1 hp
  rw [mem_targets_iff_of_steps hsteps, Registry.mem_postorder_names_iff h, Registry.mem_names_iff]
  exact ⟨fun ⟨_, hx⟩ => hx, fun ⟨x, hx⟩ => ⟨⟨_, hx⟩, x, hx⟩⟩

theorem exists_resolve_topLevel :
    ∃ q, resolve r r.topLevel = .ok q ∧ ∀ n, n ∈ q.targets ↔ n ∈ p.targets := by
  obtain ⟨resolved, h, hsteps⟩ := resolve_eq_ok_iff.1 hp
  obtain ⟨resolved', h', hmem⟩ := Registry.exists_postorder_topLevel h
  obtain ⟨q, hq, hsteps'⟩ := exists_resolve_of_postorder h'
  refine ⟨q, hq, fun n => ?_⟩
  rw [mem_targets_iff_of_steps hsteps', mem_targets_iff_of_steps hsteps, hmem]

end

/-- The names of the declared projects. -/
def Registry.projectNames (r : Registry) : List TargetName :=
  (r.toList.filter fun d => d.kind = .project).map Descriptor.name

theorem Registry.mem_projectNames_iff :
    n ∈ r.projectNames ↔ ∃ x, r.get? n = some (.project x) := by
  unfold projectNames
  constructor
  · intro hn
    obtain ⟨d, hd, rfl⟩ := List.mem_map.1 hn
    obtain ⟨hd, hkind⟩ := List.mem_filter.1 hd
    cases d with
    | project x => exact ⟨x, get?_eq_some_iff.2 ⟨hd, rfl⟩⟩
    | composite c => cases of_decide_eq_true hkind
  · rintro ⟨x, hx⟩
    obtain ⟨hmem, hname⟩ := get?_eq_some_iff.1 hx
    exact List.mem_map.2 ⟨_, List.mem_filter.2 ⟨hmem, rfl⟩, hname⟩

theorem Registry.nodup_projectNames (r : Registry) : r.projectNames.Nodup :=
  (List.filter_sublist.map Descriptor.name).nodup r.nodup_names

/-- Every descriptor is that of a project or that of a composite. -/
theorem length_filter_project (ds : List Descriptor) :
    (ds.filter fun d => d.kind = .project).length + (ds.filterMap Descriptor.composite?).length =
      ds.length := by
  induction ds with
  | nil => rfl
  | cons d ds ih =>
      cases d with
      | project x =>
          rw [List.filter_cons_of_pos rfl, List.filterMap_cons_none rfl, List.length_cons,
            List.length_cons]
          omega
      | composite c =>
          have hc : (Descriptor.composite c).composite? = some c := rfl
          rw [List.filter_cons_of_neg (by simp [Descriptor.kind]), List.filterMap_cons_some hc,
            List.length_cons, List.length_cons]
          omega

theorem Registry.length_projectNames (r : Registry) :
    r.projectNames.length = r.size - r.composites.length := by
  have hlength := length_filter_project r.toList
  have hsize : r.toList.length = r.size := Array.length_toList
  unfold projectNames composites
  rw [List.length_map]
  omega

/-- A plan of just the declared projects is as long as there are projects. -/
theorem size_of_targets (h : ∀ n, n ∈ p.targets ↔ ∃ x, r.get? n = some (.project x)) :
    p.size = r.size - r.composites.length := by
  have hperm : p.targets.Perm r.projectNames :=
    (List.perm_ext_iff_of_nodup p.nodup_targets r.nodup_projectNames).2 fun n =>
      (h n).trans Registry.mem_projectNames_iff.symm
  have hlength : p.targets.length = p.size := List.length_map Step.target
  rw [← hlength, hperm.length_eq, Registry.length_projectNames]

end BuildPlan
