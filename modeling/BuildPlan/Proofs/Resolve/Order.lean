import BuildPlan.Proofs.Resolve.Closure

/-! # The order of a resolved plan

Names are resolved after all that they require, composites included, and the steps of a plan keep
that order.  So whatever a target requires, through any number of projects and composites, is
built before it (`exists_position?_lt_of_transGen`); the dependencies of a target are a special
case.  The main statement is `resolve_ordered`. -/

namespace BuildPlan

open Relation (TransGen)

variable {r : Registry} {roots : List TargetName} {p : Plan}

theorem dependencies_of_steps {resolved : List TargetName} (h : p.steps = r.stepsOf resolved)
    {n : TargetName} {q : Project} (hn : n ∈ resolved) (hq : r.get? n = some (.project q)) :
    p.dependencies n = r.leavesOf q.requires.names := by
  have hmem : (⟨n, r.leavesOf q.requires.names⟩ : Step) ∈ p.steps := by
    rw [h]
    exact Registry.mem_stepsOf_iff.2 ⟨hn, q, hq, rfl⟩
  exact Plan.dependencies_of_mem_steps hmem

/-- A target of a resolved plan is a project, and depends on the leaves behind what it requires. -/
theorem exists_project_of_mem_targets (hp : resolve r roots = .ok p) {n : TargetName}
    (hn : n ∈ p.targets) :
    ∃ q, r.get? n = some (.project q) ∧ p.dependencies n = r.leavesOf q.requires.names := by
  obtain ⟨resolved, _, hsteps⟩ := resolve_eq_ok_iff.1 hp
  obtain ⟨hmem, q, hq⟩ := (mem_targets_iff_of_steps hsteps).1 hn
  exact ⟨q, hq, dependencies_of_steps hsteps hmem hq⟩

/-- A dependency is a project that a chain of requirements leads to. -/
theorem transGen_of_mem_dependencies (hp : resolve r roots = .ok p) {m n : TargetName}
    (hm : m ∈ p.targets) (hn : n ∈ p.dependencies m) :
    TransGen r.Requires m n ∧ ∃ q, r.get? n = some (.project q) := by
  obtain ⟨q, hq, hdeps⟩ := exists_project_of_mem_targets hp hm
  rw [hdeps, Registry.mem_leavesOf] at hn
  obtain ⟨k, hk, hnk⟩ := hn
  obtain ⟨hkn, hproject⟩ := Registry.reflTransGen_of_mem_leavesOff hnk
  exact ⟨.head' ⟨.project q, hq, hk⟩ hkn, hproject⟩

/-- Whatever a target requires, directly or not, is built before it. -/
theorem exists_position?_lt_of_transGen (hp : resolve r roots = .ok p) {m n : TargetName}
    {q : Project} (hm : m ∈ p.targets) (hmn : TransGen r.Requires m n)
    (hn : r.get? n = some (.project q)) :
    n ∈ p.targets ∧ ∃ i j, p.position? n = some i ∧ p.position? m = some j ∧ i < j := by
  obtain ⟨resolved, h, hsteps⟩ := resolve_eq_ok_iff.1 hp
  have hpost := Registry.postordered_of_postorder h
  obtain ⟨hmem, qm, hqm⟩ := (mem_targets_iff_of_steps hsteps).1 hm
  obtain ⟨later, earlier, hsplit, hrest⟩ := hpost.exists_suffix hmem
  have hnearlier : n ∈ earlier := hrest.mem_tail_of_transGen hmn
  have htargets : p.targets = (r.stepsOf earlier).map Step.target ++
      m :: (r.stepsOf later).map Step.target := by
    unfold Plan.targets
    rw [hsteps, hsplit, Registry.stepsOf_append_project hqm, List.map_append, List.map_cons]
  have hbefore : n ∈ (r.stepsOf earlier).map Step.target :=
    Registry.mem_targets_stepsOf_iff.2 ⟨hnearlier, q, hn⟩
  refine ⟨?_, Plan.exists_position?_lt htargets hbefore⟩
  rw [htargets]
  exact List.mem_append_left _ hbefore

theorem ordered_of_resolve (hp : resolve r roots = .ok p) : p.Ordered := by
  intro before m after hsplit n hn
  have hm : m ∈ p.targets := by
    rw [hsplit]
    exact List.mem_append_right _ List.mem_cons_self
  obtain ⟨hmn, q, hq⟩ := transGen_of_mem_dependencies hp hm hn
  obtain ⟨-, i, j, hi, hj, hij⟩ := exists_position?_lt_of_transGen hp hm hmn hq
  exact Plan.mem_of_position?_lt hsplit hi hj hij

/-- In a resolved plan every project that a target requires, through any number of projects and
composites, is a target with a smaller position.  The table by name has one entry for every
target, so a name is contained exactly if it has a position, and the dependencies of a target
stand before it. -/
theorem resolve_ordered (hp : resolve r roots = .ok p) :
    (∀ m ∈ p.targets, ∀ n q, TransGen r.Requires m n → r.get? n = some (.project q) →
      n ∈ p.targets ∧ ∃ i j, p.position? n = some i ∧ p.position? m = some j ∧ i < j) ∧
    ((p.table.map Step.target).Pairwise (· < ·) ∧
      (∀ n, n ∈ p.table.map Step.target ↔ n ∈ p.targets) ∧
      ∀ s ∈ p.table, s.dependencies = p.dependencies s.target) ∧
    (∀ n, p.contains n = (p.position? n).isSome) ∧
    ∀ m ∈ p.targets, ∀ n ∈ p.dependencies m,
      ∃ i j, p.position? n = some i ∧ p.position? m = some j ∧ i < j := by
  refine ⟨fun m hm n q hmn hn => exists_position?_lt_of_transGen hp hm hmn hn,
    ⟨p.pairwise_table, fun n => Plan.mem_table_targets, fun s hs => ?_⟩,
    p.contains_eq_isSome_position?, fun m hm n hn => ?_⟩
  · exact (Plan.dependencies_of_mem_steps (Plan.mem_table.1 hs)).symm
  · obtain ⟨hmn, q, hq⟩ := transGen_of_mem_dependencies hp hm hn
    exact (exists_position?_lt_of_transGen hp hm hmn hq).2

/-- The chain from `app` to `core` passes two composites, which have no position. -/
theorem resolve_ordered_workspace :
    ∃ p i j, resolve Registry.workspace [⟨"all"⟩] = .ok p ∧
      p.position? ⟨"core"⟩ = some i ∧ p.position? ⟨"app"⟩ = some j ∧ i < j := by
  obtain ⟨p, hp, htargets⟩ := exists_resolve_workspace
  have happ : ⟨"app"⟩ ∈ p.targets := by
    rw [htargets]
    decide
  have hlibs : Registry.workspace.Requires ⟨"app"⟩ ⟨"libs"⟩ := by decide +kernel
  have hbase : Registry.workspace.Requires ⟨"libs"⟩ ⟨"base"⟩ := by decide +kernel
  have hcore : Registry.workspace.Requires ⟨"base"⟩ ⟨"core"⟩ := by decide +kernel
  have hproject : Registry.workspace.get? ⟨"core"⟩ = some (.project (.leaf ⟨"core"⟩)) := by
    decide +kernel
  obtain ⟨-, i, j, hi, hj, hij⟩ := (resolve_ordered hp).1 ⟨"app"⟩ happ ⟨"core"⟩ _
    (((TransGen.single hlibs).tail hbase).tail hcore) hproject
  exact ⟨p, i, j, hp, hi, hj, hij⟩

end BuildPlan
