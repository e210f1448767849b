import Mathlib.Algebra.Ring.Nat
import Mathlib.Data.List.Nodup
import BuildPlan.Proofs.Graph
import BuildPlan.Proofs.Resolve.Flattening

/-! # The targets that depend on a name

The dependents of a name are read off the graph of a plan, in which a target has an edge for every
time that it lists another one (`Plan.dependents_eq_flatMap`).  In a resolved plan dependencies are
listed once and are targets themselves, so no edge is missing or doubled: the dependents of a name
are the targets that list it, in build order (`dependents_eq_filter`), and there are as many edges
as listed dependencies.  The main statement is `resolve_dependents`. -/

namespace BuildPlan

namespace Plan

variable {p : Plan} {n : TargetName} {i : Nat}

/-! ### Edges -/

theorem position?_eq_some_iff_of (hi : p.position? n = some i) {m : TargetName} :
    p.position? m = some i ↔ m = n := by
  constructor
  · intro hm
    obtain ⟨_, hget, -⟩ := List.idxOf?_eq_some_iff.1 hi
    obtain ⟨_, hget', -⟩ := List.idxOf?_eq_some_iff.1 hm
    exact hget'.symm.trans hget
  · rintro rfl
    exact hi

/-- A list of names leads to a node once for every time that it has the name of the node. -/
theorem count_filterMap_position? (hi : p.position? n = some i) (ds : List TargetName) :
    (ds.filterMap p.position?).count i = ds.count n := by
  rw [List.count_filterMap, List.count]
  refine List.countP_congr fun d _ => ?_
  rw [beq_iff_eq, beq_iff_eq]
  exact position?_eq_some_iff_of hi

theorem findIdx?_nodes (p : Plan) (n : TargetName) :
    ((Graph.ofPlan p).nodes.findIdx? fun v => v.target == n) = p.position? n := by
  rw [Graph.nodes_ofPlan, position?, targets, List.idxOf?, List.findIdx?_map, List.findIdx?_map]
  rfl

/-- A name outside the plan has no node, hence no edges. -/
theorem dependents_of_not_mem (hn : n ∉ p.targets) : p.dependents n = [] := by
  have hnone : p.position? n = none := List.idxOf?_eq_none_iff.2 hn
  unfold dependents Graph.dependents
  rw [findIdx?_nodes, hnone]

/-- A target stands among the dependents of another one as often as it lists it. -/
theorem dependents_eq_flatMap (hn : n ∈ p.targets) :
    p.dependents n = p.targets.flatMap fun m => List.replicate ((p.dependencies m).count n) m := by
  obtain ⟨i, hi⟩ := Option.isSome_iff_exists.1 (isSome_position?.2 hn)
  have hstep : ∀ s ∈ p.steps,
      (((s.dependencies.filterMap p.position?).filter (· == i)).map fun _ => s.target) =
        List.replicate ((p.dependencies s.target).count n) s.target := by
    intro s hs
    rw [dependencies_of_mem_steps hs, List.map_const', List.filter_beq, List.length_replicate,
      count_filterMap_position? hi]
  unfold dependents Graph.dependents
  rw [findIdx?_nodes, hi]
  dsimp only
  rw [Graph.nodes_ofPlan, targets, List.flatMap_map, List.flatMap_map]
  exact List.flatMap_congr hstep

/-! ### Plans that list every dependency once -/

/-- If dependencies are listed once, the dependents of a name are the targets that list it. -/
theorem dependents_eq_filter_of_nodup (hp : ∀ m ∈ p.targets, (p.dependencies m).Nodup)
    (hn : n ∈ p.targets) :
    p.dependents n = p.targets.filter fun m => n ∈ p.dependencies m := by
  rw [dependents_eq_flatMap hn]
  generalize p.targets = ms at hp
  induction ms with
  | nil => rfl
  | cons m ms ih =>
      obtain ⟨hm, hms⟩ := List.forall_mem_cons.1 hp
      rw [List.flatMap_cons, ih hms, hm.count]
      by_cases hmem : n ∈ p.dependencies m
      · rw [if_pos hmem, List.filter_cons_of_pos (by simpa using hmem)]
        rfl
      · rw [if_neg hmem, List.filter_cons_of_neg (by simpa using hmem)]
        rfl

theorem nodeCount_ofPlan (p : Plan) : (Graph.ofPlan p).nodeCount = p.size := by
  rw [Graph.nodeCount, Graph.nodes_ofPlan, List.length_map, size]

/-- If dependencies are targets, every one that is listed has an edge. -/
theorem edgeCount_ofPlan (hp : ∀ m ∈ p.targets, ∀ d ∈ p.dependencies m, d ∈ p.targets) :
    (Graph.ofPlan p).edgeCount = (p.targets.map fun m => (p.dependencies m).length).sum := by
  have hstep : ∀ s ∈ p.steps, (s.dependencies.filterMap p.position?).length =
      (p.dependencies s.target).length := by
    intro s hs
    rw [dependencies_of_mem_steps hs, List.length_filterMap_eq_countP, List.countP_eq_length]
    intro d hd
    exact isSome_position?.2
      (hp s.target (List.mem_map_of_mem hs) d (dependencies_of_mem_steps hs ▸ hd))
  rw [Graph.edgeCount, Graph.nodes_ofPlan, List.flatMap_map, List.length_flatMap, targets,
    List.map_map]
  exact congrArg List.sum (List.map_congr_left hstep)

/-! ### Build order -/

/-- The targets stand at rising positions. -/
theorem pairwise_position? (p : Plan) :
    p.targets.Pairwise fun m n =>
      ∃ i j, p.position? m = some i ∧ p.position? n = some j ∧ i < j := by
  rw [List.pairwise_iff_getElem]
  intro i j hi hj hij
  exact ⟨i, j, position?_getElem hi, position?_getElem hj, hij⟩

end Plan

/-! ### Resolved plans -/

variable {r : Registry} {roots : List TargetName} {p : Plan} {n : TargetName}

theorem nodup_dependencies (hp : resolve r roots = .ok p) (hn : n ∈ p.targets) :
    (p.dependencies n).Nodup := by
  obtain ⟨q, _, hdeps⟩ := exists_project_of_mem_targets hp hn
  rw [hdeps]
  exact Registry.nodup_leavesOf _

/-- In a resolved plan the dependents of a name, whether it is a target or not, are the targets
that list it, in build order. -/
theorem dependents_eq_filter (hp : resolve r roots = .ok p) (n : TargetName) :
    p.dependents n = p.targets.filter fun m => n ∈ p.dependencies m := by
  by_cases hn : n ∈ p.targets
  · exact Plan.dependents_eq_filter_of_nodup (fun m hm => nodup_dependencies hp hm) hn
  · rw [Plan.dependents_of_not_mem hn, eq_comm, List.filter_eq_nil_iff]
    intro m hm hmem
    exact hn ((ordered_of_resolve hp).mem_targets hm (of_decide_eq_true hmem))

theorem mem_dependents_iff (hp : resolve r roots = .ok p) {m : TargetName} :
    m ∈ p.dependents n ↔ m ∈ p.targets ∧ n ∈ p.dependencies m := by
  rw [dependents_eq_filter hp, List.mem_filter, decide_eq_true_iff]

/-- The dependents of a name in a resolved plan are the targets that list it among their
dependencies, each once and in build order; composites and names outside the plan have none.  The
graph of the plan has a node for every target and an edge for every dependency that is listed. -/
theorem resolve_dependents (hp : resolve r roots = .ok p) :
    (∀ n, (p.dependents n).Nodup ∧
      ((p.dependents n).Pairwise fun a b =>
        ∃ i j, p.position? a = some i ∧ p.position? b = some j ∧ i < j) ∧
      ∀ m, m ∈ p.dependents n ↔ m ∈ p.targets ∧ n ∈ p.dependencies m) ∧
    (∀ n, n ∉ p.targets → p.dependents n = []) ∧
    (∀ n c, r.get? n = some (.composite c) → p.dependents n = []) ∧
    (Graph.ofPlan p).nodeCount = p.size ∧
    (Graph.ofPlan p).edgeCount = (p.targets.map fun m => (p.dependencies m).length).sum := by
  have hsublist : ∀ n, (p.dependents n).Sublist p.targets := by
    intro n
    rw [dependents_eq_filter hp]
    exact List.filter_sublist
  refine ⟨fun n => ⟨?_, ?_, fun m => mem_dependents_iff hp⟩,
    fun n hn => Plan.dependents_of_not_mem hn, fun n c hc => ?_, p.nodeCount_ofPlan, ?_⟩
  · exact p.nodup_targets.sublist (hsublist n)
  · exact p.pairwise_position?.sublist (hsublist n)
  · -- A composite is no target.
    refine Plan.dependents_of_not_mem fun hn => ?_
    obtain ⟨q, hq, -⟩ := exists_project_of_mem_targets hp hn
    rw [hc] at hq
    cases hq
  · exact Plan.edgeCount_ofPlan fun m hm d hd => (ordered_of_resolve hp).mem_targets hm hd

/-- `core` is listed by `net`, `app` and `tool`, though only `net` requires it by name; `base`, the
composite through which the others do, has no dependents. -/
theorem resolve_dependents_workspace :
    ∃ p, resolve Registry.workspace [⟨"all"⟩] = .ok p ∧
      p.dependents ⟨"core"⟩ = [⟨"net"⟩, ⟨"app"⟩, ⟨"tool"⟩] ∧ ⟨"core"⟩ ∈ p.dependencies ⟨"tool"⟩ ∧
      p.dependents ⟨"base"⟩ = [] ∧ (Graph.ofPlan p).edgeCount = 6 := by
  have hgraph : (resolve Registry.workspace [⟨"all"⟩]).toOption.map
      (fun p => (p.dependents ⟨"core"⟩, (Graph.ofPlan p).edgeCount)) =
        some ([⟨"net"⟩, ⟨"app"⟩, ⟨"tool"⟩], 6) := by decide +kernel
  have hbase : ∃ c, Registry.workspace.get? ⟨"base"⟩ = some (.composite c) := by
    refine ⟨⟨⟨"base"⟩, [⟨"core"⟩, ⟨"util"⟩], by decide, by decide⟩, ?_⟩
    decide +kernel
  obtain ⟨p, hp, -⟩ := exists_resolve_workspace
  rw [hp] at hgraph
  obtain ⟨hcore, hedges⟩ := Prod.mk.inj (Option.some.inj hgraph)
  obtain ⟨c, hc⟩ := hbase
  obtain ⟨hdependents, -, hcomposite, -, -⟩ := resolve_dependents hp
  refine ⟨p, hp, hcore, ?_, hcomposite _ c hc, hedges⟩
  exact (((hdependents ⟨"core"⟩).2.2 ⟨"tool"⟩).1 (by rw [hcore]; decide)).2

end BuildPlan
