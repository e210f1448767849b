import BuildPlan.Proofs.Resolve.Flattening

/-! # The closure of dependencies

The dependencies that a plan lists for a target are direct, with composites flattened.  Their
closure is the closure of requirements between projects (`transGen_dependsOn_iff`): listed
dependencies lead to all that a target requires through any number of projects and composites, and
to nothing else. -/

namespace BuildPlan

open Relation (ReflTransGen TransGen)

/-- The target `m` lists `n` among its dependencies. -/
def Plan.DependsOn (p : Plan) (m n : TargetName) : Prop := n ∈ p.dependencies m

variable {r : Registry} {roots : List TargetName} {p : Plan} {m n : TargetName}

/-- A target depends on the leaves that its requirements stand for. -/
theorem dependsOn_of_mem_leaves (hp : resolve r roots = .ok p) (hm : m ∈ p.targets)
    {k : TargetName} (hmk : r.Requires m k) (hn : n ∈ r.leaves k) : p.DependsOn m n := by
  obtain ⟨x, hx, hdeps⟩ := exists_project_of_mem_targets hp hm
  obtain ⟨d, hd, hk⟩ := hmk
  obtain rfl : d = .project x := Option.some.inj (hd.symm.trans hx)
  unfold Plan.DependsOn
  rw [hdeps]
  exact Registry.mem_leavesOf.2 ⟨k, hk, hn⟩

/-- A name stands for leaves from which dependencies lead to every project that it requires. -/
theorem exists_leaf_of_reflTransGen (hp : resolve r roots = .ok p) (hm : r.Reachable roots m)
    (hmn : ReflTransGen r.Requires m n) {q : Project} (hn : r.get? n = some (.project q)) :
    ∃ l ∈ r.leaves m, ReflTransGen p.DependsOn l n := by
  induction hmn using ReflTransGen.head_induction_on with
  | refl =>
      rw [Registry.leaves_project hn]
      exact ⟨n, List.mem_singleton_self n, .refl⟩
  | @head m k hmk _ ih =>
      obtain ⟨l, hl, hln⟩ := ih (hm.tail hmk)
      obtain ⟨d, hd, hk⟩ := hmk
      cases d with
      | project x =>
          have htarget : m ∈ p.targets := (mem_targets_iff hp).2 ⟨hm, x, hd⟩
          have hml : p.DependsOn m l := dependsOn_of_mem_leaves hp htarget ⟨_, hd, hk⟩ hl
          rw [Registry.leaves_project hd]
          exact ⟨m, List.mem_singleton_self m, hln.head hml⟩
      | composite c =>
          rw [leaves_composite_of_resolve hp hm hd]
          exact ⟨l, Registry.mem_leavesOf.2 ⟨k, hk, hl⟩, hln⟩

/-- Listed dependencies lead from a target to just the projects that it requires, through any
number of projects and composites. -/
theorem transGen_dependsOn_iff (hp : resolve r roots = .ok p) (hm : m ∈ p.targets) :
    TransGen p.DependsOn m n ↔
      TransGen r.Requires m n ∧ ∃ q, r.get? n = some (.project q) := by
  constructor
  · intro hmn
    induction hmn with
    | single h => exact transGen_of_mem_dependencies hp hm h
    | tail _ h ih =>
        obtain ⟨hmk, q, hk⟩ := ih
        have hktarget := (exists_position?_lt_of_transGen hp hm hmk hk).1
        obtain ⟨hkn, hproject⟩ := transGen_of_mem_dependencies hp hktarget h
        exact ⟨hmk.trans hkn, hproject⟩
  · rintro ⟨hmn, q, hn⟩
    obtain ⟨k, hmk, hkn⟩ := TransGen.head'_iff.1 hmn
    have hreach : r.Reachable roots k := ((mem_targets_iff hp).1 hm).1.tail hmk
    obtain ⟨l, hl, hln⟩ := exists_leaf_of_reflTransGen hp hreach hkn hn
    exact .head' (dependsOn_of_mem_leaves hp hm hmk hl) hln

end BuildPlan
