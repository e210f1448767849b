import BuildPlan.Proofs.Resolve.Order

/-! # The dependencies of a target

The walk of `resolve` computes the dependencies of a target from the leaves that it remembers of
every name left before.  They are nevertheless a matter of the registry alone: the leaves behind
the requirements, with every composite expanded in place and repeats dropped at each level
(`dependencies_eq_flattening`).  Whichever roots led to a target, and in whichever order, its
dependencies are the same. -/

namespace BuildPlan

variable {r : Registry} {roots : List TargetName} {p : Plan}

/-- In reach of the roots a composite stands for the leaves of what it lists. -/
theorem leaves_composite_of_resolve (hp : resolve r roots = .ok p) {n : TargetName}
    {c : Composite} (hn : r.Reachable roots n) (hc : r.get? n = some (.composite c)) :
    r.leaves n = (c.required.flatMap r.leaves).eraseDups := by
  obtain ⟨resolved, h, _⟩ := resolve_eq_ok_iff.1 hp
  have hmem : n ∈ resolved := (Registry.mem_postorder_iff h).2 hn
  exact (Registry.postordered_of_postorder h).leaves_composite hmem hc

theorem dependencies_eq_of_resolve {roots' : List TargetName} {p' : Plan} {n : TargetName}
    (hp : resolve r roots = .ok p) (hp' : resolve r roots' = .ok p') (hn : n ∈ p.targets)
    (hn' : n ∈ p'.targets) : p'.dependencies n = p.dependencies n := by
  obtain ⟨q, hq, hdeps⟩ := exists_project_of_mem_targets hp hn
  obtain ⟨q', hq', hdeps'⟩ := exists_project_of_mem_targets hp' hn'
  rw [hq] at hq'
  cases hq'
  rw [hdeps, hdeps']

/-- The leaves of a project are the project, those of a composite in reach are the leaves of the
names it lists, in the order listed, each at its first occurrence.  The dependencies of a target
are the leaves of its requirements, by name, each at its first occurrence: they have no repeats,
and every plan of the registry that holds the target has the same. -/
theorem dependencies_eq_flattening (hp : resolve r roots = .ok p) :
    (∀ n q, r.get? n = some (.project q) → r.leaves n = [n]) ∧
    (∀ n c, r.Reachable roots n → r.get? n = some (.composite c) →
      r.leaves n = (c.required.flatMap r.leaves).eraseDups) ∧
    ∀ n ∈ p.targets,
      (∃ q, r.get? n = some (.project q) ∧
        p.dependencies n = (q.requires.names.flatMap r.leaves).eraseDups) ∧
      (p.dependencies n).Nodup ∧
      ∀ roots' p', resolve r roots' = .ok p' → n ∈ p'.targets →
        p'.dependencies n = p.dependencies n := by
  refine ⟨fun n q hq => Registry.leaves_project hq,
    fun n c hn hc => leaves_composite_of_resolve hp hn hc, fun n hn => ?_⟩
  obtain ⟨q, hq, hdeps⟩ := exists_project_of_mem_targets hp hn
  refine ⟨⟨q, hq, hdeps⟩, ?_, fun roots' p' hp' hn' => dependencies_eq_of_resolve hp hp' hn hn'⟩
  rw [hdeps]
  exact Registry.nodup_leavesOf _

/-- `app` requires `net` and the composite `libs`, which lists `net` last: the leaf comes where
`libs` puts it. -/
theorem dependencies_eq_flattening_workspace :
    ∃ p, resolve Registry.workspace [⟨"all"⟩] = .ok p ∧ ⟨"app"⟩ ∈ p.targets ∧
      p.dependencies ⟨"app"⟩ = [⟨"util"⟩, ⟨"core"⟩, ⟨"net"⟩] := by
  obtain ⟨p, hp, htargets⟩ := exists_resolve_workspace
  have happ : ⟨"app"⟩ ∈ p.targets := by
    rw [htargets]
    decide
  obtain ⟨⟨q, hq, hdeps⟩, _, _⟩ := (dependencies_eq_flattening hp).2.2 ⟨"app"⟩ happ
  have hleaves : ((Registry.workspace.get? ⟨"app"⟩).map fun d =>
      (d.requirements.flatMap Registry.workspace.leaves).eraseDups) =
        some [⟨"util"⟩, ⟨"core"⟩, ⟨"net"⟩] := by decide +kernel
  rw [hq] at hleaves
  exact ⟨p, hp, happ, hdeps.trans (Option.some.inj hleaves)⟩

end BuildPlan
