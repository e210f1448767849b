import BuildPlan.Proofs.Resolve.Dependence
import BuildPlan.Proofs.Resolve.Incremental
import BuildPlan.Proofs.Waves

/-! # Schedules as roots

A plan may be built in any order that respects its dependencies (`Plan.IsSchedule`): the order of
the plan itself is one, its waves one after the other are another.  With the targets of a schedule
as roots, resolution keeps their order (`resolve_schedule`), although it walks all composites
between them again.

The roots are added one by one.  Those added so far lead to no project but themselves, since
dependencies lead to all that is required (`transGen_dependsOn_iff`) and stand before what depends
on them.  So the plan of these roots holds just these roots, and the next one is appended to it
(`targets_eq_of_respects`). -/

namespace BuildPlan

open Relation (TransGen)

namespace Plan

variable {p : Plan} {ns : List TargetName} {m n d : TargetName}

/-! ### Orders that respect dependencies -/

/-- Every name of the list stands behind its dependencies. -/
def Respects (p : Plan) (ns : List TargetName) : Prop :=
  ∀ before n after, ns = before ++ n :: after → ∀ d ∈ p.dependencies n, d ∈ before

/-- An order in which a single worker may build all targets of a plan. -/
structure IsSchedule (p : Plan) (order : List TargetName) : Prop where
  perm_targets : order.Perm p.targets
  respects : p.Respects order

/-- What stands before an entry are the names up to its index. -/
theorem respects_iff : p.Respects ns ↔
    ∀ i : Fin ns.length, ∀ d ∈ p.dependencies ns[i], d ∈ ns.take i := by
  constructor
  · intro h i
    apply h (ns.take i) ns[i] (ns.drop (i + 1))
    simp
  · rintro h before n after rfl d hd
    have hi : before.length < (before ++ n :: after).length := by simp
    simpa using h ⟨before.length, hi⟩ d (by simpa using hd)

instance (p : Plan) (ns : List TargetName) : Decidable (p.Respects ns) :=
  decidable_of_iff _ respects_iff.symm

instance (p : Plan) (order : List TargetName) : Decidable (p.IsSchedule order) :=
  decidable_of_iff (order.Perm p.targets ∧ p.Respects order)
    ⟨fun ⟨hperm, hrespects⟩ => ⟨hperm, hrespects⟩, fun h => ⟨h.perm_targets, h.respects⟩⟩

theorem Ordered.isSchedule (hp : p.Ordered) : p.IsSchedule p.targets :=
  ⟨.refl p.targets, hp⟩

theorem Respects.of_append {later : List TargetName} (h : p.Respects (ns ++ later)) :
    p.Respects ns := by
  intro before n after hns
  apply h before n (after ++ later)
  simp [hns]

theorem Respects.mem_of_dependsOn (h : p.Respects ns) (hn : n ∈ ns) (hd : p.DependsOn n d) :
    d ∈ ns := by
  obtain ⟨before, after, rfl⟩ := List.append_of_mem hn
  exact List.mem_append_left _ (h before n after rfl d hd)

theorem Respects.mem_of_transGen (h : p.Respects ns) (hn : n ∈ ns)
    (hnd : TransGen p.DependsOn n d) : d ∈ ns := by
  induction hnd with
  | single hd => exact h.mem_of_dependsOn hn hd
  | tail _ hd ih => exact h.mem_of_dependsOn ih hd

/-! ### The waves, one after the other -/

theorem pairwise_flatten_waves (p : Plan) :
    p.waves.flatten.Pairwise fun m n => p.level m ≤ p.level n := by
  rw [List.pairwise_flatten]
  constructor
  · intro w hw
    obtain ⟨k, -, rfl⟩ := exists_eq_filter_of_mem_waves hw
    have hlevel : ∀ n ∈ p.targets.filter fun n => p.level n = k, p.level n = k := by simp
    refine List.pairwise_of_forall_mem_list fun m hm n hn => ?_
    rw [hlevel m hm, hlevel n hn]
  · rw [List.pairwise_iff_getElem]
    intro i j hi hj hij m hm n hn
    have hlevel := (mem_wave_iff (List.getElem?_eq_getElem hi)).1 hm
    have hlevel' := (mem_wave_iff (List.getElem?_eq_getElem hj)).1 hn
    omega

/-- A dependency has a smaller level, so it stands in an earlier wave. -/
theorem Ordered.respects_flatten_waves (hp : p.Ordered) : p.Respects p.waves.flatten := by
  intro before n after hsplit d hd
  have hmem : ∀ m, m ∈ before ++ n :: after ↔ m ∈ p.targets := by
    intro m
    rw [← hsplit]
    exact p.perm_flatten_waves.mem_iff
  have hn : n ∈ p.targets := (hmem n).1 (by simp)
  have hlt : p.level d < p.level n := level_lt hp hn hd
  have hpairwise := p.pairwise_flatten_waves
  rw [hsplit, List.pairwise_append, List.pairwise_cons] at hpairwise
  have hafter : ∀ m ∈ after, p.level n ≤ p.level m := hpairwise.2.1.1
  rcases List.mem_append.1 ((hmem d).2 (hp.mem_targets hn hd)) with hbefore | hrest
  · exact hbefore
  · rcases List.mem_cons.1 hrest with rfl | hrest
    · exact absurd hlt (Nat.lt_irrefl _)
    · exact absurd (hafter d hrest) (Nat.not_le.2 hlt)

theorem Ordered.isSchedule_flatten_waves (hp : p.Ordered) : p.IsSchedule p.waves.flatten :=
  ⟨p.perm_flatten_waves, hp.respects_flatten_waves⟩

end Plan

/-! ### Roots that are targets of a plan -/

variable {r : Registry} {roots roots' ns : List TargetName} {p q : Plan} {n : TargetName}

/-- What is in reach of roots that have a plan has a plan. -/
theorem exists_resolve_of_reachable (hp : resolve r roots = .ok p)
    (hns : ∀ n ∈ ns, r.Reachable roots n) : ∃ q, resolve r ns = .ok q := by
  have hgood := Registry.exists_postorder_iff.1 (exists_resolve_iff.1 ⟨p, hp⟩)
  rw [exists_resolve_iff, Registry.exists_postorder_iff]
  rintro n ⟨m, hm, hmn⟩
  obtain ⟨k, hk, hkm⟩ := hns m hm
  exact hgood n ⟨k, hk, hkm.trans hmn⟩

theorem exists_resolve_of_subset (hp : resolve r roots = .ok p) (hns : ns ⊆ p.targets) :
    ∃ q, resolve r ns = .ok q :=
  exists_resolve_of_reachable hp fun _ hn => ((mem_targets_iff hp).1 (hns hn)).1

/-- Targets that come with their dependencies lead to no other project. -/
theorem mem_targets_iff_of_respects (hp : resolve r roots = .ok p) (hns : ns ⊆ p.targets)
    (hrespects : p.Respects ns) (hq : resolve r ns = .ok q) : n ∈ q.targets ↔ n ∈ ns := by
  rw [mem_targets_iff hq]
  constructor
  · rintro ⟨⟨m, hm, hmn⟩, hproject⟩
    rcases Relation.reflTransGen_iff_eq_or_transGen.1 hmn with rfl | hmn
    · exact hm
    · have hdeps : TransGen p.DependsOn m n :=
        (transGen_dependsOn_iff hp (hns hm)).2 ⟨hmn, hproject⟩
      exact hrespects.mem_of_transGen hm hdeps
  · intro hn
    exact ⟨.of_mem hn, ((mem_targets_iff hp).1 (hns hn)).2⟩

theorem perm_targets_of_respects (hp : resolve r roots = .ok p) (hnodup : ns.Nodup)
    (hns : ns ⊆ p.targets) (hrespects : p.Respects ns) (hq : resolve r ns = .ok q) :
    q.targets.Perm ns := by
  apply (List.perm_ext_iff_of_nodup q.nodup_targets hnodup).2
  intro n
  exact mem_targets_iff_of_respects hp hns hrespects hq

/-- Targets that stand behind their dependencies keep their order when they are the roots. -/
theorem targets_eq_of_respects (hp : resolve r roots = .ok p) (hnodup : ns.Nodup)
    (hns : ns ⊆ p.targets) (hrespects : p.Respects ns) (hq : resolve r ns = .ok q) :
    q.targets = ns := by
  induction ns using List.reverseRecOn generalizing q with
  | nil => exact (perm_targets_of_respects hp hnodup hns hrespects hq).eq_nil
  | append_singleton ns n ih =>
      have hperm : q.targets.Perm (ns ++ [n]) :=
        perm_targets_of_respects hp hnodup hns hrespects hq
      obtain ⟨q', hq', hprefix⟩ := exists_resolve_of_append hq
      have hnodup' : ns.Nodup := (List.nodup_append.1 hnodup).1
      have hns' : ns ⊆ p.targets := (List.append_subset.1 hns).1
      have htargets : q'.targets = ns := ih hnodup' hns' hrespects.of_append hq'
      -- The plan of all these roots starts with `ns`, and only `n` is left to come behind.
      obtain ⟨rest, hrest⟩ := Plan.targets_isPrefix hprefix
      rw [htargets] at hrest
      rw [← hrest] at hperm ⊢
      have hlast : rest = [n] := ((List.perm_append_left_iff ns).1 hperm).eq_singleton
      rw [hlast]

/-! ### Plans with the same targets -/

theorem table_eq_of_perm_targets (hp : resolve r roots = .ok p) (hq : resolve r roots' = .ok q)
    (hperm : q.targets.Perm p.targets) : q.table = p.table := by
  apply Plan.table_eq_of_mem_steps_iff
  intro s
  rw [Plan.mem_steps_iff, Plan.mem_steps_iff, hperm.mem_iff]
  refine and_congr_right fun hs => ?_
  rw [dependencies_eq_of_resolve hp hq hs (hperm.mem_iff.2 hs)]

theorem eq_of_targets_eq (hp : resolve r roots = .ok p) (hq : resolve r roots' = .ok q)
    (htargets : q.targets = p.targets) : q = p := by
  have hdeps : ∀ n ∈ p.targets, (⟨n, q.dependencies n⟩ : Step) = ⟨n, p.dependencies n⟩ := by
    intro n hn
    rw [dependencies_eq_of_resolve hp hq hn (htargets ▸ hn)]
  apply Plan.eq_of_steps_eq
  rw [← q.map_targets, ← p.map_targets, htargets, List.map_congr_left hdeps]

theorem exists_resolve_of_isSchedule (hp : resolve r roots = .ok p) {order : List TargetName}
    (horder : p.IsSchedule order) :
    ∃ q, resolve r order = .ok q ∧ q.targets = order ∧ q.table = p.table := by
  have hsub : order ⊆ p.targets := horder.perm_targets.subset
  have hnodup : order.Nodup := horder.perm_targets.nodup_iff.2 p.nodup_targets
  obtain ⟨q, hq⟩ := exists_resolve_of_subset hp hsub
  have htargets : q.targets = order := targets_eq_of_respects hp hnodup hsub horder.respects hq
  refine ⟨q, hq, htargets, table_eq_of_perm_targets hp hq ?_⟩
  rw [htargets]
  exact horder.perm_targets

/-- With the targets of a plan as roots, in any order that respects the dependencies, resolution
has a plan with these targets in this order and the same dependencies.  In their own order it is
the plan itself, and the waves one after the other are such an order. -/
theorem resolve_schedule (hp : resolve r roots = .ok p) :
    (∀ order, p.IsSchedule order →
      ∃ q, resolve r order = .ok q ∧ q.targets = order ∧ q.table = p.table) ∧
    resolve r p.targets = .ok p ∧
    ∃ q, resolve r p.waves.flatten = .ok q ∧ q.targets = p.waves.flatten ∧ q.table = p.table := by
  have hordered : p.Ordered := ordered_of_resolve hp
  refine ⟨fun order horder => exists_resolve_of_isSchedule hp horder, ?_,
    exists_resolve_of_isSchedule hp hordered.isSchedule_flatten_waves⟩
  obtain ⟨q, hq, htargets, -⟩ := exists_resolve_of_isSchedule hp hordered.isSchedule
  rw [hq, eq_of_targets_eq hp hq htargets]

/-- `tool` is built as soon as `core` and `util` are, though the plan has it last. -/
theorem resolve_schedule_workspace :
    ∃ p q, resolve Registry.workspace [⟨"all"⟩] = .ok p ∧
      p.IsSchedule [⟨"core"⟩, ⟨"util"⟩, ⟨"tool"⟩, ⟨"net"⟩, ⟨"app"⟩] ∧
      resolve Registry.workspace [⟨"core"⟩, ⟨"util"⟩, ⟨"tool"⟩, ⟨"net"⟩, ⟨"app"⟩] = .ok q ∧
      q.targets = [⟨"core"⟩, ⟨"util"⟩, ⟨"tool"⟩, ⟨"net"⟩, ⟨"app"⟩] ∧ q.table = p.table := by
  let p := (resolve Registry.workspace [⟨"all"⟩]).toOption.getD .empty
  have hp : resolve Registry.workspace [⟨"all"⟩] = .ok p := by decide +kernel
  have horder : p.IsSchedule [⟨"core"⟩, ⟨"util"⟩, ⟨"tool"⟩, ⟨"net"⟩, ⟨"app"⟩] := by
    decide +kernel
  obtain ⟨q, hq, htargets, htable⟩ := (resolve_schedule hp).1 _ horder
  exact ⟨p, q, hp, horder, hq, htargets, htable⟩

end BuildPlan
