import BuildPlan.Proofs.Plan
import BuildPlan.Proofs.Resolve.Refinement

/-! # Roots one after the other

The roots of a resolution are expanded in their order, each on top of what is resolved already
(`Registry.postorder_append`).  So an error of the first roots is final, further roots only append
steps to the plan of the first ones (`exists_resolve_of_append`), and a root in reach of earlier
ones changes nothing.  The main statement is `resolve_append`. -/

namespace BuildPlan

/-! ### Plans that start with another plan -/

namespace Plan

variable {p q : Plan} {n : TargetName}

theorem targets_isPrefix (h : q.steps <+: p.steps) : q.targets <+: p.targets :=
  h.map Step.target

/-- The steps that a plan starts with are those of the targets it starts with. -/
theorem mem_steps_iff_of_isPrefix (h : q.steps <+: p.steps) {s : Step} :
    s ∈ q.steps ↔ s ∈ p.steps ∧ s.target ∈ q.targets := by
  constructor
  · intro hs
    exact ⟨h.subset hs, List.mem_map_of_mem hs⟩
  · rintro ⟨hs, htarget⟩
    obtain ⟨t, ht, heq⟩ := List.mem_map.1 htarget
    obtain rfl : t = s := List.inj_on_of_nodup_map p.nodup_targets (h.subset ht) hs heq
    exact ht

theorem dependencies_of_isPrefix (h : q.steps <+: p.steps) (hn : n ∈ q.targets) :
    q.dependencies n = p.dependencies n := by
  obtain ⟨s, hs, rfl⟩ := List.mem_map.1 hn
  rw [dependencies_of_mem_steps hs, dependencies_of_mem_steps (h.subset hs)]

/-- The table of a plan that another one starts with is the other table, restricted to its
targets. -/
theorem table_of_isPrefix (h : q.steps <+: p.steps) :
    q.table = p.table.filter fun s => q.contains s.target := by
  symm
  apply eq_table_of_pairwise
  · have hsub : ((p.table.filter fun s => q.contains s.target).map Step.target).Sublist
        (p.table.map Step.target) := List.filter_sublist.map Step.target
    exact p.pairwise_table.sublist hsub
  · intro s
    rw [List.mem_filter, mem_table, contains_iff, mem_steps_iff_of_isPrefix h]

end Plan

/-! ### More roots -/

namespace Registry

variable {r : Registry}

theorem stepsOf_isPrefix {earlier resolved : List TargetName} (h : earlier <:+ resolved) :
    r.stepsOf earlier <+: r.stepsOf resolved := by
  have hsuffix : earlier.filterMap r.step? <:+ resolved.filterMap r.step? := h.filterMap r.step?
  unfold stepsOf
  rw [List.reverse_prefix]
  exact hsuffix

end Registry

variable {r : Registry} {xs ys : List TargetName} {p q : Plan} {n : TargetName}

theorem resolve_append_of_error {e : PlanError} (h : resolve r xs = .error e) :
    resolve r (xs ++ ys) = .error e := by
  have hxs : r.postorder [] xs [] = .error e := resolve_eq_error_iff.1 h
  rw [resolve_eq_error_iff, Registry.postorder_append, hxs]
  rfl

/-- The plan of some roots starts with the plan of the first of them. -/
theorem exists_resolve_of_append (hp : resolve r (xs ++ ys) = .ok p) :
    ∃ q, resolve r xs = .ok q ∧ q.steps <+: p.steps := by
  obtain ⟨resolved, h, hsteps⟩ := resolve_eq_ok_iff.1 hp
  rw [Registry.postorder_append] at h
  cases hxs : r.postorder [] xs [] with
  | error e =>
      rw [hxs] at h
      cases h
  | ok earlier =>
      rw [hxs] at h
      obtain ⟨q, hq, hqsteps⟩ := exists_resolve_of_postorder hxs
      have hsuffix : earlier <:+ resolved := Registry.suffix_postorder h
      refine ⟨q, hq, ?_⟩
      rw [hqsteps, hsteps]
      exact Registry.stepsOf_isPrefix hsuffix

/-- A root in reach of earlier roots is resolved when its turn comes. -/
theorem postorder_insert_reachable {resolved : List TargetName}
    (hxs : r.postorder [] xs [] = .ok resolved) (hn : r.Reachable xs n) :
    r.postorder [] (xs ++ [n] ++ ys) [] = r.postorder [] (xs ++ ys) [] := by
  have hmem : n ∈ resolved := (Registry.mem_postorder_iff hxs).2 hn
  rw [List.append_assoc, Registry.postorder_append, Registry.postorder_append, hxs]
  exact Registry.postorder_of_mem hmem

theorem resolve_insert_reachable (hq : resolve r xs = .ok q) (hn : r.Reachable xs n) :
    resolve r (xs ++ [n] ++ ys) = resolve r (xs ++ ys) := by
  obtain ⟨resolved, hxs, -⟩ := resolve_eq_ok_iff.1 hq
  apply resolve_eq_of_expand_eq
  unfold Registry.expand
  rw [postorder_insert_reachable hxs hn]

/-- If the first roots have no plan, neither have more roots, with the same error.  If all roots
have a plan, it starts with the targets of a plan of the first ones, and the dependencies of these
are the same.  A root that earlier roots lead to makes no difference to the plan, or the error, of
any roots behind it. -/
theorem resolve_append (r : Registry) (xs ys : List TargetName) :
    (∀ e, resolve r xs = .error e → resolve r (xs ++ ys) = .error e) ∧
    (∀ p, resolve r (xs ++ ys) = .ok p →
      ∃ q, resolve r xs = .ok q ∧ q.targets <+: p.targets ∧
        q.table = (p.table.filter fun s => q.contains s.target) ∧
        ∀ n ∈ q.targets, q.dependencies n = p.dependencies n) ∧
    ∀ q n, resolve r xs = .ok q → r.Reachable xs n →
      resolve r (xs ++ [n] ++ ys) = resolve r (xs ++ ys) := by
  refine ⟨fun e h => resolve_append_of_error h, fun p hp => ?_,
    fun q n hq hn => resolve_insert_reachable hq hn⟩
  obtain ⟨q, hq, hprefix⟩ := exists_resolve_of_append hp
  exact ⟨q, hq, Plan.targets_isPrefix hprefix, Plan.table_of_isPrefix hprefix,
    fun n hn => Plan.dependencies_of_isPrefix hprefix hn⟩

/-- `tool` starts the plan of both roots, and as a root behind them its requirement `base`, a
composite, adds nothing; nor does it where a later root fails. -/
theorem resolve_append_workspace :
    ∃ p q, resolve Registry.workspace [⟨"tool"⟩, ⟨"app"⟩] = .ok p ∧
      resolve Registry.workspace [⟨"tool"⟩] = .ok q ∧ q.targets <+: p.targets ∧
      resolve Registry.workspace [⟨"tool"⟩, ⟨"base"⟩, ⟨"app"⟩] = .ok p ∧
      resolve Registry.workspace [⟨"tool"⟩, ⟨"base"⟩, ⟨"ghost"⟩] =
        resolve Registry.workspace [⟨"tool"⟩, ⟨"ghost"⟩] ∧
      resolve Registry.workspace [⟨"tool"⟩, ⟨"ghost"⟩, ⟨"app"⟩] =
        .error (.unknownTarget ⟨"ghost"⟩ none) := by
  let p := (resolve Registry.workspace [⟨"tool"⟩, ⟨"app"⟩]).toOption.getD .empty
  have hp : resolve Registry.workspace [⟨"tool"⟩, ⟨"app"⟩] = .ok p := by decide +kernel
  have hghost : resolve Registry.workspace [⟨"tool"⟩, ⟨"ghost"⟩] =
      .error (.unknownTarget ⟨"ghost"⟩ none) := by decide +kernel
  have hbase : Registry.workspace.Reachable [⟨"tool"⟩] ⟨"base"⟩ :=
    (Registry.Reachable.of_mem List.mem_cons_self).tail (by decide +kernel)
  obtain ⟨-, hok, happ⟩ := resolve_append Registry.workspace [⟨"tool"⟩] [⟨"app"⟩]
  obtain ⟨q, hq, hprefix, -, -⟩ := hok p hp
  refine ⟨p, q, hp, hq, hprefix, (happ q _ hq hbase).trans hp, ?_, ?_⟩
  · exact (resolve_append Registry.workspace [⟨"tool"⟩] [⟨"ghost"⟩]).2.2 q _ hq hbase
  · exact (resolve_append Registry.workspace [⟨"tool"⟩, ⟨"ghost"⟩] [⟨"app"⟩]).1 _ hghost

end BuildPlan
