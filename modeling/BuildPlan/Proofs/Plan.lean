import Mathlib.Data.List.Nodup
import BuildPlan.Plan

/-! # Reading a plan

What a plan says of a name: whether it is a target, where it stands and what it depends on.  All
of it is read off the steps, and since no target has two steps the readings agree: a name has a
position exactly if it is contained (`Plan.isSome_position?`), the entries of the table by name
are those of the targets, once each (`Plan.pairwise_table`), and hold their dependencies
(`Plan.dependencies_of_mem_steps`). -/

namespace BuildPlan.Plan

variable {p : Plan} {n : TargetName}

/-- Plans with the same steps are equal. -/
theorem eq_of_steps_eq {q : Plan} (h : p.steps = q.steps) : p = q := by
  cases p
  cases q
  cases h
  rfl

theorem contains_iff : p.contains n = true ↔ n ∈ p.targets := by
  simp [contains, targets]

theorem isSome_position? : (p.position? n).isSome = true ↔ n ∈ p.targets :=
  List.isSome_idxOf?

theorem contains_eq_isSome_position? (p : Plan) (n : TargetName) :
    p.contains n = (p.position? n).isSome := by
  rw [Bool.eq_iff_iff, contains_iff, isSome_position?]

/-! ### Dependencies -/

theorem dependencies_of_mem_steps {s : Step} (hs : s ∈ p.steps) :
    p.dependencies s.target = s.dependencies := by
  unfold dependencies
  cases hfind : p.steps.find? fun t => t.target == s.target with
  | none =>
      have := List.find?_eq_none.1 hfind s hs
      simp at this
  | some t =>
      have ht : t ∈ p.steps := List.mem_of_find?_eq_some hfind
      have htarget : t.target = s.target := by simpa using List.find?_some hfind
      rw [List.inj_on_of_nodup_map p.nodup_targets ht hs htarget]

theorem dependencies_of_not_mem (hn : n ∉ p.targets) : p.dependencies n = [] := by
  have hfind : p.steps.find? (fun s => s.target == n) = none := by
    rw [List.find?_eq_none]
    intro s hs hsn
    exact hn (List.mem_map.2 ⟨s, hs, by simpa using hsn⟩)
  unfold dependencies
  rw [hfind]

/-- The steps are the targets with their dependencies. -/
theorem map_targets (p : Plan) :
    p.targets.map (fun n => (⟨n, p.dependencies n⟩ : Step)) = p.steps := by
  have hstep : ∀ s ∈ p.steps, (⟨s.target, p.dependencies s.target⟩ : Step) = s := by
    intro s hs
    rw [dependencies_of_mem_steps hs]
  rw [targets, List.map_map]
  exact (List.map_congr_left hstep).trans (List.map_id p.steps)

theorem mem_steps_iff {s : Step} :
    s ∈ p.steps ↔ s.target ∈ p.targets ∧ p.dependencies s.target = s.dependencies := by
  rw [← map_targets, List.mem_map]
  constructor
  · rintro ⟨n, hn, rfl⟩
    exact ⟨hn, rfl⟩
  · rintro ⟨htarget, hdeps⟩
    exact ⟨s.target, htarget, by rw [hdeps]⟩

/-- A plan is its targets in order and what each of them depends on. -/
theorem eq_iff {q : Plan} :
    p = q ↔ p.targets = q.targets ∧ ∀ n, p.dependencies n = q.dependencies n := by
  constructor
  · rintro rfl
    exact ⟨rfl, fun _ => rfl⟩
  · rintro ⟨htargets, hdeps⟩
    apply eq_of_steps_eq
    rw [← p.map_targets, ← q.map_targets, htargets, funext hdeps]

/-! ### Positions -/

theorem targets_of_split {before after : List Step} {s : Step}
    (h : p.steps = before ++ s :: after) :
    p.targets = before.map Step.target ++ s.target :: after.map Step.target := by
  rw [targets, h, List.map_append, List.map_cons]

theorem position?_of_split {before after : List TargetName} (h : p.targets = before ++ n :: after) :
    p.position? n = some before.length := by
  have hnodup : p.targets.Nodup := p.nodup_targets
  rw [h] at hnodup
  have hn : n ∉ before := fun hn => (List.nodup_append.1 hnodup).2.2 n hn n List.mem_cons_self rfl
  have hnone : before.idxOf? n = none := List.idxOf?_eq_none_iff.2 hn
  unfold List.idxOf? at hnone
  rw [position?, h, List.idxOf?, List.findIdx?_append, hnone, List.findIdx?_cons, beq_self_eq_true]
  simp

theorem position?_getElem {i : Nat} (hi : i < p.targets.length) :
    p.position? p.targets[i] = some i := by
  have hnodup : p.targets.Nodup := p.nodup_targets
  refine List.idxOf?_eq_some_iff.2 ⟨hi, rfl, fun j hj heq => ?_⟩
  have : j = i := (hnodup.getElem_inj_iff).1 heq
  omega

/-- A target that precedes another in the list of targets has a smaller position. -/
theorem exists_position?_lt {m : TargetName} {before after : List TargetName}
    (h : p.targets = before ++ m :: after) (hn : n ∈ before) :
    ∃ i j, p.position? n = some i ∧ p.position? m = some j ∧ i < j := by
  obtain ⟨front, back, rfl⟩ := List.append_of_mem hn
  have hsplit : p.targets = front ++ n :: (back ++ m :: after) := by simp [h]
  exact ⟨_, _, position?_of_split hsplit, position?_of_split h, by simp⟩

theorem position?_lt_of_mem {before after : List TargetName} {i : Nat}
    (h : p.targets = before ++ after) (hn : n ∈ before) (hi : p.position? n = some i) :
    i < before.length := by
  obtain ⟨front, back, rfl⟩ := List.append_of_mem hn
  have hsplit : p.targets = front ++ n :: (back ++ after) := by simp [h]
  obtain rfl : front.length = i := Option.some.inj ((position?_of_split hsplit).symm.trans hi)
  simp

theorem mem_of_position?_lt {m : TargetName} {before after : List TargetName} {i j : Nat}
    (h : p.targets = before ++ m :: after) (hn : p.position? n = some i)
    (hm : p.position? m = some j) (hij : i < j) : n ∈ before := by
  obtain rfl : before.length = j := Option.some.inj ((position?_of_split h).symm.trans hm)
  obtain ⟨hi, hget, -⟩ := List.idxOf?_eq_some_iff.1 hn
  have hbefore : p.targets[i] = before[i] := by simp [h, hij]
  rw [← hget, hbefore]
  exact List.getElem_mem hij

/-- Every target stands behind its dependencies. -/
def Ordered (p : Plan) : Prop :=
  ∀ before n after, p.targets = before ++ n :: after → ∀ d ∈ p.dependencies n, d ∈ before

theorem Ordered.mem_targets (hp : p.Ordered) {d : TargetName} (hn : n ∈ p.targets)
    (hd : d ∈ p.dependencies n) : d ∈ p.targets := by
  obtain ⟨before, after, h⟩ := List.append_of_mem hn
  rw [h]
  exact List.mem_append_left _ (hp before n after h d hd)

/-! ### The table -/

theorem pairwise_table (p : Plan) : (p.table.map Step.target).Pairwise (· < ·) := by
  have hperm : (p.table.map Step.target).Perm p.targets :=
    (List.mergeSort_perm p.steps _).map Step.target
  have hsorted : p.table.Pairwise fun a b => a.target.le b.target = true := by
    apply List.pairwise_mergeSort
    · exact fun a b c => TargetName.le_trans
    · exact fun a b => TargetName.le_total a.target b.target
  have hnodup : (p.table.map Step.target).Nodup := hperm.nodup_iff.2 p.nodup_targets
  rw [List.pairwise_map]
  refine hsorted.imp₂ (fun a b hab hne => ?_) (List.pairwise_map.1 hnodup)
  exact TargetName.lt_of_not_lt (TargetName.le_iff.1 hab) (Ne.symm hne)

/-- The table tells what a target depends on. -/
theorem dependencies_eq_of_table_eq {q : Plan} (htargets : p.targets = q.targets)
    (htable : p.table = q.table) (n : TargetName) : p.dependencies n = q.dependencies n := by
  by_cases hn : n ∈ p.targets
  · have hstep : (⟨n, p.dependencies n⟩ : Step) ∈ p.table :=
      mem_table.2 (mem_steps_iff.2 ⟨hn, rfl⟩)
    rw [htable, mem_table, mem_steps_iff] at hstep
    exact hstep.2.symm
  · rw [dependencies_of_not_mem hn, dependencies_of_not_mem (htargets ▸ hn)]

theorem mem_table_targets : n ∈ p.table.map Step.target ↔ n ∈ p.targets := by
  simp [targets, mem_table]

/-- Any list of the steps by name is the table. -/
theorem eq_table_of_pairwise {ss : List Step} (hss : (ss.map Step.target).Pairwise (· < ·))
    (h : ∀ s, s ∈ ss ↔ s ∈ p.steps) : ss = p.table := by
  have hsorted : ss.Pairwise fun s t => s.target < t.target := List.pairwise_map.1 hss
  have htable : p.table.Pairwise fun s t => s.target < t.target :=
    List.pairwise_map.1 p.pairwise_table
  have hne : ∀ s t : Step, s.target < t.target → s ≠ t := by
    rintro s t hst rfl
    exact TargetName.lt_irrefl s.target hst
  have hperm : ss.Perm p.table := by
    apply (List.perm_ext_iff_of_nodup (hsorted.imp (hne _ _)) (htable.imp (hne _ _))).2
    intro s
    rw [h, mem_table]
  refine hperm.eq_of_pairwise (fun s t _ _ hst hts => ?_) hsorted htable
  exact absurd (TargetName.lt_trans hst hts) (TargetName.lt_irrefl s.target)

/-- Plans with the same steps have the same table, whatever the order of the steps. -/
theorem table_eq_of_mem_steps_iff {p q : Plan} (h : ∀ s, s ∈ p.steps ↔ s ∈ q.steps) :
    p.table = q.table := by
  apply eq_table_of_pairwise p.pairwise_table
  intro s
  rw [mem_table, h]

end BuildPlan.Plan
