import Mathlib.Data.List.Basic
import BuildPlan.Plan.Graph
import BuildPlan.Proofs.Plan

/-! # Levels of the targets of a plan

The levels of a graph are computed in one pass over its nodes, and a dependency that has no level
yet is passed over.  In a graph whose edges point backwards (`Graph.Forward`) that never happens:
every level is the one that the levels of all nodes give (`Graph.Forward.getElem?_levels`).  The
graph of an ordered plan is such a graph, so the level of a target (`Plan.level`) is above those
of its dependencies (`Plan.level_lt`) and, unless it is zero, one above one of them
(`Plan.level_eq_zero_or`). -/

namespace BuildPlan

namespace Graph

variable {levels : Array Nat} {i l m : Nat}

/-! ### One node -/

/-- What a dependency does to the level of a node. -/
def raise (levels : Array Nat) (l i : Nat) : Nat :=
  match levels[i]? with
  | some m => max l (m + 1)
  | none => l

theorem levelOf_eq_foldl (levels : Array Nat) (v : Node) :
    levelOf levels v = v.incoming.foldl (raise levels) 0 :=
  rfl

theorem le_foldl_raise (is : List Nat) : l ≤ is.foldl (raise levels) l := by
  induction is generalizing l with
  | nil => exact Nat.le_refl l
  | cons i is ih =>
      have hraise : l ≤ raise levels l i := by
        unfold raise
        split <;> omega
      rw [List.foldl_cons]
      exact Nat.le_trans hraise ih

theorem lt_foldl_raise {is : List Nat} (hi : i ∈ is) (hm : levels[i]? = some m) :
    m < is.foldl (raise levels) l := by
  induction is generalizing l with
  | nil => cases hi
  | cons j is ih =>
      rw [List.foldl_cons]
      rcases List.mem_cons.1 hi with rfl | hi
      · have hraise : m < raise levels l i := by
          unfold raise
          rw [hm]
          exact Nat.le_max_right l (m + 1)
        exact Nat.lt_of_lt_of_le hraise (le_foldl_raise is)
      · exact ih hi

theorem foldl_raise_eq (is : List Nat) :
    is.foldl (raise levels) l = l ∨
      ∃ i ∈ is, ∃ m, levels[i]? = some m ∧ is.foldl (raise levels) l = m + 1 := by
  induction is generalizing l with
  | nil => exact .inl rfl
  | cons i is ih =>
      rw [List.foldl_cons]
      rcases ih (l := raise levels l i) with hsame | ⟨j, hj, m, hm, heq⟩
      · rw [hsame]
        unfold raise
        cases hi : levels[i]? with
        | none => exact .inl rfl
        | some m =>
            rcases Nat.le_total l (m + 1) with hle | hle
            · exact .inr ⟨i, List.mem_cons_self, m, hi, Nat.max_eq_right hle⟩
            · exact .inl (Nat.max_eq_left hle)
      · exact .inr ⟨j, List.mem_cons_of_mem i hj, m, hm, heq⟩

theorem levelOf_congr {levels' : Array Nat} {v : Node}
    (h : ∀ i ∈ v.incoming, levels[i]? = levels'[i]?) : levelOf levels v = levelOf levels' v := by
  rw [levelOf_eq_foldl, levelOf_eq_foldl]
  refine List.foldl_ext _ _ 0 fun l i hi => ?_
  unfold raise
  rw [h i hi]

/-! ### The pass over the nodes -/

theorem size_levelsFrom (levels : Array Nat) (vs : List Node) :
    (levelsFrom levels vs).size = levels.size + vs.length := by
  induction vs generalizing levels with
  | nil => rfl
  | cons v vs ih =>
      rw [levelsFrom, ih, Array.size_push, List.length_cons]
      omega

theorem levelsFrom_append (levels : Array Nat) (us vs : List Node) :
    levelsFrom levels (us ++ vs) = levelsFrom (levelsFrom levels us) vs := by
  induction us generalizing levels with
  | nil => rfl
  | cons u us ih => rw [List.cons_append, levelsFrom, levelsFrom, ih]

/-- The pass keeps the levels that are there. -/
theorem getElem?_levelsFrom (vs : List Node) (hi : i < levels.size) :
    (levelsFrom levels vs)[i]? = levels[i]? := by
  induction vs generalizing levels with
  | nil => rfl
  | cons v vs ih =>
      have hpush : i < (levels.push (levelOf levels v)).size := by
        rw [Array.size_push]
        omega
      rw [levelsFrom, ih hpush, Array.getElem?_push, if_neg (by omega)]

/-- Edges point backwards: the nodes that a node depends on stand before it. -/
def Forward (g : Graph) : Prop :=
  ∀ us v vs, g.nodes = us ++ v :: vs → ∀ i ∈ v.incoming, i < us.length

/-- In a forward graph the level of a node is that over the levels of all nodes. -/
theorem Forward.getElem?_levels {g : Graph} (hg : g.Forward) {us vs : List Node} {v : Node}
    (h : g.nodes = us ++ v :: vs) :
    g.levels[us.length]? = some (levelOf g.levels.toArray v) := by
  have hsize : (levelsFrom #[] us).size = us.length := by
    rw [size_levelsFrom]
    simp
  have hlevels : g.levels.toArray =
      levelsFrom ((levelsFrom #[] us).push (levelOf (levelsFrom #[] us) v)) vs := by
    rw [levels, Array.toArray_toList, h, levelsFrom_append, levelsFrom]
  -- The levels that the pass had when it came to the node are kept.
  have hkept : ∀ i ∈ v.incoming, (levelsFrom #[] us)[i]? = g.levels.toArray[i]? := by
    intro i hi
    have hlt := hg us v vs h i hi
    rw [hlevels, getElem?_levelsFrom vs (by rw [Array.size_push]; omega), Array.getElem?_push,
      if_neg (by omega)]
  rw [← levelOf_congr hkept, ← List.getElem?_toArray, hlevels,
    getElem?_levelsFrom vs (by rw [Array.size_push]; omega), Array.getElem?_push,
    if_pos hsize.symm]

/-! ### The graph of a plan -/

theorem getElem?_indexOf {ns : List TargetName} (hns : ns.Nodup) (n : TargetName) :
    (indexOf ns)[n]? = ns.idxOf? n := by
  unfold indexOf
  have hfst : ns.zipIdx.map Prod.fst = ns := List.zipIdx_map_fst 0 ns
  cases hn : ns.idxOf? n with
  | none =>
      refine Std.TreeMap.getElem?_ofList_of_contains_eq_false ?_
      rw [hfst]
      simpa using List.idxOf?_eq_none_iff.1 hn
  | some i =>
      obtain ⟨hi, hget, -⟩ := List.idxOf?_eq_some_iff.1 hn
      have hmem : (n, i) ∈ ns.zipIdx := List.mem_zipIdx_iff_getElem?.2 (by simp [hi, hget])
      refine Std.TreeMap.getElem?_ofList_of_mem Std.ReflCmp.compare_self ?_ hmem
      rw [← hfst, List.nodup_iff_pairwise_ne, List.pairwise_map] at hns
      exact hns.imp fun hne heq => hne (Std.compare_eq_iff_eq.1 heq)

variable {p : Plan}

theorem nodes_ofPlan (p : Plan) :
    (ofPlan p).nodes = p.steps.map fun s => ⟨s.target, s.dependencies.filterMap p.position?⟩ := by
  have hindex : (fun d => (indexOf p.targets)[d]?) = p.position? :=
    funext fun d => getElem?_indexOf p.nodup_targets d
  rw [← hindex]
  rfl

theorem forward_ofPlan (hp : p.Ordered) : (ofPlan p).Forward := by
  intro us v vs h i hi
  rw [nodes_ofPlan, List.map_eq_append_iff] at h
  obtain ⟨before, rest, hsteps, rfl, hrest⟩ := h
  obtain ⟨s, after, rfl, rfl, -⟩ := List.map_eq_cons_iff.1 hrest
  obtain ⟨d, hd, hposition⟩ := List.mem_filterMap.1 hi
  have hs : s ∈ p.steps := by simp [hsteps]
  have htargets := Plan.targets_of_split hsteps
  have hbefore := hp _ _ _ htargets d (Plan.dependencies_of_mem_steps hs ▸ hd)
  rw [List.length_map]
  simpa using Plan.position?_lt_of_mem htargets hbefore hposition

end Graph

namespace Plan

variable {p : Plan} {n d : TargetName}

/-- The level of a target. -/
def level (p : Plan) (n : TargetName) : Nat :=
  ((p.position? n).bind fun i => (Graph.ofPlan p).levels[i]?).getD 0

theorem length_levels (p : Plan) : (Graph.ofPlan p).levels.length = p.targets.length := by
  simp [Graph.levels, Graph.size_levelsFrom, Graph.nodes_ofPlan, targets]

theorem getElem?_levels {i : Nat} (hi : p.position? n = some i) :
    (Graph.ofPlan p).levels[i]? = some (p.level n) := by
  obtain ⟨hlt, -⟩ := List.idxOf?_eq_some_iff.1 hi
  unfold level
  rw [hi, Option.bind_some, List.getElem?_eq_getElem (p.length_levels ▸ hlt)]
  rfl

theorem levels_ofPlan (p : Plan) : (Graph.ofPlan p).levels = p.targets.map p.level := by
  have hlength := p.length_levels
  refine List.ext_getElem? fun i => ?_
  rw [List.getElem?_map]
  by_cases hi : i < p.targets.length
  · rw [List.getElem?_eq_getElem hi, getElem?_levels (position?_getElem hi)]
    rfl
  · have hle : p.targets.length ≤ i := Nat.le_of_not_lt hi
    rw [List.getElem?_eq_none hle, List.getElem?_eq_none (hlength ▸ hle)]
    rfl

/-- The level of a target is that over the levels of all targets. -/
theorem level_eq_levelOf (hp : p.Ordered) (hn : n ∈ p.targets) :
    p.level n = Graph.levelOf (Graph.ofPlan p).levels.toArray
      ⟨n, (p.dependencies n).filterMap p.position?⟩ := by
  obtain ⟨s, hs, rfl⟩ := List.mem_map.1 hn
  obtain ⟨before, after, hsteps⟩ := List.append_of_mem hs
  have hlevel := getElem?_levels (position?_of_split (targets_of_split hsteps))
  have hnodes := Graph.nodes_ofPlan p
  rw [hsteps, List.map_append, List.map_cons] at hnodes
  have hforward := (Graph.forward_ofPlan hp).getElem?_levels hnodes
  rw [List.length_map] at hlevel hforward
  rw [dependencies_of_mem_steps hs]
  exact Option.some.inj (hlevel.symm.trans hforward)

theorem level_lt (hp : p.Ordered) (hn : n ∈ p.targets) (hd : d ∈ p.dependencies n) :
    p.level d < p.level n := by
  obtain ⟨i, hi⟩ := Option.isSome_iff_exists.1 (isSome_position?.2 (hp.mem_targets hn hd))
  rw [level_eq_levelOf hp hn, Graph.levelOf_eq_foldl]
  refine Graph.lt_foldl_raise (List.mem_filterMap.2 ⟨d, hd, hi⟩) ?_
  rw [List.getElem?_toArray]
  exact getElem?_levels hi

theorem level_eq_zero_or (hp : p.Ordered) (hn : n ∈ p.targets) :
    p.level n = 0 ∨ ∃ d ∈ p.dependencies n, p.level n = p.level d + 1 := by
  rw [level_eq_levelOf hp hn, Graph.levelOf_eq_foldl]
  refine (Graph.foldl_raise_eq _).imp_right ?_
  rintro ⟨i, hi, m, hm, heq⟩
  obtain ⟨d, hd, hposition⟩ := List.mem_filterMap.1 hi
  rw [List.getElem?_toArray, getElem?_levels hposition] at hm
  obtain rfl := Option.some.inj hm
  exact ⟨d, hd, heq⟩

end Plan

end BuildPlan
