import Mathlib.Data.List.Induction
import Mathlib.Data.List.Nodup
import BuildPlan.Proofs.Graph
import BuildPlan.Proofs.Resolve.Order

/-! # The waves of a plan

The waves of a plan are its targets grouped by level (`Plan.getElem?_waves`).  In an ordered plan
they are a schedule in groups, and no schedule is tighter: a target stands in the first group
that its dependencies allow (`Plan.IsTightest`).  The main statement is `isTightest_waves`. -/

namespace BuildPlan

namespace Graph

/-! ### Placing targets -/

theorem getD_append_replicate (ws : Array (Array TargetName)) (m k : Nat) :
    (ws ++ Array.replicate m #[])[k]?.getD #[] = ws[k]?.getD #[] := by
  rw [Array.getElem?_append]
  split
  · rfl
  · next hk =>
      rw [Array.getElem?_replicate, Array.getElem?_eq_none (Nat.le_of_not_lt hk)]
      split <;> rfl

theorem getD_modify_push {ws : Array (Array TargetName)} {l : Nat} (hl : l < ws.size)
    (n : TargetName) (k : Nat) :
    (ws.modify l (·.push n))[k]?.getD #[] =
      if k = l then (ws[k]?.getD #[]).push n else ws[k]?.getD #[] := by
  rw [Array.getElem?_modify]
  by_cases hk : l = k
  · subst hk
    rw [if_pos rfl, if_pos rfl, Array.getElem?_eq_getElem hl]
    rfl
  · rw [if_neg hk, if_neg (Ne.symm hk)]

theorem size_place (ws : Array (Array TargetName)) (n : TargetName) (l : Nat) :
    (place ws n l).size = max ws.size (l + 1) := by
  unfold place
  split <;> simp <;> omega

/-- Placing a target changes the wave of its level only. -/
theorem getD_place (ws : Array (Array TargetName)) (n : TargetName) (l k : Nat) :
    (place ws n l)[k]?.getD #[] =
      if k = l then (ws[k]?.getD #[]).push n else ws[k]?.getD #[] := by
  unfold place
  split
  · next hl =>
      have hwide : l < (ws ++ Array.replicate (l + 1 - ws.size) #[]).size := by
        rw [Array.size_append, Array.size_replicate]
        omega
      rw [getD_modify_push hwide, getD_append_replicate]
  · next hl => rw [getD_modify_push (Nat.lt_of_not_le hl)]

/-- Places targets by their level, one after the other. -/
def placeAll (level : TargetName → Nat) (ns : List TargetName) : Array (Array TargetName) :=
  ns.foldl (fun ws n => place ws n (level n)) #[]

variable {level : TargetName → Nat}

theorem placeAll_concat (ns : List TargetName) (n : TargetName) :
    placeAll level (ns ++ [n]) = place (placeAll level ns) n (level n) := by
  rw [placeAll, List.foldl_append]
  rfl

theorem lt_size_placeAll_iff {ns : List TargetName} {k : Nat} :
    k < (placeAll level ns).size ↔ ∃ n ∈ ns, k ≤ level n := by
  induction ns using List.reverseRecOn with
  | nil => simp [placeAll]
  | append_singleton ns n ih =>
      have hmax : k < max (placeAll level ns).size (level n + 1) ↔
          k < (placeAll level ns).size ∨ k ≤ level n := by omega
      rw [placeAll_concat, size_place, hmax, ih]
      simp only [List.mem_append, List.mem_singleton, or_and_right, exists_or, exists_eq_left]

theorem getD_placeAll (ns : List TargetName) (k : Nat) :
    ((placeAll level ns)[k]?.getD #[]).toList = ns.filter fun n => level n = k := by
  induction ns using List.reverseRecOn with
  | nil => simp [placeAll]
  | append_singleton ns n ih =>
      rw [placeAll_concat, getD_place, List.filter_append, ← ih]
      by_cases hk : k = level n
      · simp [hk]
      · simp [hk, Ne.symm hk]

end Graph

namespace Plan

variable {p : Plan} {k : Nat} {n : TargetName} {w : List TargetName}

/-! ### Waves are the targets of a level -/

theorem waves_eq_placeAll (p : Plan) :
    p.waves = (Graph.placeAll p.level p.targets).toList.map Array.toList := by
  unfold waves Graph.waves Graph.placeAll
  rw [Graph.nodes_ofPlan, levels_ofPlan, targets, List.map_map, List.zip_map', List.foldl_map,
    List.foldl_map]
  rfl

/-- A wave holds the targets of a level, in build order.  There is one for every level that some
target reaches. -/
theorem getElem?_waves_iff :
    p.waves[k]? = some w ↔
      (∃ n ∈ p.targets, k ≤ p.level n) ∧ w = p.targets.filter fun n => p.level n = k := by
  rw [waves_eq_placeAll, List.getElem?_map, Array.getElem?_toList, ← Graph.lt_size_placeAll_iff,
    ← Graph.getD_placeAll]
  by_cases hk : k < (Graph.placeAll p.level p.targets).size
  · rw [Array.getElem?_eq_getElem hk]
    simp [hk, eq_comm]
  · rw [Array.getElem?_eq_none (Nat.le_of_not_lt hk)]
    simp [hk]

theorem exists_eq_filter_of_mem_waves (hw : w ∈ p.waves) :
    ∃ k, (∃ n ∈ p.targets, k ≤ p.level n) ∧ w = p.targets.filter fun n => p.level n = k := by
  obtain ⟨k, hk⟩ := List.mem_iff_getElem?.1 hw
  exact ⟨k, getElem?_waves_iff.1 hk⟩

theorem mem_wave_iff (hw : p.waves[k]? = some w) : n ∈ w ↔ n ∈ p.targets ∧ p.level n = k := by
  obtain ⟨-, rfl⟩ := getElem?_waves_iff.1 hw
  simp

/-- The group with the number `k` holds `n`. -/
def InGroup (groups : List (List TargetName)) (k : Nat) (n : TargetName) : Prop :=
  ∃ g, groups[k]? = some g ∧ n ∈ g

theorem inGroup_waves_iff : InGroup p.waves k n ↔ n ∈ p.targets ∧ p.level n = k := by
  constructor
  · rintro ⟨w, hw, hn⟩
    exact (mem_wave_iff hw).1 hn
  · rintro ⟨hn, rfl⟩
    have hw := getElem?_waves_iff.2 ⟨⟨n, hn, Nat.le_refl (p.level n)⟩, rfl⟩
    exact ⟨_, hw, (mem_wave_iff hw).2 ⟨hn, rfl⟩⟩

/-- The waves hold every target once. -/
theorem perm_flatten_waves (p : Plan) : p.waves.flatten.Perm p.targets := by
  have hnodup : p.targets.Nodup := p.nodup_targets
  have hwaves : p.waves.flatten.Nodup := by
    rw [List.nodup_flatten]
    refine ⟨fun w hw => ?_, ?_⟩
    · obtain ⟨k, -, rfl⟩ := exists_eq_filter_of_mem_waves hw
      exact hnodup.filter _
    · rw [List.pairwise_iff_getElem]
      intro i j hi hj hij n hni hnj
      have hlevel := (mem_wave_iff (List.getElem?_eq_getElem hi)).1 hni
      have hlevel' := (mem_wave_iff (List.getElem?_eq_getElem hj)).1 hnj
      omega
  refine (List.perm_ext_iff_of_nodup hwaves hnodup).2 fun n => ?_
  rw [List.mem_flatten]
  constructor
  · rintro ⟨w, hw, hn⟩
    obtain ⟨k, -, rfl⟩ := exists_eq_filter_of_mem_waves hw
    exact List.mem_of_mem_filter hn
  · intro hn
    obtain ⟨w, hw, hnw⟩ := inGroup_waves_iff.2 ⟨hn, rfl⟩
    exact ⟨w, List.mem_of_getElem? hw, hnw⟩

/-! ### The tightest schedule -/

/-- Every level below that of a target is the level of a target. -/
theorem exists_level_eq (hp : p.Ordered) (hn : n ∈ p.targets) (hk : k ≤ p.level n) :
    ∃ m ∈ p.targets, p.level m = k := by
  induction hl : p.level n generalizing n with
  | zero => exact ⟨n, hn, by omega⟩
  | succ l ih =>
      rcases Nat.lt_or_ge l k with hlt | hle
      · exact ⟨n, hn, by omega⟩
      · rcases level_eq_zero_or hp hn with hzero | ⟨d, hd, heq⟩
        · omega
        · exact ih (hp.mem_targets hn hd) (by omega) (by omega)

/-- A target has at least its level as number, if numbers rise from dependencies to targets. -/
theorem level_le (hp : p.Ordered) {f : TargetName → Nat}
    (hf : ∀ n ∈ p.targets, ∀ d ∈ p.dependencies n, f d < f n) (hn : n ∈ p.targets) :
    p.level n ≤ f n := by
  induction hl : p.level n generalizing n with
  | zero => exact Nat.zero_le _
  | succ l ih =>
      rcases level_eq_zero_or hp hn with hzero | ⟨d, hd, heq⟩
      · omega
      · have hle := ih (hp.mem_targets hn hd) (by omega)
        have hlt := hf n hn d hd
        omega

/-- Groups of targets that a plan may be built in, one group after the other and the targets of a
group at the same time, with no target in a later group than it must be. -/
structure IsTightest (p : Plan) (groups : List (List TargetName)) : Prop where
  perm_targets : groups.flatten.Perm p.targets
  ne_nil : ∀ g ∈ groups, g ≠ []
  in_order : ∀ g ∈ groups, g.Sublist p.targets
  dependency_earlier : ∀ k n, InGroup groups k n →
    ∀ d ∈ p.dependencies n, ∃ j < k, InGroup groups j d
  dependency_before : ∀ k n, InGroup groups (k + 1) n →
    ∃ d ∈ p.dependencies n, InGroup groups k d
  le_of_rising : ∀ f : TargetName → Nat,
    (∀ n ∈ p.targets, ∀ d ∈ p.dependencies n, f d < f n) → ∀ k n, InGroup groups k n → k ≤ f n

end Plan

open Plan in
/-- The waves of a resolved plan are its tightest schedule: they hold every target once, none is
empty, and a target stands one wave after the last of its dependencies. -/
theorem isTightest_waves {r : Registry} {roots : List TargetName} {p : Plan}
    (h : resolve r roots = .ok p) : p.IsTightest p.waves := by
  have hp : p.Ordered := ordered_of_resolve h
  constructor
  case perm_targets => exact p.perm_flatten_waves
  case ne_nil =>
    intro w hw
    obtain ⟨k, ⟨n, hn, hkn⟩, rfl⟩ := exists_eq_filter_of_mem_waves hw
    obtain ⟨m, hm, hlevel⟩ := exists_level_eq hp hn hkn
    exact List.ne_nil_of_mem (List.mem_filter.2 ⟨hm, by simpa using hlevel⟩)
  case in_order =>
    intro w hw
    obtain ⟨k, -, rfl⟩ := exists_eq_filter_of_mem_waves hw
    exact List.filter_sublist
  case dependency_earlier =>
    intro k n hnk d hd
    obtain ⟨hn, rfl⟩ := inGroup_waves_iff.1 hnk
    exact ⟨p.level d, level_lt hp hn hd, inGroup_waves_iff.2 ⟨hp.mem_targets hn hd, rfl⟩⟩
  case dependency_before =>
    intro k n hnk
    obtain ⟨hn, hlevel⟩ := inGroup_waves_iff.1 hnk
    rcases level_eq_zero_or hp hn with hzero | ⟨d, hd, heq⟩
    · omega
    · exact ⟨d, hd, inGroup_waves_iff.2 ⟨hp.mem_targets hn hd, by omega⟩⟩
  case le_of_rising =>
    intro f hf k n hnk
    obtain ⟨hn, rfl⟩ := inGroup_waves_iff.1 hnk
    exact level_le hp hf hn

theorem isTightest_waves_workspace :
    ∃ p, resolve Registry.workspace [⟨"all"⟩] = .ok p ∧
      p.IsTightest [[⟨"util"⟩, ⟨"core"⟩], [⟨"net"⟩, ⟨"tool"⟩], [⟨"app"⟩]] := by
  have hwaves : (resolve Registry.workspace [⟨"all"⟩]).toOption.map Plan.waves =
      some [[⟨"util"⟩, ⟨"core"⟩], [⟨"net"⟩, ⟨"tool"⟩], [⟨"app"⟩]] := by decide +kernel
  obtain ⟨p, hp, _⟩ := exists_resolve_workspace
  rw [hp] at hwaves
  have htightest := isTightest_waves hp
  rw [Option.some.inj hwaves] at htightest
  exact ⟨p, hp, htightest⟩

end BuildPlan
