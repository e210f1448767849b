import Mathlib.Data.List.Basic
import BuildPlan.Proofs.Requirement

/-! # The leaves that a name stands for

A project stands for itself, a composite for the leaves of the names that it lists, each at its
first occurrence.  `Registry.leaves` computes this from the registry alone, without a table of
what was expanded before.  It is defined for every registry: a composite that groups itself, at
any depth, adds nothing to its own leaves (`leavesOff`).  Whatever a name stands for is a
project, and a chain of requirements leads to it (`reflTransGen_of_mem_leavesOff`). -/

namespace BuildPlan.Registry

open Relation (ReflTransGen)

/-- The leaves that `n` stands for, where the composites of `path` add nothing. -/
def leavesOff (r : Registry) (path : List TargetName) (n : TargetName) : List TargetName :=
  match _hn : r.get? n with
  | none => []
  | some (.project _) => [n]
  | some (.composite c) =>
      if _hp : n ∈ path then []
      else (c.required.flatMap fun m => leavesOff r (n :: path) m).eraseDups
termination_by r.outside path
decreasing_by exact outside_cons_lt _hn _hp

/-- The leaves that a name stands for. -/
def leaves (r : Registry) (n : TargetName) : List TargetName := r.leavesOff [] n

/-- The leaves behind several names, each at its first occurrence. -/
def leavesOf (r : Registry) (ns : List TargetName) : List TargetName :=
  (ns.flatMap r.leaves).eraseDups

variable {r : Registry}

theorem leavesOff_of_get?_eq_none {path : List TargetName} {n : TargetName} (h : r.get? n = none) :
    r.leavesOff path n = [] := by
  unfold leavesOff
  split <;> simp_all

theorem leavesOff_project {path : List TargetName} {n : TargetName} {p : Project}
    (h : r.get? n = some (.project p)) : r.leavesOff path n = [n] := by
  unfold leavesOff
  split <;> simp_all

theorem leavesOff_composite {path : List TargetName} {n : TargetName} {c : Composite}
    (h : r.get? n = some (.composite c)) (hp : n ∉ path) :
    r.leavesOff path n = (c.required.flatMap fun m => r.leavesOff (n :: path) m).eraseDups := by
  rw [leavesOff.eq_def]
  split <;> simp_all

theorem leavesOff_of_mem {path : List TargetName} {n : TargetName} {c : Composite}
    (h : r.get? n = some (.composite c)) (hp : n ∈ path) : r.leavesOff path n = [] := by
  rw [leavesOff.eq_def]
  split <;> simp_all

theorem leaves_project {n : TargetName} {p : Project} (h : r.get? n = some (.project p)) :
    r.leaves n = [n] :=
  leavesOff_project h

theorem nodup_leavesOf (ns : List TargetName) : (r.leavesOf ns).Nodup := by
  unfold leavesOf
  rw [← distinct_eq_eraseDups]
  exact nodup_distinct _

theorem mem_leavesOf {ns : List TargetName} {n : TargetName} :
    n ∈ r.leavesOf ns ↔ ∃ m ∈ ns, n ∈ r.leaves m := by
  simp [leavesOf, List.mem_eraseDups]

theorem reflTransGen_of_mem_leavesOff {path : List TargetName} {m n : TargetName}
    (h : n ∈ r.leavesOff path m) :
    ReflTransGen r.Requires m n ∧ ∃ p, r.get? n = some (.project p) := by
  fun_induction leavesOff r path m with
  | case1 => cases h
  | case2 path m p hm =>
      obtain rfl := List.mem_singleton.1 h
      exact ⟨.refl, p, hm⟩
  | case3 => cases h
  | case4 path m c hm hp ih =>
      obtain ⟨k, hk, hnk⟩ := List.mem_flatMap.1 (List.mem_eraseDups.1 h)
      obtain ⟨hkn, hproject⟩ := ih k hnk
      exact ⟨hkn.head ⟨.composite c, hm, hk⟩, hproject⟩

end BuildPlan.Registry
