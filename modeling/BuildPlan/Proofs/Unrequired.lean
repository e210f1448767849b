import BuildPlan.Proofs.Resolve.TopLevel

/-! # Top-level targets and self-requirements

Meant are the declared targets that no *other* declared target requires (`Registry.unrequired`).
The names that are required are collected from all descriptors into one set, so a target that
requires itself is in it by its own doing, and is left out although no other target asks for it
(`Registry.topLevel_eq_filter`).  That is the only difference: the list is the one that is meant
exactly if no name of that one requires itself (`Registry.topLevel_unrequired`), and so it is
whenever all declared names have a plan (`topLevel_eq_unrequired_of_resolve`). -/

namespace BuildPlan

namespace Registry

variable {r : Registry} {n : TargetName}

/-- The declared targets that no other declared target requires, in declaration order. -/
def unrequired (r : Registry) : List TargetName :=
  r.names.filter fun n => decide (∀ m ∈ r.names, m ≠ n → ¬ r.Requires m n)

theorem mem_unrequired_iff :
    n ∈ r.unrequired ↔ n ∈ r.names ∧ ∀ m, m ≠ n → ¬ r.Requires m n := by
  unfold unrequired
  rw [List.mem_filter, decide_eq_true_eq]
  refine and_congr_right fun _ => ⟨fun h m hne hmn => ?_, fun h m _ => h m⟩
  exact h m (mem_names_of_requires hmn) hne hmn

theorem mem_topLevel_iff_unrequired : n ∈ r.topLevel ↔ n ∈ r.unrequired ∧ ¬ r.Requires n n := by
  rw [mem_topLevel_iff, mem_unrequired_iff, and_assoc]
  refine and_congr_right fun _ => ⟨fun h => ⟨fun m _ => h m, h n⟩, fun ⟨hothers, hself⟩ m => ?_⟩
  by_cases hm : m = n
  · rw [hm]
    exact hself
  · exact hothers m hm

/-- The top-level targets are those that no other target requires, but for self-requirements. -/
theorem topLevel_eq_filter (r : Registry) :
    r.topLevel = r.unrequired.filter fun n => decide (¬ r.Requires n n) := by
  unfold topLevel unrequired
  rw [List.filter_filter]
  refine List.filter_congr fun n hn => ?_
  have htop : n ∈ r.topLevel ↔ n ∈ r.unrequired ∧ ¬ r.Requires n n := mem_topLevel_iff_unrequired
  simp only [topLevel, unrequired, List.mem_filter, hn, true_and] at htop
  rw [Bool.eq_iff_iff, htop, Bool.and_eq_true, decide_eq_true_eq (p := ¬ r.Requires n n), and_comm]

/-- The top-level targets are listed once each, in declaration order: the declared ones that no
other declared target requires and that do not require themselves.  They are all that no other
target requires exactly if none of those requires itself. -/
theorem topLevel_unrequired (r : Registry) :
    r.topLevel.Nodup ∧ r.topLevel.Sublist r.names ∧
    (∀ n, n ∈ r.topLevel ↔
      n ∈ r.names ∧ (∀ m, m ≠ n → ¬ r.Requires m n) ∧ ¬ r.Requires n n) ∧
    (r.topLevel = r.unrequired ↔ ∀ n ∈ r.unrequired, ¬ r.Requires n n) := by
  have hsublist : r.topLevel.Sublist r.names := List.filter_sublist
  refine ⟨hsublist.nodup r.nodup_names, hsublist, fun n => ?_, ?_⟩
  · rw [mem_topLevel_iff_unrequired, mem_unrequired_iff, and_assoc]
  · rw [topLevel_eq_filter, List.filter_eq_self]
    simp only [decide_eq_true_eq]

/-- A registry in which the only target requires itself. -/
def selfish : Registry :=
  (empty.register (.project ((Project.leaf ⟨"a"⟩).withRequires [⟨"a"⟩]))).toOption.getD empty

/-- No other target requires `a`, yet it is not listed. -/
theorem not_mem_topLevel_selfish :
    ⟨"a"⟩ ∈ selfish.names ∧ (∀ m, m ≠ ⟨"a"⟩ → ¬ selfish.Requires m ⟨"a"⟩) ∧
      ⟨"a"⟩ ∉ selfish.topLevel := by
  have hunrequired : ⟨"a"⟩ ∈ selfish.unrequired := by decide +kernel
  have htop : ⟨"a"⟩ ∉ selfish.topLevel := by decide +kernel
  obtain ⟨hdeclared, hothers⟩ := mem_unrequired_iff.1 hunrequired
  exact ⟨hdeclared, hothers, htop⟩

end Registry

/-- Where all declared names have a plan, the top-level targets are those that no other target
requires. -/
theorem topLevel_eq_unrequired_of_resolve {r : Registry} {p : Plan}
    (hp : resolve r r.names = .ok p) : r.topLevel = r.unrequired := by
  rw [Registry.topLevel_eq_filter, List.filter_eq_self]
  intro n hn
  rw [decide_eq_true_eq]
  intro hself
  have hreachable : r.Reachable r.names n := .of_mem (Registry.mem_unrequired_iff.1 hn).1
  have hgood := Registry.exists_postorder_iff.1 (exists_resolve_iff.1 ⟨p, hp⟩)
  exact (hgood n hreachable).2 (.single hself)

end BuildPlan
