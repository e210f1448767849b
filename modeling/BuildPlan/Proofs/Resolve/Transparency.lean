import BuildPlan.Proofs.Resolve.Closure

/-! # Composites are transparent

A composite among the roots has the same plan as the names that it lists, put in its place: the
same targets in the same order, with the same dependencies (`resolve_composite_root`).

An expansion that succeeds does not depend on the path, which only serves to find cycles, nor on
whether names are resolved that have no step and whose requirements are resolved
(`filter_postorder_eq`).  The two expansions therefore differ in nothing but the composite, which
one of them resolves in its place and the other one later or not at all. -/

namespace BuildPlan

open Relation (ReflTransGen TransGen)

namespace Registry

variable {r : Registry}

/-! ### Expansions that succeed -/

/-- A name that an expansion has to resolve is declared and gets its requirements expanded. -/
theorem exists_of_postorder_cons {path ns resolved resolved' : List TargetName} {n : TargetName}
    (hn : n ∉ resolved) (h : r.postorder path (n :: ns) resolved = .ok resolved') :
    ∃ d between, r.get? n = some d ∧
      r.postorder (n :: path) d.requirements resolved = .ok between ∧
      r.postorder path ns (n :: between) = .ok resolved' := by
  have hp : n ∉ path := by
    intro hp
    rw [postorder, if_neg hn, dif_pos hp] at h
    cases h
  cases hd : r.get? n with
  | none =>
      rw [postorder_of_get?_eq_none hn hp hd] at h
      cases h
  | some d =>
      rw [postorder_of_get? hn hp hd] at h
      cases hreq : r.postorder (n :: path) d.requirements resolved with
      | error e =>
          rw [hreq] at h
          cases h
      | ok between =>
          rw [hreq] at h
          exact ⟨d, between, rfl, hreq, h⟩

/-- Two expansions of the same names resolve the same names in the same order, up to names that
`p` leaves out: those are resolved in the one, and so are their requirements in the other. -/
theorem filter_postorder_eq {p : TargetName → Bool} {path path' ns a b a' b' : List TargetName}
    (hout : ∀ m, p m = false → m ∈ a ∧ ∀ k, r.Requires m k → k ∈ b)
    (hab : a.filter p = b.filter p) (ha : r.postorder path ns a = .ok a')
    (hb : r.postorder path' ns b = .ok b') : a'.filter p = b'.filter p := by
  -- The induction is that of the first expansion; the second one may stop at a name left out, but
  -- resolves nothing else there.
  fun_induction Registry.postorder r path ns a generalizing path' b a' b' with
  | case1 =>
      rw [postorder] at hb
      cases ha
      cases hb
      exact hab
  | case2 path m ns a hm ih =>
      by_cases hmb : m ∈ b
      · rw [postorder_of_mem hmb] at hb
        exact ih hout hab ha hb
      · have hpm : p m = false := by
          by_contra hpm
          have hmem : m ∈ b.filter p := hab ▸ List.mem_filter.2 ⟨hm, by simpa using hpm⟩
          exact hmb (List.mem_filter.1 hmem).1
        obtain ⟨d, between, hd, hreq, hrest⟩ := exists_of_postorder_cons hmb hb
        have hsub : ∀ k ∈ d.requirements, k ∈ b := fun k hk => (hout m hpm).2 k ⟨d, hd, hk⟩
        obtain rfl := Except.ok.inj ((postorder_of_subset hsub).symm.trans hreq)
        refine ih (fun k hk => ⟨(hout k hk).1, fun j hj => ?_⟩) ?_ ha hrest
        · exact List.mem_cons_of_mem _ ((hout k hk).2 j hj)
        · rw [List.filter_cons_of_neg (by simp [hpm]), hab]
  | case3 => cases ha
  | case4 => cases ha
  | case5 => cases ha
  | case6 path m ns a hm hp d hd between hbetween ih1 ih2 =>
      have hpm : p m = true := by
        by_contra hpm
        exact hm (hout m (by simpa using hpm)).1
      have hmb : m ∉ b := by
        intro hmb
        have hmem : m ∈ a.filter p := hab ▸ List.mem_filter.2 ⟨hmb, hpm⟩
        exact hm (List.mem_filter.1 hmem).1
      obtain ⟨d', between', hd', hreq, hrest⟩ := exists_of_postorder_cons hmb hb
      obtain rfl := Option.some.inj (hd.symm.trans hd')
      have hbetween' : between.filter p = between'.filter p := ih1 hout hab hbetween hreq
      refine ih2 (fun k hk => ⟨?_, fun j hj => ?_⟩) ?_ ha hrest
      · exact List.mem_cons_of_mem _ ((suffix_postorder hbetween).subset (hout k hk).1)
      · exact List.mem_cons_of_mem _ ((suffix_postorder hreq).subset ((hout k hk).2 j hj))
      · rw [List.filter_cons_of_pos hpm, List.filter_cons_of_pos hpm, hbetween']

/-- The path has no part in what an expansion resolves. -/
theorem postorder_path_irrel {path path' ns resolved a b : List TargetName}
    (ha : r.postorder path ns resolved = .ok a) (hb : r.postorder path' ns resolved = .ok b) :
    a = b := by
  simpa using filter_postorder_eq (p := fun _ => true) (by simp) rfl ha hb

/-! ### A composite and what it lists -/

section Composite

variable {n : TargetName} {c : Composite} (hc : r.get? n = some (.composite c))
  {xs ys : List TargetName}

include hc

theorem requires_composite_iff {m : TargetName} : r.Requires n m ↔ m ∈ c.required := by
  constructor
  · rintro ⟨d, hd, hm⟩
    obtain rfl := Option.some.inj (hc.symm.trans hd)
    exact hm
  · exact fun hm => ⟨.composite c, hc, hm⟩

theorem reachable_composite_root_iff {m : TargetName} :
    r.Reachable (xs ++ n :: ys) m ↔ m = n ∨ r.Reachable (xs ++ c.required ++ ys) m := by
  constructor
  · rintro ⟨k, hk, hkm⟩
    have hroots : k = n ∨ k ∈ xs ++ c.required ++ ys := by
      simp only [List.mem_append, List.mem_cons] at hk ⊢
      tauto
    rcases hroots with rfl | hk
    · rcases ReflTransGen.cases_head hkm with rfl | ⟨j, hkj, hjm⟩
      · exact .inl rfl
      · have hj : j ∈ c.required := (requires_composite_iff hc).1 hkj
        exact .inr ⟨j, by simp [hj], hjm⟩
    · exact .inr ⟨k, hk, hkm⟩
  · rintro (rfl | ⟨k, hk, hkm⟩)
    · exact .of_mem (by simp)
    · by_cases hkc : k ∈ c.required
      · exact ⟨n, by simp, hkm.head ((requires_composite_iff hc).2 hkc)⟩
      · refine ⟨k, ?_, hkm⟩
        simp only [List.mem_append, List.mem_cons] at hk ⊢
        tauto

/-- A composite on a cycle lists a name on the cycle. -/
theorem exists_required_requires_self (h : TransGen r.Requires n n) :
    ∃ m ∈ c.required, TransGen r.Requires m m := by
  obtain ⟨m, hnm, hmn⟩ := TransGen.head'_iff.1 h
  exact ⟨m, (requires_composite_iff hc).1 hnm, TransGen.tail' hmn hnm⟩

theorem exists_postorder_composite_root_iff :
    (∃ a, r.postorder [] (xs ++ n :: ys) [] = .ok a) ↔
      ∃ b, r.postorder [] (xs ++ c.required ++ ys) [] = .ok b := by
  rw [exists_postorder_iff, exists_postorder_iff]
  constructor
  · exact fun hgood m hm => hgood m ((reachable_composite_root_iff hc).2 (.inr hm))
  · intro hgood m hm
    rcases (reachable_composite_root_iff hc).1 hm with rfl | hm
    · refine ⟨mem_names_iff.2 ⟨_, hc⟩, fun hcycle => ?_⟩
      obtain ⟨k, hk, hkk⟩ := exists_required_requires_self hc hcycle
      exact (hgood k (.of_mem (by simp [hk]))).2 hkk
    · exact hgood m hm

/-- The two expansions resolve the same names in the same order, the composite left out. -/
theorem filter_postorder_composite_root {a b : List TargetName}
    (ha : r.postorder [] (xs ++ n :: ys) [] = .ok a)
    (hb : r.postorder [] (xs ++ c.required ++ ys) [] = .ok b) :
    a.filter (· ≠ n) = b.filter (· ≠ n) := by
  rw [postorder_append] at ha
  rw [List.append_assoc, postorder_append] at hb
  cases hxs : r.postorder [] xs [] with
  | error e =>
      rw [hxs] at ha
      cases ha
  | ok resolved =>
      rw [hxs] at ha hb
      change r.postorder [] (n :: ys) resolved = .ok a at ha
      change r.postorder [] (c.required ++ ys) resolved = .ok b at hb
      rw [postorder_append] at hb
      by_cases hn : n ∈ resolved
      · -- The composite is resolved, and so is all that it lists.
        have hsub : ∀ m ∈ c.required, m ∈ resolved := fun m hm =>
          (postordered_of_postorder hxs).mem_of_requires hn ((requires_composite_iff hc).2 hm)
        rw [postorder_of_mem hn] at ha
        rw [postorder_of_subset hsub] at hb
        obtain rfl := Except.ok.inj (ha.symm.trans hb)
        rfl
      · obtain ⟨d, between, hd, hreq, hrest⟩ := exists_of_postorder_cons hn ha
        obtain rfl := Option.some.inj (hc.symm.trans hd)
        cases hreq' : r.postorder [] c.required resolved with
        | error e =>
            rw [hreq'] at hb
            cases hb
        | ok between' =>
            rw [hreq'] at hb
            obtain rfl : between = between' := postorder_path_irrel hreq hreq'
            refine filter_postorder_eq (fun m hm => ?_) ?_ hrest hb
            · obtain rfl : m = n := by simpa using hm
              exact ⟨List.mem_cons_self, fun k hk =>
                mem_of_postorder hreq' ((requires_composite_iff hc).1 hk)⟩
            · rw [List.filter_cons_of_neg (by simp)]

theorem stepsOf_filter_ne (resolved : List TargetName) :
    r.stepsOf (resolved.filter (· ≠ n)) = r.stepsOf resolved := by
  have hstep : r.step? n = none := by simp [step?, hc]
  unfold stepsOf
  rw [List.filterMap_filter]
  congr 2
  funext m
  by_cases hm : m = n
  · simp [hm, hstep]
  · simp [hm]

end Composite

end Registry

variable {r : Registry} {n : TargetName} {c : Composite}

/-- A composite among the roots can be replaced by the names that it lists: there is a plan for
the ones exactly if there is one for the others, and it is the same plan. -/
theorem resolve_composite_root (hc : r.get? n = some (.composite c)) (xs ys : List TargetName)
    (p : Plan) :
    resolve r (xs ++ [n] ++ ys) = .ok p ↔ resolve r (xs ++ c.required ++ ys) = .ok p := by
  have hexists : (∃ a, r.postorder [] (xs ++ n :: ys) [] = .ok a) ↔
      ∃ b, r.postorder [] (xs ++ c.required ++ ys) [] = .ok b :=
    Registry.exists_postorder_composite_root_iff hc
  have hsteps : ∀ a b, r.postorder [] (xs ++ n :: ys) [] = .ok a →
      r.postorder [] (xs ++ c.required ++ ys) [] = .ok b → r.stepsOf a = r.stepsOf b := by
    intro a b ha hb
    rw [← Registry.stepsOf_filter_ne hc a, Registry.filter_postorder_composite_root hc ha hb,
      Registry.stepsOf_filter_ne hc b]
  rw [List.append_assoc, List.singleton_append, resolve_eq_ok_iff, resolve_eq_ok_iff]
  constructor
  · rintro ⟨a, ha, hp⟩
    obtain ⟨b, hb⟩ := hexists.1 ⟨a, ha⟩
    exact ⟨b, hb, hp.trans (hsteps a b ha hb)⟩
  · rintro ⟨b, hb, hp⟩
    obtain ⟨a, ha⟩ := hexists.2 ⟨b, hb⟩
    exact ⟨a, ha, hp.trans (hsteps a b ha hb).symm⟩

/-- `libs` stands between roots that share some of what it lists; `all` leads to it again. -/
theorem resolve_composite_root_workspace :
    ∃ p, resolve Registry.workspace [⟨"tool"⟩, ⟨"libs"⟩, ⟨"all"⟩] = .ok p ∧
      resolve Registry.workspace [⟨"tool"⟩, ⟨"util"⟩, ⟨"base"⟩, ⟨"net"⟩, ⟨"all"⟩] = .ok p ∧
      p.targets = [⟨"core"⟩, ⟨"util"⟩, ⟨"tool"⟩, ⟨"net"⟩, ⟨"app"⟩] := by
  have hlibs : ((Registry.workspace.get? ⟨"libs"⟩).bind Descriptor.composite?).map
      Composite.required = some [⟨"util"⟩, ⟨"base"⟩, ⟨"net"⟩] := by decide +kernel
  have htargets : (resolve Registry.workspace [⟨"tool"⟩, ⟨"libs"⟩, ⟨"all"⟩]).toOption.map
      Plan.targets = some [⟨"core"⟩, ⟨"util"⟩, ⟨"tool"⟩, ⟨"net"⟩, ⟨"app"⟩] := by decide +kernel
  obtain ⟨c, hc, hrequired⟩ := Option.map_eq_some_iff.1 hlibs
  obtain ⟨d, hd, hdc⟩ := Option.bind_eq_some_iff.1 hc
  cases d with
  | project q => cases hdc
  | composite c' =>
      obtain rfl : c' = c := Option.some.inj hdc
      cases hp : resolve Registry.workspace [⟨"tool"⟩, ⟨"libs"⟩, ⟨"all"⟩] with
      | error e =>
          rw [hp] at htargets
          cases htargets
      | ok p =>
          rw [hp] at htargets
          have hreplaced := (resolve_composite_root hd [⟨"tool"⟩] [⟨"all"⟩] p).1 hp
          rw [hrequired] at hreplaced
          exact ⟨p, rfl, hreplaced, Option.some.inj htargets⟩

end BuildPlan
