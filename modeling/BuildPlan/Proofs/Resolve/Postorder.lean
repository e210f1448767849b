import BuildPlan.PlanError
import BuildPlan.Plan
import BuildPlan.Proofs.Resolve.Leaves

/-! # Depth-first expansion by recursion

`Registry.postorder` expands names one after the other.  A name that is resolved is skipped, a
name on the path from the root closes a cycle, a name without a declaration is an error of
whoever requires it; any other name has its requirements expanded and is then resolved itself.
`Registry.expand` reads the steps of a plan off the resolved names: those of the projects, in
the order in which they were resolved.

`Registry.Postordered` describes the names that are resolved: each is declared, occurs once and
comes after all that it requires.  Hence the resolved names are closed under requirements
(`Postordered.mem_of_reflTransGen`), none of them requires itself
(`Postordered.not_requires_self`), and a composite among them stands for just the leaves of what
it lists (`Postordered.leaves_composite`).  An expansion of roots resolves the names in their
reach (`mem_postorder_iff`). -/

namespace BuildPlan.Registry

open Relation (ReflTransGen TransGen)

/-! ### The recursion -/

/-- The cycle that closes at `n`: the path from the root, cut in front of `n`, and `n` again. -/
def cycleAt (path : List TargetName) (n : TargetName) : List TargetName :=
  path.reverse.dropWhile (· != n) ++ [n]

/-- Expands names in order.  The path holds the names that are being expanded, innermost first;
the resolved names are listed last first. -/
def postorder (r : Registry) (path : List TargetName) :
    List TargetName → List TargetName → Except PlanError (List TargetName)
  | [], resolved => .ok resolved
  | n :: ns, resolved =>
      if n ∈ resolved then postorder r path ns resolved
      else if _hp : n ∈ path then .error (.cyclicDependency (cycleAt path n))
      else
        match _hn : r.get? n with
        | none => .error (.unknownTarget n path.head?)
        | some d =>
            match postorder r (n :: path) d.requirements resolved with
            | .error e => .error e
            | .ok resolved' => postorder r path ns (n :: resolved')
termination_by ns => (r.outside path, ns.length)
decreasing_by
  · exact Prod.Lex.right _ (Nat.lt_succ_self _)
  · exact Prod.Lex.left _ _ (outside_cons_lt _hn _hp)
  · exact Prod.Lex.right _ (Nat.lt_succ_self _)

/-- The step of a project; composites have none. -/
def step? (r : Registry) (n : TargetName) : Option Step :=
  match r.get? n with
  | some (.project p) => some ⟨n, r.leavesOf p.requires.names⟩
  | _ => none

/-- The steps of the resolved projects, in the order in which they were resolved. -/
def stepsOf (r : Registry) (resolved : List TargetName) : List Step :=
  (resolved.filterMap r.step?).reverse

/-- The steps of the plan of `roots`, or the first error. -/
def expand (r : Registry) (roots : List TargetName) : Except PlanError (List Step) :=
  (r.postorder [] roots []).map r.stepsOf

variable {r : Registry}

theorem cycleAt_append {inner outer : List TargetName} {n : TargetName} (hn : n ∉ outer) :
    cycleAt (inner ++ n :: outer) n = n :: inner.reverse ++ [n] := by
  have hdrop : (inner ++ n :: outer).reverse.dropWhile (· != n) = n :: inner.reverse := by
    rw [List.reverse_append, List.reverse_cons, List.append_assoc,
      List.dropWhile_append_of_pos fun a ha => by
        simpa using ne_of_mem_of_not_mem (List.mem_reverse.1 ha) hn,
      List.singleton_append, List.dropWhile_cons_of_neg (by simp)]
  unfold cycleAt
  rw [hdrop]

theorem postorder_of_mem {path ns resolved : List TargetName} {n : TargetName}
    (hn : n ∈ resolved) : r.postorder path (n :: ns) resolved = r.postorder path ns resolved := by
  rw [postorder, if_pos hn]

theorem postorder_of_get?_eq_none {path ns resolved : List TargetName} {n : TargetName}
    (hn : n ∉ resolved) (hp : n ∉ path) (hd : r.get? n = none) :
    r.postorder path (n :: ns) resolved = .error (.unknownTarget n path.head?) := by
  rw [postorder, if_neg hn, dif_neg hp]
  split
  · rfl
  · next d h => rw [hd] at h; cases h

theorem postorder_of_get? {path ns resolved : List TargetName} {n : TargetName} {d : Descriptor}
    (hn : n ∉ resolved) (hp : n ∉ path) (hd : r.get? n = some d) :
    r.postorder path (n :: ns) resolved =
      (r.postorder (n :: path) d.requirements resolved).bind fun resolved' =>
        r.postorder path ns (n :: resolved') := by
  rw [postorder, if_neg hn, dif_neg hp]
  split
  · next h => rw [hd] at h; cases h
  · next e h =>
      obtain rfl := Option.some.inj (hd.symm.trans h)
      cases r.postorder (n :: path) d.requirements resolved <;> rfl

theorem postorder_append (path xs ys resolved : List TargetName) :
    r.postorder path (xs ++ ys) resolved =
      (r.postorder path xs resolved).bind fun resolved' => r.postorder path ys resolved' := by
  induction xs generalizing resolved with
  | nil =>
      rw [List.nil_append, postorder.eq_1]
      rfl
  | cons n xs ih =>
      rw [List.cons_append]
      by_cases hn : n ∈ resolved
      · rw [postorder_of_mem hn, postorder_of_mem hn, ih]
      by_cases hp : n ∈ path
      · rw [postorder.eq_2, if_neg hn, dif_pos hp, postorder.eq_2, if_neg hn, dif_pos hp]
        rfl
      cases hd : r.get? n with
      | none =>
          rw [postorder_of_get?_eq_none hn hp hd, postorder_of_get?_eq_none hn hp hd]
          rfl
      | some d =>
          rw [postorder_of_get? hn hp hd, postorder_of_get? hn hp hd]
          cases r.postorder (n :: path) d.requirements resolved with
          | error e => rfl
          | ok between => exact ih (n :: between)

theorem postorder_of_subset {path ns resolved : List TargetName} (h : ∀ n ∈ ns, n ∈ resolved) :
    r.postorder path ns resolved = .ok resolved := by
  induction ns with
  | nil => rw [postorder]
  | cons n ns ih =>
      obtain ⟨hn, hns⟩ := List.forall_mem_cons.1 h
      rw [postorder_of_mem hn, ih hns]

/-! ### Resolved names -/

/-- Every name is declared, occurs once and stands before (that is, was resolved after) all that
it requires. -/
inductive Postordered (r : Registry) : List TargetName → Prop
  | nil : Postordered r []
  | cons {n : TargetName} {d : Descriptor} {ns : List TargetName} :
      n ∉ ns → r.get? n = some d → (∀ m ∈ d.requirements, m ∈ ns) → Postordered r ns →
      Postordered r (n :: ns)

namespace Postordered

theorem nodup {ns : List TargetName} (h : r.Postordered ns) : ns.Nodup := by
  induction h with
  | nil => exact List.nodup_nil
  | cons hn _ _ _ ih => exact List.nodup_cons.2 ⟨hn, ih⟩

theorem declared {ns : List TargetName} (h : r.Postordered ns) {n : TargetName} (hn : n ∈ ns) :
    ∃ d, r.get? n = some d := by
  induction h with
  | nil => cases hn
  | cons _ hd _ _ ih =>
      rcases List.mem_cons.1 hn with rfl | hn
      · exact ⟨_, hd⟩
      · exact ih hn

theorem of_suffix {ms ns : List TargetName} (h : r.Postordered ns) (hs : ms <:+ ns) :
    r.Postordered ms := by
  induction h with
  | nil =>
      rw [List.suffix_nil.1 hs]
      exact .nil
  | cons hn hd hreq hns ih =>
      rcases List.suffix_cons_iff.1 hs with rfl | hs
      · exact .cons hn hd hreq hns
      · exact ih hs

/-- Every resolved name heads a list of resolved names that stands in postorder too. -/
theorem exists_suffix {ns : List TargetName} (h : r.Postordered ns) {n : TargetName}
    (hn : n ∈ ns) : ∃ later earlier, ns = later ++ n :: earlier ∧ r.Postordered (n :: earlier) := by
  obtain ⟨later, earlier, rfl⟩ := List.append_of_mem hn
  exact ⟨later, earlier, rfl, h.of_suffix (List.suffix_append later _)⟩

theorem mem_of_requires {ns : List TargetName} (h : r.Postordered ns) {m n : TargetName}
    (hm : m ∈ ns) (hmn : r.Requires m n) : n ∈ ns := by
  obtain ⟨e, he, hn⟩ := hmn
  induction h with
  | nil => cases hm
  | cons _ hd hreq _ ih =>
      rcases List.mem_cons.1 hm with rfl | hm
      · rw [hd] at he
        cases he
        exact List.mem_cons_of_mem _ (hreq n hn)
      · exact List.mem_cons_of_mem _ (ih hm)

theorem mem_of_reflTransGen {ns : List TargetName} (h : r.Postordered ns) {m n : TargetName}
    (hm : m ∈ ns) (hmn : ReflTransGen r.Requires m n) : n ∈ ns := by
  induction hmn with
  | refl => exact hm
  | tail _ hstep ih => exact h.mem_of_requires ih hstep

/-- A chain from the last resolved name leads to names resolved before it. -/
theorem mem_tail_of_transGen {ns : List TargetName} {m n : TargetName}
    (h : r.Postordered (m :: ns)) (hmn : TransGen r.Requires m n) : n ∈ ns := by
  cases h with
  | cons _ hd hreq hns =>
      obtain ⟨k, ⟨e, he, hk⟩, hkn⟩ := TransGen.head'_iff.1 hmn
      rw [hd] at he
      cases he
      exact hns.mem_of_reflTransGen (hreq k hk) hkn

theorem not_requires_self {ns : List TargetName} (h : r.Postordered ns) {n : TargetName}
    (hn : n ∈ ns) : ¬ TransGen r.Requires n n := by
  intro hcycle
  obtain ⟨_, earlier, _, hrest⟩ := h.exists_suffix hn
  have hmem : n ∈ earlier := hrest.mem_tail_of_transGen hcycle
  exact (List.nodup_cons.1 hrest.nodup).1 hmem

/-- On resolved names the expansion of composites never meets the path. -/
theorem leavesOff_eq {ns path : List TargetName} (h : r.Postordered ns)
    (hpath : ∀ a ∈ path, a ∉ ns) {n : TargetName} (hn : n ∈ ns) :
    r.leavesOff path n = r.leaves n := by
  induction h generalizing n path with
  | nil => cases hn
  | @cons m d ms hm hd hreq _ ih =>
      have hms : ∀ a ∈ path, a ∉ ms := fun a ha hmem => hpath a ha (List.mem_cons_of_mem _ hmem)
      rcases List.mem_cons.1 hn with rfl | hn
      · cases d with
        | project p => rw [leavesOff_project hd, leaves_project hd]
        | composite c =>
            have hpn : n ∉ path := fun ha => hpath n ha List.mem_cons_self
            -- What `n` lists was resolved before it, off both `n :: path` and `[n]`.
            have hoff : ∀ k ∈ c.required, r.leavesOff (n :: path) k = r.leavesOff [n] k := by
              intro k hk
              rw [ih (List.forall_mem_cons.2 ⟨hm, hms⟩) (hreq k hk),
                ih (List.forall_mem_cons.2 ⟨hm, by simp⟩) (hreq k hk)]
            unfold leaves
            rw [leavesOff_composite hd hpn, leavesOff_composite hd List.not_mem_nil,
              List.flatMap_congr hoff]
      · exact ih hms hn

/-- A resolved composite stands for the leaves of what it lists. -/
theorem leaves_composite {ns : List TargetName} (h : r.Postordered ns) {n : TargetName}
    (hn : n ∈ ns) {c : Composite} (hc : r.get? n = some (.composite c)) :
    r.leaves n = r.leavesOf c.required := by
  obtain ⟨_, earlier, _, hrest⟩ := h.exists_suffix hn
  cases hrest with
  | cons hnot hd hreq hearlier =>
      rw [hc] at hd
      cases hd
      have hoff : ∀ k ∈ c.required, r.leavesOff [n] k = r.leaves k := fun k hk =>
        hearlier.leavesOff_eq (List.forall_mem_cons.2 ⟨hnot, by simp⟩) (hreq k hk)
      unfold leaves leavesOf
      rw [leavesOff_composite hc List.not_mem_nil, List.flatMap_congr hoff]

end Postordered

/-! ### What an expansion resolves -/

theorem suffix_postorder {path ns resolved resolved' : List TargetName}
    (h : r.postorder path ns resolved = .ok resolved') : resolved <:+ resolved' := by
  fun_induction postorder r path ns resolved generalizing resolved' with
  | case1 => cases h; exact List.suffix_refl _
  | case2 path n ns resolved hmem ih => exact ih h
  | case3 => cases h
  | case4 => cases h
  | case5 => cases h
  | case6 path n ns resolved hmem hp d hn between hbetween ih1 ih2 =>
      exact (ih1 hbetween).trans ((List.suffix_cons n between).trans (ih2 h))

theorem mem_of_postorder {path ns resolved resolved' : List TargetName}
    (h : r.postorder path ns resolved = .ok resolved') {n : TargetName} (hn : n ∈ ns) :
    n ∈ resolved' := by
  fun_induction postorder r path ns resolved generalizing resolved' with
  | case1 => cases hn
  | case2 path m ns resolved hmem ih =>
      rcases List.mem_cons.1 hn with rfl | hn
      · exact (suffix_postorder h).subset hmem
      · exact ih h hn
  | case3 => cases h
  | case4 => cases h
  | case5 => cases h
  | case6 path m ns resolved hmem hp d hm between hbetween ih1 ih2 =>
      rcases List.mem_cons.1 hn with rfl | hn
      · exact (suffix_postorder h).subset List.mem_cons_self
      · exact ih2 h hn

/-- An expansion keeps the resolved names in postorder and off the path. -/
theorem Postordered.postorder {path ns resolved resolved' : List TargetName}
    (hr : r.Postordered resolved) (hpath : ∀ a ∈ path, a ∉ resolved)
    (h : r.postorder path ns resolved = .ok resolved') :
    r.Postordered resolved' ∧ ∀ a ∈ path, a ∉ resolved' := by
  fun_induction Registry.postorder r path ns resolved generalizing resolved' with
  | case1 => cases h; exact ⟨hr, hpath⟩
  | case2 path n ns resolved hmem ih => exact ih hr hpath h
  | case3 => cases h
  | case4 => cases h
  | case5 => cases h
  | case6 path n ns resolved hmem hp d hn between hbetween ih1 ih2 =>
      obtain ⟨hpost, hoff⟩ := ih1 hr (List.forall_mem_cons.2 ⟨hmem, hpath⟩) hbetween
      obtain ⟨hnot, hrest⟩ := List.forall_mem_cons.1 hoff
      have hreq : ∀ m ∈ d.requirements, m ∈ between := fun m hm => mem_of_postorder hbetween hm
      refine ih2 (.cons hnot hn hreq hpost) (fun a ha hmem' => ?_) h
      rcases List.mem_cons.1 hmem' with rfl | hmem'
      · exact hp ha
      · exact hrest a ha hmem'

/-- Only names in reach are resolved. -/
theorem reachable_of_mem_postorder {path ns resolved resolved' : List TargetName}
    (h : r.postorder path ns resolved = .ok resolved') {n : TargetName} (hn : n ∈ resolved') :
    n ∈ resolved ∨ r.Reachable ns n := by
  fun_induction Registry.postorder r path ns resolved generalizing resolved' with
  | case1 => cases h; exact .inl hn
  | case2 path m ns resolved hmem ih =>
      exact (ih h hn).imp_right fun hreach => hreach.mono (List.subset_cons_self m ns)
  | case3 => cases h
  | case4 => cases h
  | case5 => cases h
  | case6 path m ns resolved hmem hp d hm between hbetween ih1 ih2 =>
      rcases ih2 h hn with hn | hreach
      · rcases List.mem_cons.1 hn with rfl | hn
        · exact .inr (.of_mem List.mem_cons_self)
        · exact (ih1 hbetween hn).imp_right (.of_requirements List.mem_cons_self hm)
      · exact .inr (hreach.mono (List.subset_cons_self m ns))

/-! ### Expanding roots -/

theorem postordered_of_postorder {roots resolved : List TargetName}
    (h : r.postorder [] roots [] = .ok resolved) : r.Postordered resolved :=
  (Postordered.nil.postorder (by simp) h).1

/-- The resolved names are the names in reach of the roots. -/
theorem mem_postorder_iff {roots resolved : List TargetName}
    (h : r.postorder [] roots [] = .ok resolved) {n : TargetName} :
    n ∈ resolved ↔ r.Reachable roots n := by
  constructor
  · intro hn
    exact (reachable_of_mem_postorder h hn).resolve_left List.not_mem_nil
  · rintro ⟨m, hm, hmn⟩
    exact (postordered_of_postorder h).mem_of_reflTransGen (mem_of_postorder h hm) hmn

/-! ### The steps of resolved names -/

theorem step?_eq_some_iff {n : TargetName} {s : Step} :
    r.step? n = some s ↔
      ∃ p, r.get? n = some (.project p) ∧ s = ⟨n, r.leavesOf p.requires.names⟩ := by
  unfold step?
  cases h : r.get? n with
  | none => simp
  | some d => cases d <;> simp [eq_comm]

theorem mem_stepsOf_iff {resolved : List TargetName} {s : Step} :
    s ∈ r.stepsOf resolved ↔ s.target ∈ resolved ∧
      ∃ p, r.get? s.target = some (.project p) ∧ s.dependencies = r.leavesOf p.requires.names := by
  simp only [stepsOf, List.mem_reverse, List.mem_filterMap, step?_eq_some_iff]
  constructor
  · rintro ⟨n, hn, p, hp, rfl⟩
    exact ⟨hn, p, hp, rfl⟩
  · rintro ⟨hn, p, hp, hdeps⟩
    refine ⟨s.target, hn, p, hp, ?_⟩
    rw [← hdeps]

theorem mem_targets_stepsOf_iff {resolved : List TargetName} {n : TargetName} :
    n ∈ (r.stepsOf resolved).map Step.target ↔
      n ∈ resolved ∧ ∃ p, r.get? n = some (.project p) := by
  rw [List.mem_map]
  constructor
  · rintro ⟨s, hs, rfl⟩
    obtain ⟨hmem, p, hp, _⟩ := mem_stepsOf_iff.1 hs
    exact ⟨hmem, p, hp⟩
  · rintro ⟨hmem, p, hp⟩
    exact ⟨⟨n, r.leavesOf p.requires.names⟩, mem_stepsOf_iff.2 ⟨hmem, p, hp, rfl⟩, rfl⟩

theorem stepsOf_append_project {n : TargetName} {p : Project} (hp : r.get? n = some (.project p))
    (later earlier : List TargetName) :
    r.stepsOf (later ++ n :: earlier) =
      r.stepsOf earlier ++ ⟨n, r.leavesOf p.requires.names⟩ :: r.stepsOf later := by
  have hstep : r.step? n = some ⟨n, r.leavesOf p.requires.names⟩ :=
    step?_eq_some_iff.2 ⟨p, hp, rfl⟩
  unfold stepsOf
  rw [List.filterMap_append, List.filterMap_cons_some hstep, List.reverse_append,
    List.reverse_cons, List.append_assoc, List.singleton_append]

end BuildPlan.Registry
