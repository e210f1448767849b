import BuildPlan.CommandLine.Report
import BuildPlan.Proofs.Resolve.Closure

/-! # The top-level targets as roots

If all declared names have a plan, the targets that nothing requires lead to all others: every
declared name is required, directly or not, by a top-level one
(`Registry.Postordered.exists_unrequired`).  So the top-level targets as roots have a plan with
the same targets and dependencies, and `plan` without roots, which resolves all names first, does
not fail at its second resolution.  The main statement is `resolve_topLevel`. -/

namespace BuildPlan

open Relation (ReflTransGen)

namespace Registry

variable {r : Registry} {n : TargetName}

/-! ### Names that nothing requires -/

theorem contains_foldl_insertMany (ds : List Descriptor) (s : Std.TreeSet TargetName) :
    (ds.foldl (fun s d => s.insertMany d.requirements) s).contains n = true ↔
      s.contains n = true ∨ ∃ d ∈ ds, n ∈ d.requirements := by
  induction ds generalizing s with
  | nil => simp
  | cons d ds ih =>
      rw [List.foldl_cons, ih, Std.TreeSet.contains_insertMany_list]
      simp [or_assoc]

theorem contains_requiredNames_iff : r.requiredNames.contains n = true ↔ ∃ m, r.Requires m n := by
  unfold requiredNames
  rw [contains_foldl_insertMany]
  constructor
  · rintro (h | ⟨d, hd, hn⟩)
    · simp at h
    · exact ⟨d.name, d, get?_eq_some_iff.2 ⟨hd, rfl⟩, hn⟩
  · rintro ⟨m, d, hd, hn⟩
    exact .inr ⟨d, (get?_eq_some_iff.1 hd).1, hn⟩

/-- The top-level names are the declared names that no declared target requires. -/
theorem mem_topLevel_iff : n ∈ r.topLevel ↔ n ∈ r.names ∧ ∀ m, ¬ r.Requires m n := by
  have hrequired := contains_requiredNames_iff (r := r) (n := n)
  unfold topLevel
  rw [List.mem_filter, Bool.not_eq_true', ← Bool.not_eq_true, hrequired, not_exists]

theorem topLevel_subset_names : r.topLevel ⊆ r.names :=
  fun _ hn => (mem_topLevel_iff.1 hn).1

/-- Among resolved names each is required, directly or not, by one that none of them requires. -/
theorem Postordered.exists_unrequired {ns : List TargetName} (h : r.Postordered ns)
    (hn : n ∈ ns) : ∃ t ∈ ns, ReflTransGen r.Requires t n ∧ ∀ m ∈ ns, ¬ r.Requires m t := by
  induction h generalizing n with
  | nil => cases hn
  | @cons k d ns hk hd hreq hns ih =>
      have hkns : r.Postordered (k :: ns) := .cons hk hd hreq hns
      -- Nothing resolved so far requires the name that was resolved last.
      have hunrequired : ∀ m ∈ k :: ns, ¬ r.Requires m k := by
        intro m hm hmk
        rcases List.mem_cons.1 hm with rfl | hm
        · exact hkns.not_requires_self List.mem_cons_self (.single hmk)
        · exact hk (hns.mem_of_requires hm hmk)
      rcases List.mem_cons.1 hn with rfl | hn
      · exact ⟨n, List.mem_cons_self, .refl, hunrequired⟩
      obtain ⟨t, ht, htn, hfree⟩ := ih hn
      by_cases hkt : r.Requires k t
      · exact ⟨k, List.mem_cons_self, htn.head hkt, hunrequired⟩
      · exact ⟨t, List.mem_cons_of_mem k ht, htn, List.forall_mem_cons.2 ⟨hkt, hfree⟩⟩

/-! ### What top-level names reach -/

section AllNames

variable {resolved : List TargetName} (h : r.postorder [] r.names [] = .ok resolved)

include h

theorem mem_postorder_names_iff : n ∈ resolved ↔ n ∈ r.names := by
  constructor
  · exact fun hn => mem_names_iff.2 ((postordered_of_postorder h).declared hn)
  · exact fun hn => mem_of_postorder h hn

theorem reachable_topLevel_iff : r.Reachable r.topLevel n ↔ n ∈ r.names := by
  have hmem := fun m => mem_postorder_names_iff (n := m) h
  constructor
  · intro hn
    rw [← hmem, mem_postorder_iff h]
    exact hn.mono topLevel_subset_names
  · intro hn
    obtain ⟨t, ht, htn, hfree⟩ :=
      (postordered_of_postorder h).exists_unrequired ((hmem n).2 hn)
    refine ⟨t, mem_topLevel_iff.2 ⟨(hmem t).1 ht, fun m hmt => ?_⟩, htn⟩
    exact hfree m ((hmem m).2 (mem_names_of_requires hmt)) hmt

theorem topLevel_ne_nil (hr : r.names ≠ []) : r.topLevel ≠ [] := by
  obtain ⟨n, hn⟩ := List.exists_mem_of_ne_nil _ hr
  obtain ⟨t, ht, _⟩ := (reachable_topLevel_iff h).2 hn
  exact List.ne_nil_of_mem ht

theorem exists_postorder_topLevel :
    ∃ resolved', r.postorder [] r.topLevel [] = .ok resolved' ∧
      ∀ n, n ∈ resolved' ↔ n ∈ resolved := by
  have hgood := exists_postorder_iff.1 ⟨resolved, h⟩
  obtain ⟨resolved', h'⟩ : ∃ resolved', r.postorder [] r.topLevel [] = .ok resolved' :=
    exists_postorder_iff.2 fun n hn => hgood n (hn.mono topLevel_subset_names)
  refine ⟨resolved', h', fun n => ?_⟩
  rw [mem_postorder_iff h', reachable_topLevel_iff h, mem_postorder_names_iff h]

end AllNames

end Registry

variable {r : Registry} {p : Plan}

/-- What `plan` without roots answers, once its file is evaluated. -/
theorem execute_plan_of_resolve {w : Workspace} {file : String} {q : Plan}
    (hr : (evaluateFile w file).result = some (.ok r)) (hp : resolve r r.names = .ok p)
    (hq : resolve r r.topLevel = .ok q) (waves : Bool) (format : Format) :
    (Command.execute w (.plan file [] waves format)).result =
      some (.ok (CommandLine.planReport r.topLevel q waves format)) := by
  simp only [Command.execute, CommandLine.withRegistry, hr, List.isEmpty_nil, if_true,
    CommandLine.withAll, CommandLine.withPlan, hp, hq, CommandLine.report]

/-- If all declared names have a plan, so have the top-level ones: it holds the declared
projects, each once, with the same dependencies.  There are top-level names unless nothing is
declared, and `plan` without roots reports their plan. -/
theorem resolve_topLevel (hp : resolve r r.names = .ok p) :
    ∃ q, resolve r r.topLevel = .ok q ∧ q.targets.Nodup ∧
      (∀ n, n ∈ q.targets ↔ ∃ x, r.get? n = some (.project x)) ∧
      q.table = p.table ∧
      (r.names ≠ [] → r.topLevel ≠ []) ∧
      ∀ w file waves format, (evaluateFile w file).result = some (.ok r) →
        (Command.execute w (.plan file [] waves format)).result =
          some (.ok (CommandLine.planReport r.topLevel q waves format)) := by
  obtain ⟨resolved, h, hsteps⟩ := resolve_eq_ok_iff.1 hp
  obtain ⟨resolved', h', hmem⟩ := Registry.exists_postorder_topLevel h
  obtain ⟨q, hq, hsteps'⟩ := exists_resolve_of_postorder h'
  refine ⟨q, hq, q.nodup_targets, fun n => ?_, ?_, Registry.topLevel_ne_nil h,
    fun w file waves format hr => execute_plan_of_resolve hr hp hq waves format⟩
  · rw [mem_targets_iff_of_steps hsteps', hmem, Registry.mem_postorder_names_iff h,
      Registry.mem_names_iff]
    exact ⟨fun ⟨_, hx⟩ => hx, fun ⟨x, hx⟩ => ⟨⟨_, hx⟩, x, hx⟩⟩
  · refine Plan.table_eq_of_mem_steps_iff fun s => ?_
    rw [hsteps, hsteps', Registry.mem_stepsOf_iff, Registry.mem_stepsOf_iff, hmem]

/-- A directory with one declaration file, in which a composite stands between two projects. -/
def Workspace.sample : Workspace where
  tree := ⟨[(⟨["b"]⟩, .file (Utf8.encode (
    "project\x7bname='app',requires=\x7b'all'\x7d\x7d" ++
    "composite_target\x7bname='all',required=\x7b'lib'\x7d\x7d" ++
    "project\x7bname='lib'\x7d")))]⟩
  directory := .root

theorem resolve_topLevel_sample :
    ∃ r q, (evaluateFile .sample "b").result = some (.ok r) ∧ r.topLevel = [⟨"app"⟩] ∧
      resolve r r.topLevel = .ok q ∧
      (∀ n, n ∈ q.targets ↔ ∃ x, r.get? n = some (.project x)) ∧
      (Command.execute .sample (.plan "b" [] true .text)).result =
        some (.ok (CommandLine.planReport [⟨"app"⟩] q true .text)) := by
  have hevaluated : (((evaluateFile .sample "b").result.bind Except.toOption).map fun r =>
      ((resolve r r.names).toOption.isSome, r.topLevel)) = some (true, [⟨"app"⟩]) := by
    decide +kernel
  rcases hr : (evaluateFile .sample "b").result with _ | ⟨e | r⟩
  · rw [hr] at hevaluated
    cases hevaluated
  · rw [hr] at hevaluated
    cases hevaluated
  · rw [hr] at hevaluated
    obtain ⟨hsome, htop⟩ := Prod.mk.inj (Option.some.inj hevaluated)
    cases hp : resolve r r.names with
    | error e =>
        rw [hp] at hsome
        cases hsome
    | ok p =>
        obtain ⟨q, hq, -, htargets, -, -, hplan⟩ := resolve_topLevel hp
        refine ⟨r, q, rfl, htop, hq, htargets, ?_⟩
        rw [hplan .sample "b" true .text hr, htop]

end BuildPlan
