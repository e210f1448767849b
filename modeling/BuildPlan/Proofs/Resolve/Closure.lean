import BuildPlan.Proofs.Plan
import BuildPlan.Proofs.Resolve.Failure

/-! # The targets of a resolved plan

A plan holds the projects in reach of its roots.  Resolution has a plan exactly if everything in
reach is declared and nothing in reach requires itself (`resolve_succeeds_iff`): a cycle is never
missed, and names that are required along several chains are no cycle. -/

namespace BuildPlan

open Relation (TransGen)

variable {r : Registry} {roots : List TargetName} {p : Plan}

theorem exists_resolve_iff :
    (∃ p, resolve r roots = .ok p) ↔ ∃ resolved, r.postorder [] roots [] = .ok resolved := by
  constructor
  · rintro ⟨p, hp⟩
    obtain ⟨resolved, h, _⟩ := resolve_eq_ok_iff.1 hp
    exact ⟨resolved, h⟩
  · rintro ⟨resolved, h⟩
    obtain ⟨p, hp, _⟩ := exists_resolve_of_postorder h
    exact ⟨p, hp⟩

theorem mem_targets_iff_of_steps {resolved : List TargetName} (h : p.steps = r.stepsOf resolved)
    {n : TargetName} :
    n ∈ p.targets ↔ n ∈ resolved ∧ ∃ q, r.get? n = some (.project q) := by
  unfold Plan.targets
  rw [h, Registry.mem_targets_stepsOf_iff]

/-- The targets of a resolved plan are the projects in reach of the roots. -/
theorem mem_targets_iff (hp : resolve r roots = .ok p) {n : TargetName} :
    n ∈ p.targets ↔ r.Reachable roots n ∧ ∃ q, r.get? n = some (.project q) := by
  obtain ⟨resolved, h, hsteps⟩ := resolve_eq_ok_iff.1 hp
  rw [mem_targets_iff_of_steps hsteps, Registry.mem_postorder_iff h]

/-- Resolution succeeds exactly if every name in reach is declared and none of them requires
itself, directly or not; its plan then holds the projects in reach, each once. -/
theorem resolve_succeeds_iff (r : Registry) (roots : List TargetName) :
    ((∃ p, resolve r roots = .ok p) ↔
      (∀ n, r.Reachable roots n → n ∈ r.names) ∧
        ∀ n, r.Reachable roots n → ¬ TransGen r.Requires n n) ∧
    ∀ p, resolve r roots = .ok p →
      p.targets.Nodup ∧
        ∀ n, n ∈ p.targets ↔ r.Reachable roots n ∧ ∃ q, r.get? n = some (.project q) := by
  constructor
  · rw [exists_resolve_iff, Registry.exists_postorder_iff]
    constructor
    · intro h
      exact ⟨fun n hn => (h n hn).1, fun n hn => (h n hn).2⟩
    · rintro ⟨hdeclared, hacyclic⟩ n hn
      exact ⟨hdeclared n hn, hacyclic n hn⟩
  · intro p hp
    exact ⟨p.nodup_targets, fun n => mem_targets_iff hp⟩

theorem exists_resolve_workspace :
    ∃ p, resolve Registry.workspace [⟨"all"⟩] = .ok p ∧
      p.targets = [⟨"util"⟩, ⟨"core"⟩, ⟨"net"⟩, ⟨"app"⟩, ⟨"tool"⟩] := by
  have htargets : (resolve Registry.workspace [⟨"all"⟩]).toOption.map Plan.targets =
      some [⟨"util"⟩, ⟨"core"⟩, ⟨"net"⟩, ⟨"app"⟩, ⟨"tool"⟩] := by decide +kernel
  cases hp : resolve Registry.workspace [⟨"all"⟩] with
  | error e =>
      rw [hp] at htargets
      cases htargets
  | ok p =>
      rw [hp] at htargets
      exact ⟨p, rfl, Option.some.inj htargets⟩

theorem resolve_succeeds_iff_workspace :
    ∃ p, resolve Registry.workspace [⟨"all"⟩] = .ok p ∧ p.targets.Nodup ∧
      ∀ n, n ∈ p.targets ↔ Registry.workspace.Reachable [⟨"all"⟩] n ∧
        ∃ q, Registry.workspace.get? n = some (.project q) := by
  obtain ⟨p, hp, _⟩ := exists_resolve_workspace
  exact ⟨p, hp, (resolve_succeeds_iff Registry.workspace [⟨"all"⟩]).2 p hp⟩

end BuildPlan
