import BuildPlan.Target.Name

/-! # Build plans

A plan is a list of steps in build order.  Each step names a leaf target and the leaves that it
directly depends on, composites flattened; no target has two steps.  The order of the steps is
the order in which a single worker may build them. -/

namespace BuildPlan

/-- A leaf of a plan with the leaves it directly depends on. -/
structure Step where
  target : TargetName
  dependencies : List TargetName
deriving DecidableEq, Repr

/-- A flat, dependency-ordered list of leaf targets. -/
structure Plan where
  steps : List Step
  nodup_targets : (steps.map Step.target).Nodup
deriving DecidableEq

namespace Plan

/-- The plan without steps. -/
def empty : Plan := ⟨[], by simp⟩

instance : Inhabited Plan := ⟨empty⟩

/-- The targets in build order. -/
def targets (p : Plan) : List TargetName := p.steps.map Step.target

/-- The number of targets. -/
def size (p : Plan) : Nat := p.steps.length

/-- Whether a target is in the plan. -/
def contains (p : Plan) (n : TargetName) : Bool := p.steps.any fun s => s.target == n

/-- The place of a target in build order, counted from zero. -/
def position? (p : Plan) (n : TargetName) : Option Nat := p.targets.idxOf? n

/-- The leaves that a target directly depends on; none for a name outside the plan. -/
def dependencies (p : Plan) (n : TargetName) : List TargetName :=
  match p.steps.find? fun s => s.target == n with
  | some s => s.dependencies
  | none => []

/-- The steps by name. -/
def table (p : Plan) : List Step := p.steps.mergeSort fun a b => a.target.le b.target

theorem mem_table {p : Plan} {s : Step} : s ∈ p.table ↔ s ∈ p.steps :=
  List.mem_mergeSort

end Plan

end BuildPlan
