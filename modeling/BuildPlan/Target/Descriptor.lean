import BuildPlan.Distinct
import BuildPlan.PlanError
import BuildPlan.Target.NameSet

/-! # Target descriptors

A target is a project, a leaf with the set of targets it needs, or a composite, a group that
stands for the targets it lists.  The types hold what every descriptor keeps: the
requirements of a project form a set, those of a composite are distinct and at least one. -/

namespace BuildPlan

/-- The two kinds of targets. -/
inductive Kind where
  | project
  | composite
deriving DecidableEq, Repr

/-- The word for a kind. -/
def Kind.text : Kind → String
  | .project => "project"
  | .composite => "composite"

/-- A leaf: one buildable unit and the set of targets it needs. -/
structure Project where
  name : TargetName
  requires : NameSet
deriving DecidableEq

/-- A project without requirements. -/
def Project.leaf (name : TargetName) : Project := ⟨name, .empty⟩

/-- The project with further requirements. -/
def Project.withRequires (p : Project) (names : List TargetName) : Project :=
  { p with requires := p.requires.insertAll names }

/-- A group of targets, in the order in which they were first listed. -/
structure Composite where
  name : TargetName
  required : List TargetName
  required_ne_nil : required ≠ []
  nodup_required : required.Nodup
deriving DecidableEq

/-- The composite of the listed targets; repeated names are dropped, an empty list is refused. -/
def Composite.ofList (name : TargetName) (names : List TargetName) : Except PlanError Composite :=
  if h : names = [] then .error (.emptyComposite name)
  else .ok ⟨name, distinct names, mt distinct_eq_nil_iff.1 h, nodup_distinct names⟩

/-- Whatever can be declared. -/
inductive Descriptor where
  | project (p : Project)
  | composite (c : Composite)
deriving DecidableEq

namespace Descriptor

/-- The name under which a descriptor is declared. -/
def name : Descriptor → TargetName
  | .project p => p.name
  | .composite c => c.name

/-- The kind of a descriptor. -/
def kind : Descriptor → Kind
  | .project _ => .project
  | .composite _ => .composite

/-- The direct requirements in the order in which resolution visits them: those of a project
by name, those of a composite as listed. -/
def requirements : Descriptor → List TargetName
  | .project p => p.requires.names
  | .composite c => c.required

/-- The composite behind a descriptor, if it is one. -/
def composite? : Descriptor → Option Composite
  | .project _ => none
  | .composite c => some c

theorem nodup_requirements (d : Descriptor) : d.requirements.Nodup := by
  cases d with
  | project p =>
      refine p.requires.ascending.imp fun {a b} hab e => ?_
      subst e
      exact TargetName.lt_irrefl a hab
  | composite c => exact c.nodup_required

end Descriptor

end BuildPlan
