import BuildPlan.Target.Name

/-! # Errors of declaring and resolving

Every error is fatal to the operation that met it: no partial result comes with it. -/

namespace BuildPlan

/-- Why a declaration is refused or a set of roots has no plan. -/
inductive PlanError where
  /-- A name was declared again with a different definition. -/
  | duplicateTarget (name : TargetName)
  /-- A composite was declared without requirements. -/
  | emptyComposite (name : TargetName)
  /-- A root, or a requirement of `requiredBy`, was never declared. -/
  | unknownTarget (name : TargetName) (requiredBy : Option TargetName)
  /-- A target requires itself; the cycle starts and ends with the same name. -/
  | cyclicDependency (cycle : List TargetName)
deriving DecidableEq, Repr

/-- The sentence that tells the error to a user. -/
def PlanError.message : PlanError → String
  | .duplicateTarget name =>
      "target '" ++ name.text ++ "' is already declared with a different definition"
  | .emptyComposite name =>
      "composite target '" ++ name.text ++ "' must require at least one target"
  | .unknownTarget name none => "unknown target '" ++ name.text ++ "'"
  | .unknownTarget name (some parent) =>
      "unknown target '" ++ name.text ++ "' (required by '" ++ parent.text ++ "')"
  | .cyclicDependency cycle => "dependency cycle detected: " ++ TargetName.join " -> " cycle

end BuildPlan
