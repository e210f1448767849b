import Std.Data.TreeMap
import BuildPlan.Plan

/-! # The graph of a plan

Nodes are the steps of a plan in build order, and edges run from a dependency to the targets
that depend on it.  Since dependencies come first in a plan, one pass over the nodes gives each
its level, and the nodes of a level form a wave: targets that may be built in parallel. -/

namespace BuildPlan

/-- A target with the indices of the nodes it depends on. -/
structure Node where
  target : TargetName
  incoming : List Nat
deriving DecidableEq, Repr

/-- The nodes of a plan, in build order. -/
structure Graph where
  nodes : List Node
deriving DecidableEq, Repr

namespace Graph

/-- The index of every name of a list. -/
def indexOf (ns : List TargetName) : Std.TreeMap TargetName Nat := Std.TreeMap.ofList ns.zipIdx

/-- The graph of a plan; dependencies outside the plan have no edge. -/
def ofPlan (p : Plan) : Graph :=
  let index := indexOf p.targets
  ⟨p.steps.map fun s => ⟨s.target, s.dependencies.filterMap fun d => index[d]?⟩⟩

/-- The number of nodes. -/
def nodeCount (g : Graph) : Nat := g.nodes.length

/-- The number of edges. -/
def edgeCount (g : Graph) : Nat := (g.nodes.flatMap fun v => v.incoming).length

/-- The targets that directly depend on a name, in build order, one for every edge. -/
def dependents (g : Graph) (n : TargetName) : List TargetName :=
  match g.nodes.findIdx? fun v => v.target == n with
  | none => []
  | some i => g.nodes.flatMap fun v => (v.incoming.filter (· == i)).map fun _ => v.target

/-- One past the highest level among the dependencies that have one. -/
def levelOf (levels : Array Nat) (v : Node) : Nat :=
  v.incoming.foldl (fun l i => match levels[i]? with
    | some m => max l (m + 1)
    | none => l) 0

/-- The levels of several nodes, after those of the nodes before them. -/
def levelsFrom (levels : Array Nat) : List Node → Array Nat
  | [] => levels
  | v :: vs => levelsFrom (levels.push (levelOf levels v)) vs

/-- The level of every node, in build order. -/
def levels (g : Graph) : List Nat := (levelsFrom #[] g.nodes).toList

/-- Puts a target at the end of the wave of its level. -/
def place (waves : Array (Array TargetName)) (n : TargetName) (level : Nat) :
    Array (Array TargetName) :=
  let waves := if waves.size ≤ level then waves ++ Array.replicate (level + 1 - waves.size) #[]
    else waves
  waves.modify level (·.push n)

/-- The targets of each level, in build order. -/
def waves (g : Graph) : List (List TargetName) :=
  let placed := (g.nodes.zip g.levels).foldl (fun ws (v, l) => place ws v.target l) #[]
  placed.toList.map Array.toList

end Graph

namespace Plan

/-- The targets that directly depend on a name, in build order. -/
def dependents (p : Plan) (n : TargetName) : List TargetName := (Graph.ofPlan p).dependents n

/-- The targets in groups that may be built in parallel, each group after the groups that hold
its dependencies. -/
def waves (p : Plan) : List (List TargetName) := (Graph.ofPlan p).waves

end Plan

end BuildPlan
