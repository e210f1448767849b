import BuildPlan.CommandLine.Invocation
import BuildPlan.Digest
import BuildPlan.Evaluate
import BuildPlan.Plan.Graph
import BuildPlan.Resolve

/-! # Reports

What each command shows, and the line that tells why it fails.  `plan` without roots resolves
all declared targets before the top-level ones: a cycle that no top-level target leads to is an
error all the same.  A panic breaks a command off without either. -/

namespace BuildPlan

/-- How a command ended, and what happened. -/
structure Execution where
  /-- The report or the reason why there is none; nothing if a panic broke the command off. -/
  result : Option (Except String String)
  /-- What scripts printed. -/
  printed : Bytes
  events : List Event

namespace CommandLine

/-- The text of lines, each with its end. -/
def unlines (lines : List String) : String := String.join (lines.map (· ++ "\n"))

/-- A text with spaces before it up to a width. -/
def alignRight (width : Nat) (s : String) : String :=
  String.ofList (List.replicate (width - s.length) ' ') ++ s

/-- A labelled number or text. -/
def stat (label value : String) : String := "  " ++ label ++ ": " ++ value

/-- Names behind an arrow, if there are any. -/
def arrow (ns : List TargetName) : String :=
  if ns.isEmpty then "" else " → " ++ TargetName.join ", " ns

/-- The numbered targets of a plan. -/
def numbered (p : Plan) : List String :=
  let width := (toString p.size).length
  p.targets.zipIdx.map fun (n, i) => "  " ++ alignRight width (toString (i + 1)) ++ ". " ++ n.text

/-- The waves of a plan, each target with those that depend on it. -/
def waveLines (p : Plan) : List String :=
  let g := Graph.ofPlan p
  let waves := g.waves
  ["", "• " ++ toString waves.length ++ " parallel wave(s)"]
    ++ waves.zipIdx.flatMap fun (wave, i) =>
      stat ("wave " ++ toString (i + 1)) (toString wave.length ++ " target(s)")
        :: wave.map fun n => "    " ++ n.text ++ arrow (g.dependents n)

/-- The report of a plan as text. -/
def planText (roots : List TargetName) (p : Plan) (waves : Bool) : String :=
  unlines <|
    ("• Plan " ++ p.digest.short ++ " (" ++ toString p.size ++ " target(s) from "
        ++ toString roots.length ++ " root(s))")
      :: (numbered p ++ if waves then waveLines p else [])

/-- The report of a plan as a JSON value. -/
def planJson (roots : List TargetName) (p : Plan) : Json :=
  .object [
    ("digest", .text p.digest.text), ("roots", namesJson roots), ("targets", namesJson p.targets),
    ("dependencies", .object (p.table.map fun s => (s.target.text, namesJson s.dependencies))),
    ("waves", .array (p.waves.map namesJson))]

/-- The report of a plan. -/
def planReport (roots : List TargetName) (p : Plan) (waves : Bool) : Format → String
  | .text => planText roots p waves
  | .json => (planJson roots p).pretty ++ "\n"

/-- The report of a check that found no fault. -/
def checkReport (file : String) (r : Registry) (p : Plan) : String :=
  let composites := r.composites.length
  unlines [
    "✓ " ++ file ++ " declares a consistent build",
    stat "Targets" (toString r.size),
    stat "Projects" (toString (r.size - composites)),
    stat "Composites" (toString composites),
    stat "Top-level" (toString r.topLevel.length),
    stat "Plan length" (toString p.size)]

/-- A declared target with its kind and requirements. -/
def targetLine (d : Descriptor) : String :=
  "  " ++ d.name.text ++ " [" ++ d.kind.text ++ "]" ++ arrow d.requirements

/-- The report of the declared targets. -/
def targetsReport (file : String) (r : Registry) : Format → String
  | .text =>
      unlines (("• " ++ toString r.size ++ " target(s) declared in " ++ file)
        :: r.toList.map targetLine)
  | .json => (Json.array (r.toList.map Descriptor.json)).pretty ++ "\n"

/-- Goes on with the registry that a declaration file fills. -/
def withRegistry (w : Workspace) (file : String) (k : Registry → Execution) : Execution :=
  let e := evaluateFile w file
  match e.result with
  | some (.ok r) =>
      let x := k r
      { x with printed := e.printed ++ x.printed, events := e.events ++ x.events }
  | some (.error err) =>
      let message := "Failed to evaluate declarations: " ++ file ++ ": " ++ err.message
      ⟨some (.error message), e.printed, e.events⟩
  | none => ⟨none, e.printed, e.events⟩

/-- Goes on with the plan of some roots; the failure begins with `context`. -/
def withPlan (r : Registry) (roots : List TargetName) (context : String) (k : Plan → Execution) :
    Execution :=
  match resolve r roots with
  | .ok p =>
      let x := k p
      { x with events := resolveEvents r roots ++ x.events }
  | .error err => ⟨some (.error (context ++ ": " ++ err.message)), [], resolveEvents r roots⟩

/-- Goes on with the plan of all declared targets. -/
def withAll (r : Registry) (k : Plan → Execution) : Execution :=
  withPlan r r.names "Declarations do not resolve" k

/-- A report that ends an execution. -/
def report (s : String) : Execution := ⟨some (.ok s), [], []⟩

end CommandLine

open CommandLine in
/-- Carries a command out. -/
def Command.execute (w : Workspace) : Command → Execution
  | .plan file roots waves format =>
      withRegistry w file fun r =>
        let planOf (roots : List TargetName) : Execution :=
          withPlan r roots "Failed to resolve build plan" fun p =>
            report (planReport roots p waves format)
        if roots.isEmpty then withAll r fun _ => planOf r.topLevel
        else planOf (roots.map TargetName.mk)
  | .check file =>
      withRegistry w file fun r => withAll r fun p => report (checkReport file r p)
  | .targets file format => withRegistry w file fun r => report (targetsReport file r format)

end BuildPlan
