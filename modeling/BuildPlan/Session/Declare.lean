import BuildPlan.Session

/-! # Declaring targets from scripts

A declaration function takes one table with a name and a list of requirements.  The checks are
pure (`Specification.read`): a specification that is refused changes nothing, and one that is
read is declared in the registry as any other.

Room for the names is made before any of them is read, for as many as the table is long.  The
length of a table with holes can be far beyond its values, and then the function panics.  Where a
number of names is one that room can be made for, the memory is taken to be there. -/

namespace BuildPlan

/-- What a script says about a target. -/
structure Specification where
  name : String
  requirements : List String
deriving DecidableEq, Repr

namespace Specification

/-- The name of a target: a string or number whose text is not blank. -/
def readName (kind : Kind) (s : Session) (t : Table) : Except Interruption String :=
  match t.get (.text "name") with
  | .nil => .error (.fault (.declaration (.missingName kind)))
  | v =>
      match s.take v with
      | .error i => .error i
      | .ok v =>
          match v.toText with
          | .error _ => .error (.fault (.declaration (.nameNotText kind)))
          | .ok name =>
              if isBlank name then .error (.fault (.declaration (.blankName kind))) else .ok name

/-- The names in a list of requirements, which must all be strings. -/
def readEntries (kind : Kind) (target : String) (s : Session) :
    List Value → Except Interruption (List String)
  | [] => .ok []
  | v :: vs =>
      match s.take v with
      | .error i => .error i
      | .ok (.string bytes) =>
          match Utf8.decode bytes with
          | .error place => .error (.fault (.conversion (.badEntry place)))
          | .ok name => (readEntries kind target s vs).map (name :: ·)
      | .ok v => .error (.fault (.declaration (.entryNotText kind target v.type)))

/-- The most names that room can be made for: each takes 24 bytes, and the number of all these
bytes is one of 63 bits. -/
def mostNames : Nat := 0x7fffffffffffffff / 24

/-- Room can be made for as many names as a table is long.  There is room for one name in place of
each field that a table has. -/
def HasRoom (s : Session) (r : Ref) : Prop :=
  s.length r ≤ max mostNames (s.heap.get r).fields.length

instance (s : Session) (r : Ref) : Decidable (HasRoom s r) :=
  inferInstanceAs (Decidable (_ ≤ _))

/-- The names in the list of requirements at a place. -/
def readList (kind : Kind) (target : String) (s : Session) (r : Ref) :
    Except Interruption (List String) :=
  if HasRoom s r then readEntries kind target s (s.heap.get r).sequence else .error .panic

/-- The requirements of a target: the list may be left out for a project only. -/
def readRequirements (kind : Kind) (target : String) (s : Session) (t : Table) :
    Except Interruption (List String) :=
  match s.take (t.get (.text kind.field)) with
  | .error i => .error i
  | .ok v =>
      match kind, v with
      | _, .table r => readList kind target s r
      | .project, .nil => .ok []
      | .composite, .nil => .error (.fault (.declaration (.missingRequirements kind target)))
      | _, v => .error (.fault (.declaration (.requirementsNotTable kind target v.type)))

/-- What the arguments of a declaration function say. -/
def read (kind : Kind) (s : Session) (arguments : List Value) :
    Except Interruption Specification := do
  let r ← s.takeTable .argument (arguments.headD .nil)
  let name ← readName kind s (s.heap.get r)
  let requirements ← readRequirements kind name s (s.heap.get r)
  return ⟨name, requirements⟩

end Specification

namespace Registry

/-- Declares a target of a kind. -/
def declare (r : Registry) (kind : Kind) (spec : Specification) : Except PlanError Registry :=
  let name : TargetName := ⟨spec.name⟩
  let requirements := spec.requirements.map TargetName.mk
  match kind with
  | .project => r.register (.project ((Project.leaf name).withRequires requirements))
  | .composite => r.compose name requirements

/-- The events of declaring a target of a kind. -/
def declareEvents (r : Registry) (kind : Kind) (spec : Specification) : List Event :=
  let name : TargetName := ⟨spec.name⟩
  let requirements := spec.requirements.map TargetName.mk
  match kind with
  | .project => r.registerEvents (.project ((Project.leaf name).withRequires requirements))
  | .composite => r.composeEvents name requirements

end Registry

/-- Declares the target that the arguments of a declaration function specify. -/
def Run.declare (kind : Kind) (arguments : List Value) : Run Unit := do
  let s ← get
  let spec ← check (Specification.read kind s arguments)
  log (s.registry.declareEvents kind spec)
  match s.registry.declare kind spec with
  | .ok registry => modify fun s => { s with registry }
  | .error e => fault (.plan e)

end BuildPlan
