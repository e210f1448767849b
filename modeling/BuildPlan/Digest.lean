import BuildPlan.Digest.Sha256
import BuildPlan.Json
import BuildPlan.Plan
import BuildPlan.Target.Descriptor

/-! # Canonical texts and digests

Plans and descriptors have one compact JSON text each, and the digest of a plan is the start
of the SHA-256 hash of its text, so equal plans have equal digests. -/

namespace BuildPlan

/-- A short identifier of a value: twenty lower-case hexadecimal digits. -/
structure Digest where
  text : String
deriving DecidableEq, Repr

/-- The two hexadecimal digits of a byte. -/
def hexByte (b : UInt8) : List Char :=
  [Json.Quoted.hexDigit (b.toNat / 16), Json.Quoted.hexDigit (b.toNat % 16)]

/-- The digest of a JSON value: the first ten bytes of the hash of its compact text. -/
def Json.digest (v : Json) : Digest :=
  ⟨String.ofList (((Sha256.hash v.compact.toUTF8.toList).take 10).flatMap hexByte)⟩

/-- The first twelve digits, which are shown to users. -/
def Digest.short (d : Digest) : String := String.ofList (d.text.toList.take 12)

/-- An array of names. -/
def namesJson (ns : List TargetName) : Json := .texts (ns.map TargetName.text)

/-- The canonical value of a plan: its targets in build order and the dependencies of each,
by name. -/
def Plan.json (p : Plan) : Json :=
  .object [
    ("targets", namesJson p.targets),
    ("dependencies", .object (p.table.map fun s => (s.target.text, namesJson s.dependencies)))]

/-- The digest of a plan. -/
def Plan.digest (p : Plan) : Digest := p.json.digest

/-- The canonical value of a descriptor, with its kind first. -/
def Descriptor.json : Descriptor → Json
  | .project p =>
      .object [("kind", .text Kind.project.text), ("name", .text p.name.text),
        ("requires", namesJson p.requires.names)]
  | .composite c =>
      .object [("kind", .text Kind.composite.text), ("name", .text c.name.text),
        ("required", namesJson c.required)]

/-- The value that a name is written as. -/
def TargetName.json (n : TargetName) : Json := .text n.text

/-- The value that a digest is written as. -/
def Digest.json (d : Digest) : Json := .text d.text

/-- The name that a JSON text stands for, if it is one quoted string. -/
def TargetName.ofJson? (source : String) : Option TargetName :=
  (readJsonText? source).map TargetName.mk

/-- The digest that a JSON text stands for, if it is one quoted string. -/
def Digest.ofJson? (source : String) : Option Digest := (readJsonText? source).map Digest.mk

end BuildPlan
