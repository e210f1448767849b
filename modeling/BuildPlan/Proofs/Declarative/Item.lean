import BuildPlan.Proofs.FileTree
import BuildPlan.Script.Chunk
import BuildPlan.Session.Declare

/-! # Declarative files

A declarative file only declares targets and includes other files, each with what it needs
written out: names and paths as texts, requirements as lists of texts.  `Chunk.items?` reads off
what such a file says, in the order in which it says it. -/

namespace BuildPlan

section

variable {α β : Type} {f : α → Option β}

theorem mapM_cons_eq_some {x : α} {xs : List α} {ys : List β} (h : (x :: xs).mapM f = some ys) :
    ∃ y ys', f x = some y ∧ xs.mapM f = some ys' ∧ ys = y :: ys' := by
  rw [List.mapM_cons] at h
  obtain ⟨y, hy, h⟩ := Option.bind_eq_some_iff.1 h
  obtain ⟨ys', hys', h⟩ := Option.bind_eq_some_iff.1 h
  exact ⟨y, ys', hy, hys', (Option.some.inj h).symm⟩

theorem exists_of_mem_mapM {xs : List α} {ys : List β} (h : xs.mapM f = some ys) {y : β}
    (hy : y ∈ ys) : ∃ x ∈ xs, f x = some y := by
  induction xs generalizing ys with
  | nil =>
      obtain rfl : [] = ys := Option.some.inj h
      cases hy
  | cons x xs ih =>
      obtain ⟨z, ys', hz, hys', rfl⟩ := mapM_cons_eq_some h
      rcases List.mem_cons.1 hy with rfl | hy
      · exact ⟨x, List.mem_cons_self, hz⟩
      · obtain ⟨x', hx', hxy⟩ := ih hys' hy
        exact ⟨x', List.mem_cons_of_mem _ hx', hxy⟩

end

/-- What a field of a declaration is given. -/
inductive Literal where
  | text (s : String)
  | list (ss : List String)
deriving DecidableEq, Repr

/-- What a declarative file says at one place. -/
inductive Item where
  | declaration (kind : Kind) (spec : Specification)
  | inclusion (path : String)
deriving DecidableEq, Repr

namespace Expr

/-- The bytes of a string that is written out. -/
def bytes? : Expr → Option Bytes
  | .literal (.string bytes) => some bytes
  | _ => none

/-- A text that is written out. -/
def text? (e : Expr) : Option String := e.bytes?.bind fun bytes => (Utf8.decode bytes).toOption

end Expr

namespace Field

/-- An item of a list of texts. -/
def text? : Field → Option String
  | .item e => e.text?
  | .keyed .. => none

end Field

/-- What is written out as a text or a list of texts. -/
def Expr.constant? : Expr → Option Literal
  | .table fields => (fields.mapM Field.text?).map .list
  | e => e.text?.map .text

/-- A field with its key. -/
def Field.entry? : Field → Option (Bytes × Literal)
  | .keyed key value _ => do return (← key.bytes?, ← value.constant?)
  | .item _ => none

namespace Specification

/-- What the fields of a declaration say about its target, if they are well-formed: there is a
name that is not blank, and a list of requirements, which only a project can do without.  Of two
fields with one key the last one counts. -/
def ofEntries? (kind : Kind) (entries : List (Bytes × Literal)) : Option Specification :=
  match entries.reverse.lookup (Utf8.encode "name"),
    entries.reverse.lookup (Utf8.encode kind.field) with
  | some (.text name), some (.list requirements) =>
      if isBlank name then none else some ⟨name, requirements⟩
  | some (.text name), none =>
      if kind = .project ∧ ¬isBlank name then some ⟨name, []⟩ else none
  | _, _ => none

end Specification

namespace Expr

/-- The declaration of a target of a kind with the fields of a table. -/
def declaration? (kind : Kind) : Expr → Option Item
  | .table fields => do
      let spec ← Specification.ofEntries? kind (← fields.mapM Field.entry?)
      return .declaration kind spec
  | _ => none

/-- A call that declares a target or includes a file. -/
def item? : Expr → Option Item
  | .call (.name f) [e] _ =>
      if f = Kind.function .project then e.declaration? .project
      else if f = Kind.function .composite then e.declaration? .composite
      else if f = "include" then e.text?.map .inclusion
      else none
  | _ => none

end Expr

/-- A statement that declares a target or includes a file. -/
def Statement.item? : Statement → Option Item
  | .call e => e.item?
  | _ => none

/-- What a chunk says, if it does nothing but declare targets and include files. -/
def Chunk.items? (c : Chunk) : Option (List Item) := do
  return (← c.statements.mapM Statement.item?) ++ (← c.answers.mapM Expr.item?)

end BuildPlan
