import BuildPlan.Proofs.Declarative.Reading
import BuildPlan.Proofs.FileTree
import BuildPlan.Proofs.Session.Inclusion

/-! # Flattening declarative files

What a run of declarative files has to come to: the declarations of the start file in order, every
include replaced by the contents of the file that it names as seen from the directory of the
including file (`flatten`).  A file that cannot be read, or that is open above its include, is a
part too: a failure (`Part.failure`), at which registering the declarations ends (`Part.apply`).

`flatten` takes the way in which texts are read as an argument that also gets the number of files
which are open: `Item.anywhere?` reads a text inside any number of them, `Item.fitting?` only
where there is still room for it. -/

namespace BuildPlan

/-- A part of a run: a target that is declared, or a failure. -/
inductive Part where
  | declaration (kind : Kind) (spec : Specification)
  | failure
deriving DecidableEq, Repr

/-- The registry after a part, or why there is none: the error of the declaration, if it is one. -/
def Part.apply (r : Registry) : Part → Except (Option PlanError) Registry
  | .declaration kind spec => (r.declare kind spec).mapError some
  | .failure => .error none

namespace Item

/-- What a text says, if it is that of a declarative file. -/
def ofText? (text : String) : Option (List Item) :=
  (Chunk.ofText Session.levelLimit text).toOption.bind Chunk.items?

/-- What a text says, inside however many open files. -/
def anywhere? (_ : Nat) (text : String) : Option (List Item) := ofText? text

/-- What a text says inside `n` open files, if there are levels left to read and to run it. -/
def fitting? (n : Nat) (text : String) : Option (List Item) :=
  if n < Session.levelLimit ∧ (Chunk.ofText (Session.levelLimit - n) text).isOk then ofText? text
  else none

theorem fitting?_eq_some_iff {n : Nat} {text : String} {items : List Item} :
    fitting? n text = some items ↔ n < Session.levelLimit ∧
      (Chunk.ofText (Session.levelLimit - n) text).isOk ∧ ofText? text = some items := by
  unfold fitting?
  split
  next h => exact ⟨fun hitems => ⟨h.1, h.2, hitems⟩, fun hitems => hitems.2.2⟩
  next h => exact ⟨fun hnone => (nomatch hnone), fun hitems => absurd ⟨hitems.1, hitems.2.1⟩ h⟩

/-- Where there is room for a text, it is read as with all levels left. -/
theorem fitting?_eq_ofText? {n room : Nat} {text : String} (hroom : 0 < room)
    (hn : n + room ≤ Session.levelLimit) (hread : (Chunk.ofText room text).isOk) :
    fitting? n text = ofText? text := by
  have hlt : n < Session.levelLimit := by omega
  have hle : room ≤ Session.levelLimit - n := by omega
  exact if_pos ⟨hlt, Chunk.isOk_ofText_of_le hle hread⟩

/-- The parts of an item, given those of an included file. -/
def parts (included : String → List Part) : Item → List Part
  | .declaration kind spec => [.declaration kind spec]
  | .inclusion path => included path

end Item

variable {w : Workspace} {items? : Nat → String → Option (List Item)} {opened : List Location}
  {l m : Location} {text path : String} {items : List Item}

/-- The parts of the file that a path has led to, while some files are open. -/
def flatten (w : Workspace) (items? : Nat → String → Option (List Item)) (opened : List Location)
    (found : Except PathError Location) : List Part :=
  match found with
  | .error _ => [.failure]
  | .ok l =>
      match _ : w.tree.read l with
      | .error _ => [.failure]
      | .ok text =>
          if _ : l ∈ opened then [.failure]
          else
            match items? opened.length text with
            | none => [.failure]
            | some items =>
                items.flatMap (Item.parts fun path =>
                  flatten w items? (l :: opened) (w.tree.named l.parent path))
termination_by (w.files \ opened.toFinset).card
decreasing_by
  have hcard := Workspace.card_files_sdiff_cons ‹w.tree.read l = .ok text› ‹l ∉ opened›
  omega

/-- A file that an evaluation can come to: the one at a path, and what is included by any. -/
inductive Workspace.Included (w : Workspace) (path : String) : Location → Prop
  | start {l : Location} (hl : w.tree.follow w.directory path = .ok l) : Included w path l
  | step {l m : Location} {text : String} {items : List Item} {path' : String}
      (hl : Included w path l) (htext : w.tree.read l = .ok text)
      (hitems : Item.ofText? text = some items) (hpath : .inclusion path' ∈ items)
      (hm : w.tree.named l.parent path' = .ok m) : Included w path m

/-- The working directory stands where its path leads, and all files that an evaluation can come
to are declarative. -/
structure Workspace.Declarative (w : Workspace) (path : String) : Prop where
  directory : w.tree.follow w.directory w.directory.path = .ok w.directory
  items : ∀ l text, w.Included path l → w.tree.read l = .ok text → (Item.ofText? text).isSome

/-- The same files on another machine. -/
def Workspace.on (w : Workspace) (m : Machine) : Workspace := { w with machine := m }

theorem Workspace.Included.of_on {m : Machine} (h : (w.on m).Included path l) :
    w.Included path l := by
  induction h with
  | start hl => exact .start hl
  | step _ htext hitems hpath hm ih => exact .step ih htext hitems hpath hm

theorem Workspace.Declarative.on (h : w.Declarative path) (m : Machine) :
    (w.on m).Declarative path where
  directory := h.directory
  items l text hl := h.items l text hl.of_on

/-- What files come to does not depend on the machine. -/
theorem flatten_on (m : Machine) (found : Except PathError Location) :
    flatten (w.on m) items? opened found = flatten w items? opened found := by
  delta flatten flatten._unary
  rfl

theorem flatten_of_error {e : PathError} : flatten w items? opened (.error e) = [.failure] := by
  rw [flatten]

theorem flatten_of_unreadable {e : PathError} (htext : w.tree.read l = .error e) :
    flatten w items? opened (.ok l) = [.failure] := by
  rw [flatten]
  split
  · rfl
  next htext' =>
    rw [htext] at htext'
    cases htext'

theorem flatten_of_mem (hl : l ∈ opened) : flatten w items? opened (.ok l) = [.failure] := by
  rw [flatten]
  split
  · rfl
  · rw [dif_pos hl]

theorem flatten_of_none (h : items? opened.length text = none) (htext : w.tree.read l = .ok text) :
    flatten w items? opened (.ok l) = [.failure] := by
  rw [flatten]
  split
  · rfl
  next htext' =>
    rw [htext] at htext'
    cases htext'
    split
    · rfl
    · rw [h]

theorem flatten_of_some (h : items? opened.length text = some items)
    (htext : w.tree.read l = .ok text) (hl : l ∉ opened) :
    flatten w items? opened (.ok l) = items.flatMap (Item.parts fun path =>
      flatten w items? (l :: opened) (w.tree.named l.parent path)) := by
  rw [flatten]
  split
  next htext' =>
    rw [htext] at htext'
    cases htext'
  next htext' =>
    rw [htext] at htext'
    cases htext'
    rw [dif_neg hl, h]

/-- With no level left there is nothing but a failure. -/
theorem flatten_of_limit (h : Session.levelLimit ≤ opened.length)
    (found : Except PathError Location) :
    flatten w Item.fitting? opened found = [.failure] := by
  cases found with
  | error e => exact flatten_of_error
  | ok l =>
      cases htext : w.tree.read l with
      | error e => exact flatten_of_unreadable htext
      | ok text =>
          refine flatten_of_none ?_ htext
          unfold Item.fitting?
          rw [if_neg]
          exact fun hfits => absurd hfits.1 (Nat.not_lt.2 h)

/-- Whether all texts of a tree are those of declarative files. -/
def FileTree.isDeclarative (t : FileTree) : Bool :=
  t.entries.all fun e =>
    match e.2 with
    | .file content => (Utf8.decode content).toOption.all fun text => (Item.ofText? text).isSome
    | .directory => true

theorem FileTree.isSome_of_isDeclarative {t : FileTree} (h : t.isDeclarative)
    (htext : t.read l = .ok text) : (Item.ofText? text).isSome := by
  obtain ⟨content, hlookup, hdecode⟩ := FileTree.read_eq_ok_iff.1 htext
  obtain ⟨before, after, hentries, -⟩ := List.lookup_eq_some_iff.1 hlookup
  have hmem : (l, Entry.file content) ∈ t.entries := by simp [hentries]
  have hfile := List.all_eq_true.1 h _ hmem
  simpa [hdecode, Except.toOption] using hfile

/-- Wherever an evaluation comes to is where a path of the tree leads to. -/
theorem Workspace.Declarative.standing (hw : w.Declarative path) (hl : w.Included path l) :
    w.tree.Standing l := by
  have hdirectory : w.tree.Standing w.directory := .of_follow_path hw.directory
  induction hl with
  | start hl => exact hdirectory.of_follow hl
  | step _ _ _ _ hm ih => exact ih.parent.of_named _ hm

end BuildPlan
