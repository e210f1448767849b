import BuildPlan.FileTree.Path
import BuildPlan.Text.Utf8

/-! # File trees

A file tree says what stands at which location.  `FileTree.follow` finds the location that a
path leads to, and `FileTree.read` the text of a file; both tell why they fail as the usual
file systems do.  Nothing in a tree is a link. -/

namespace BuildPlan

/-- What stands at a location. -/
inductive Entry where
  | file (content : Bytes)
  | directory
deriving DecidableEq, Repr

/-- Why a path leads to no file that can be read. -/
inductive PathError where
  | notFound
  | notDirectory
  | isDirectory
  | nameTooLong
  | notText
  | badCharacter
deriving DecidableEq, Repr

/-- The sentence that tells the error to a user. -/
def PathError.message : PathError → String
  | .notFound => "No such file or directory (os error 2)"
  | .notDirectory => "Not a directory (os error 20)"
  | .isDirectory => "Is a directory (os error 21)"
  | .nameTooLong => "File name too long (os error 36)"
  | .notText => "stream did not contain valid UTF-8"
  | .badCharacter => "file name contained an unexpected NUL byte"

/-- Files and directories by location.  The directories on the way to an entry need no entry. -/
structure FileTree where
  entries : List (Location × Entry)

namespace FileTree

/-- What stands at a location. -/
def get? (t : FileTree) (l : Location) : Option Entry :=
  match t.entries.lookup l with
  | some e => some e
  | none => if l = .root ∨ t.entries.any (l.holds ·.1) then some .directory else none

/-- The longest name of a file or directory, in bytes. -/
def nameLimit : Nat := 255

/-- The longest path of a file or directory, in bytes. -/
def pathLimit : Nat := 4095

/-- Whether the path of a name in a place is too long. -/
def pathTooLong (l : Location) (name : String) : Bool :=
  pathLimit < (l.child name).path.utf8ByteSize

/-- Why components lead nowhere from a file: it is no directory, unless the first name among them
makes a path that is too long to be looked at. -/
def behindFile (l : Location) (cs : List String) : PathError :=
  match cs.dropWhile fun c => c = "" ∨ c = "." with
  | [] => .notDirectory
  | c :: _ => if c ≠ ".." ∧ pathTooLong l c then .nameTooLong else .notDirectory

/-- Goes from a location along the components of a path.  Every component, `.` and an empty one
included, needs a directory to start from. -/
def walk (t : FileTree) (l : Location) : List String → Except PathError Location
  | [] => .ok l
  | c :: cs =>
      match t.get? l with
      | none => .error .notFound
      | some (.file _) => .error (behindFile l (c :: cs))
      | some .directory =>
          if c = "" ∨ c = "." then t.walk l cs
          else if c = ".." then t.walk l.parent cs
          else if nameLimit < c.utf8ByteSize || pathTooLong l c then .error .nameTooLong
          else
            match t.get? (l.child c) with
            | none => .error .notFound
            | some _ => t.walk (l.child c) cs

/-- The location that a path leads to from a directory. -/
def follow (t : FileTree) (start : Location) (path : String) : Except PathError Location :=
  if path.toList.contains '\x00' then .error .badCharacter
  else if path.isEmpty then .error .notFound
  else t.walk (if Path.isAbsolute path then .root else start) (Path.components path)

/-- The text of the file at a location. -/
def read (t : FileTree) (l : Location) : Except PathError String :=
  match t.get? l with
  | none => .error .notFound
  | some .directory => .error .isDirectory
  | some (.file content) =>
      match Utf8.decode content with
      | .ok text => .ok text
      | .error _ => .error .notText

/-- The locations of the files. -/
def files (t : FileTree) : List Location :=
  t.entries.filterMap fun e =>
    match e.2 with
    | .file _ => some e.1
    | .directory => none

/-- A location that leads to a readable text is one of the files. -/
theorem mem_files_of_read {t : FileTree} {l : Location} {text : String}
    (h : t.read l = .ok text) : l ∈ t.files := by
  unfold read get? at h
  cases hl : t.entries.lookup l with
  | none =>
      rw [hl] at h
      by_cases hd : l = .root ∨ t.entries.any (l.holds ·.1)
      · simp only [if_pos hd, reduceCtorEq] at h
      · simp only [if_neg hd, reduceCtorEq] at h
  | some e =>
      rw [hl] at h
      cases e with
      | directory => simp at h
      | file content =>
          obtain ⟨before, after, he, _⟩ := List.lookup_eq_some_iff.1 hl
          exact List.mem_filterMap.2 ⟨(l, .file content), by simp [he], rfl⟩

end FileTree

end BuildPlan
