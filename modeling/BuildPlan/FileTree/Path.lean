/-! # Paths

A path is a text whose components stand between slashes; it is absolute if it begins with one.
A location is a path that has been followed: the names that lead from the root to a file or
directory. -/

namespace BuildPlan

/-- The names on the way from the root to a file or directory. -/
structure Location where
  names : List String
deriving DecidableEq, Repr

namespace Location

/-- The root of all files. -/
def root : Location := ⟨[]⟩

/-- The location of a name in a directory. -/
def child (l : Location) (name : String) : Location := ⟨l.names ++ [name]⟩

/-- The directory that holds a location; the root holds itself. -/
def parent (l : Location) : Location := ⟨l.names.dropLast⟩

/-- The absolute path of a location. -/
def path (l : Location) : String := "/" ++ "/".intercalate l.names

/-- Whether one location is another or holds it at some depth. -/
def holds (l m : Location) : Bool := l.names.isPrefixOf m.names

end Location

namespace Path

/-- The parts of a text between slashes, of which there is one more than slashes. -/
def split : List Char → List (List Char)
  | [] => [[]]
  | c :: cs =>
      if c = '/' then [] :: split cs
      else
        match split cs with
        | [] => [[c]]
        | part :: parts => (c :: part) :: parts

/-- The components of a path. -/
def components (path : String) : List String := (split path.toList).map String.ofList

/-- Whether a path starts at the root. -/
def isAbsolute (path : String) : Bool := path.toList.head? = some '/'

/-- The second path as seen from the directory with the first path: an absolute one stands for
itself, and no slash is put behind nothing or behind another slash. -/
def join (directory path : String) : String :=
  if isAbsolute path then path
  else if directory.isEmpty ∨ directory.toList.getLast? = some '/' then directory ++ path
  else directory ++ "/" ++ path

/-- The locations that a path passes on its way from a location. -/
def trail (l : Location) : List String → List Location
  | [] => [l]
  | c :: cs =>
      if c = "" ∨ c = "." then trail l cs
      else if c = ".." then trail l.parent cs
      else l :: trail (l.child c) cs

/-- The location that an absolute path names, if its components are taken as they are. -/
def location (path : String) : Location := ⟨(components path).filter fun c => c ≠ ""⟩

end Path

end BuildPlan
