import BuildPlan.Proofs.Declarative.Flattening
import BuildPlan.Text.Utf8.RoundTrip

/-! # Files nested deeply

The limit on the levels that are open at a time is a limit on how deep files can include one
another.  A nest (`Nest.Holds`) is as many files as one likes, ten in a directory, each of which
includes the next one, and the last one declares a target.  Where their texts are read, they come
to that declaration when they are flattened (`Nest.flatten_eq_declaration`); with the limit they
come to a failure if they are more than the levels that are left (`Nest.flatten_fitting?`). -/

namespace BuildPlan

namespace Nest

/-- The directory so many names below the root. -/
def directory (depth : Nat) : Location := ⟨List.replicate depth "x"⟩

/-- The names of the files in a directory. -/
def names : List String := ["a", "b", "c", "d", "e", "f", "g", "h", "i", "j"]

/-- The paths of the next files, as seen from the directory. -/
def paths : List String := ["b", "c", "d", "e", "f", "g", "h", "i", "j", "x/a"]

/-- The texts that include the next files. -/
def texts : List String := ["include'b'", "include'c'", "include'd'", "include'e'", "include'f'",
  "include'g'", "include'h'", "include'i'", "include'j'", "include'x/a'"]

/-- The text of the last file. -/
def lastText : String := "project\x7bname='a'\x7d"

/-- The name of a file. -/
def name (i : Nat) : String := names.getD (i % 10) ""

/-- The path of the file below a file. -/
def path (i : Nat) : String := paths.getD (i % 10) ""

/-- The text of a file that is not the last one. -/
def text (i : Nat) : String := texts.getD (i % 10) ""

/-- The location of a file. -/
def file (i : Nat) : Location := (directory (i / 10)).child (name i)

/-- The files from one on, with `more` of them below it. -/
def entries (i : Nat) : Nat → List (Location × Entry)
  | 0 => [(file i, .file (Utf8.encode lastText))]
  | more + 1 => (file i, .file (Utf8.encode (text i))) :: entries (i + 1) more

/-- A tree has files that include each other, `n` of them above the last one, in directories. -/
structure Holds (t : FileTree) (n : Nat) : Prop where
  lookup : ∀ i ≤ n, t.entries.lookup (file i) =
    some (.file (Utf8.encode (if i = n then lastText else text i)))
  get? : ∀ i ≤ n / 10, t.get? (directory i) = some .directory

/-! ### The files -/

variable {n i : Nat}

theorem name_plain (i : Nat) :
    (name i).utf8ByteSize = 1 ∧ (name i ≠ "" ∧ name i ≠ "." ∧ name i ≠ "..") ∧ name i ≠ "x" := by
  have hnames : ∀ k < 10, (names.getD k "").utf8ByteSize = 1 ∧ (names.getD k "" ≠ "" ∧
      names.getD k "" ≠ "." ∧ names.getD k "" ≠ "..") ∧ names.getD k "" ≠ "x" := by
    decide
  exact hnames _ (Nat.mod_lt i (by decide))

theorem child_directory_inj {j : Nat} {c d : String} :
    (directory i).child c = (directory j).child d ↔ i = j ∧ c = d := by
  constructor
  · intro h
    have hnames := congrArg Location.names h
    obtain ⟨hdirectory, hlast⟩ := List.append_inj' hnames rfl
    refine ⟨?_, List.singleton_inj.1 hlast⟩
    simpa [directory] using congrArg List.length hdirectory
  · rintro ⟨rfl, rfl⟩
    rfl

theorem file_injective {j : Nat} (h : file i = file j) : i = j := by
  obtain ⟨hdepth, hname⟩ := child_directory_inj.1 h
  have hnames : ∀ k < 10, ∀ m < 10, names.getD k "" = names.getD m "" → k = m := by decide
  have hplace := hnames _ (Nat.mod_lt i (by decide)) _ (Nat.mod_lt j (by decide)) hname
  omega

theorem child_directory (i : Nat) : (directory i).child "x" = directory (i + 1) := by
  rw [directory, directory, List.replicate_succ']
  rfl

theorem parent_file (i : Nat) : (file i).parent = directory (i / 10) := by
  simp [file, directory, Location.child, Location.parent]

theorem lookup_entries {first more : Nat} (h : first ≤ i) (hi : i ≤ first + more) :
    (entries first more).lookup (file i) =
      some (.file (Utf8.encode (if i = first + more then lastText else text i))) := by
  induction more generalizing first with
  | zero =>
      obtain rfl : i = first := by omega
      simp [entries]
  | succ more ih =>
      rw [entries, List.lookup_cons]
      by_cases hhere : i = first
      · subst hhere
        rw [beq_self_eq_true, if_neg (by omega)]
      · have hne : file i ≠ file first := fun h => hhere (file_injective h)
        rw [beq_eq_false_iff_ne.2 hne]
        have hbelow : first + 1 ≤ i := by omega
        have hrest := ih hbelow (by omega)
        rw [Nat.add_right_comm, Nat.add_assoc] at hrest
        exact hrest

theorem eq_file_of_mem {first more : Nat} {p : Location × Entry} (h : p ∈ entries first more) :
    ∃ j, p.1 = file j := by
  induction more generalizing first with
  | zero => exact ⟨first, by rw [List.mem_singleton.1 h]⟩
  | succ more ih =>
      rcases List.mem_cons.1 h with rfl | h
      · exact ⟨first, rfl⟩
      · exact ih h

theorem directory_ne_file (i j : Nat) : directory i ≠ file j := by
  intro h
  have hmem : name j ∈ (directory i).names := by
    rw [h]
    simp [file, Location.child]
  exact (name_plain j).2.2 (List.eq_of_mem_replicate hmem)

theorem lookup_directory (first more : Nat) : (entries first more).lookup (directory i) = none := by
  refine List.lookup_eq_none_iff.2 fun p hp => bne_iff_ne.2 fun heq => ?_
  obtain ⟨j, hj⟩ := eq_file_of_mem hp
  exact directory_ne_file i j (heq.trans hj)

/-- The directories need no entries of their own. -/
theorem Holds.of_lookup {t : FileTree}
    (hfile : ∀ i ≤ n, t.entries.lookup (file i) =
      some (.file (Utf8.encode (if i = n then lastText else text i))))
    (hdirectory : ∀ i, t.entries.lookup (directory i) = none) : Holds t n where
  lookup := hfile
  get? i h := by
    obtain ⟨before, after, hentries, -⟩ := List.lookup_eq_some_iff.1 (hfile n (Nat.le_refl n))
    have hholds : t.entries.any ((directory i).holds ·.1) := by
      refine List.any_eq_true.2
        ⟨_, hentries ▸ List.mem_append_right before List.mem_cons_self, ?_⟩
      rw [Location.holds, List.isPrefixOf_iff_prefix]
      obtain ⟨k, hk⟩ := Nat.exists_eq_add_of_le h
      refine ⟨List.replicate k "x" ++ [name n], ?_⟩
      rw [file, directory, directory, Location.child, hk, List.replicate_add, List.append_assoc]
    rw [FileTree.get?, hdirectory]
    exact if_pos (.inr hholds)

/-- How many levels are enough to read any of the files. -/
def depth : Nat := 3

theorem read_lastText : Item.ofText? lastText = some [.declaration .project ⟨"a", []⟩] ∧
    (Chunk.ofText depth lastText).isOk := by
  decide +kernel

theorem read_text (i : Nat) : Item.ofText? (text i) = some [.inclusion (path i)] ∧
    (Chunk.ofText depth (text i)).isOk := by
  have htexts : ∀ k < 10,
      Item.ofText? (texts.getD k "") = some [.inclusion (paths.getD k "")] ∧
        (Chunk.ofText depth (texts.getD k "")).isOk := by
    decide +kernel
  exact htexts _ (Nat.mod_lt i (by decide))

theorem isDeclarative (first more : Nat) :
    FileTree.isDeclarative ⟨entries first more⟩ = true := by
  induction more generalizing first with
  | zero =>
      simp [FileTree.isDeclarative, entries, Utf8.decode_encode, Except.toOption, read_lastText.1]
  | succ more ih =>
      unfold FileTree.isDeclarative entries
      rw [List.all_cons, Bool.and_eq_true]
      refine ⟨?_, ih (first + 1)⟩
      simp [Utf8.decode_encode, Except.toOption, (read_text _).1]

theorem utf8ByteSize_path (i : Nat) (c : String) :
    ((directory i).child c).path.utf8ByteSize = 2 * i + 1 + c.utf8ByteSize := by
  have hx : "x".utf8ByteSize = 1 := by decide
  have hslash : "/".utf8ByteSize = 1 := by decide
  have hnames : ("/".intercalate (List.replicate i "x" ++ [c])).utf8ByteSize =
      2 * i + c.utf8ByteSize := by
    induction i with
    | zero => simp
    | succ i ih =>
        rw [List.replicate_succ, List.cons_append, String.intercalate_cons_of_ne_nil (by simp),
          String.utf8ByteSize_append, String.utf8ByteSize_append, ih]
        omega
  rw [Location.path, String.utf8ByteSize_append]
  change "/".utf8ByteSize + ("/".intercalate (List.replicate i "x" ++ [c])).utf8ByteSize = _
  omega

/-- The paths of the next files, and of the first one, as their components. -/
theorem relative_paths : (∀ k < 10, Path.Relative (paths.getD k "")
      (if k = 9 then ["x", names.getD 0 ""] else [names.getD (k + 1) ""])) ∧
    Path.Relative "a" [name 0] := by
  decide +kernel

namespace Holds

variable {t : FileTree}

theorem read_last (ht : Holds t n) : t.read (file n) = .ok lastText := by
  have hlookup := ht.lookup n (Nat.le_refl n)
  rw [if_pos rfl] at hlookup
  exact FileTree.read_eq_ok_iff.2 ⟨_, hlookup, Utf8.decode_encode _⟩

theorem read_above (ht : Holds t n) (h : i < n) : t.read (file i) = .ok (text i) := by
  have hlookup := ht.lookup i (Nat.le_of_lt h)
  rw [if_neg (Nat.ne_of_lt h)] at hlookup
  exact FileTree.read_eq_ok_iff.2 ⟨_, hlookup, Utf8.decode_encode _⟩

/-! ### The paths between them -/

/-- A name that stands in a directory leads there, unless the path gets too long. -/
theorem walk_child (ht : Holds t n) {c : String} {e : Entry} (h : i ≤ n / 10) (hn : n ≤ 2000)
    (hc : c.utf8ByteSize = 1) (hplain : c ≠ "" ∧ c ≠ "." ∧ c ≠ "..")
    (hget : t.get? ((directory i).child c) = some e) (cs : List String) :
    t.walk (directory i) (c :: cs) = t.walk ((directory i).child c) cs := by
  have hshort : ¬(FileTree.nameLimit < c.utf8ByteSize ||
      FileTree.pathTooLong (directory i) c) = true := by
    simp only [FileTree.nameLimit, FileTree.pathTooLong, FileTree.pathLimit, utf8ByteSize_path, hc,
      Bool.or_eq_true, decide_eq_true_eq]
    omega
  rw [FileTree.walk, ht.get? i h]
  dsimp only
  rw [if_neg (by simp [hplain]), if_neg hplain.2.2, if_neg hshort, hget]

/-- The name of a directory leads there from the one above it. -/
theorem walk_directory (ht : Holds t n) (h : i < n / 10) (hn : n ≤ 2000) (cs : List String) :
    t.walk (directory i) ("x" :: cs) = t.walk (directory (i + 1)) cs := by
  have hget : t.get? ((directory i).child "x") = some .directory := by
    rw [child_directory]
    exact ht.get? (i + 1) h
  rw [ht.walk_child (Nat.le_of_lt h) hn (by decide) (by decide) hget, child_directory]

theorem walk_directories (ht : Holds t n) {k : Nat} (h : i + k ≤ n / 10) (hn : n ≤ 2000)
    (cs : List String) :
    t.walk (directory i) (List.replicate k "x" ++ cs) = t.walk (directory (i + k)) cs := by
  induction k generalizing i with
  | zero => rfl
  | succ k ih =>
      rw [List.replicate_succ, List.cons_append, ht.walk_directory (by omega) hn,
        ih (by omega), Nat.add_right_comm, Nat.add_assoc]

/-- The name of a file leads there from its directory. -/
theorem walk_file (ht : Holds t n) (h : i ≤ n) (hn : n ≤ 2000) :
    t.walk (directory (i / 10)) [name i] = .ok (file i) := by
  obtain ⟨hsize, hplain, -⟩ := name_plain i
  have hget := FileTree.get?_of_lookup (ht.lookup i h)
  exact ht.walk_child (Nat.div_le_div_right h) hn hsize hplain hget []

/-- The path in a file leads to the next one. -/
theorem named_above (ht : Holds t n) (h : i < n) (hn : n ≤ 2000) :
    t.named (file i).parent (path i) = .ok (file (i + 1)) := by
  have hpath := relative_paths.1 _ (Nat.mod_lt i (by decide))
  have hnext := ht.walk_file (Nat.succ_le_of_lt h) hn
  rw [parent_file, path, hpath.named]
  by_cases hlast : i % 10 = 9
  · have hdepth : (i + 1) / 10 = i / 10 + 1 := by omega
    have hname : name (i + 1) = names.getD 0 "" := by rw [name, show (i + 1) % 10 = 0 by omega]
    rw [if_pos hlast, ht.walk_directory (by omega) hn, ← hdepth, ← hname]
    exact hnext
  · have hdepth : (i + 1) / 10 = i / 10 := by omega
    have hname : name (i + 1) = names.getD (i % 10 + 1) "" := by
      rw [name, show (i + 1) % 10 = i % 10 + 1 by omega]
    rw [if_neg hlast, ← hdepth, ← hname]
    exact hnext

theorem get?_root (ht : Holds t n) : t.get? .root = some .directory := ht.get? 0 (Nat.zero_le _)

theorem follow_first (ht : Holds t n) (hn : n ≤ 2000) : t.follow .root "a" = .ok (file 0) := by
  rw [relative_paths.2.follow]
  exact ht.walk_file (Nat.zero_le n) hn

theorem named_first (ht : Holds t n) (hn : n ≤ 2000) : t.named .root "a" = .ok (file 0) := by
  rw [relative_paths.2.named]
  exact ht.walk_file (Nat.zero_le n) hn

end Holds

/-! ### What they come to -/

section

variable {w : Workspace} {opened : List Location}

/-- Where the texts are read, the files come to the declaration in the last one. -/
theorem flatten_eq_declaration {items? : Nat → String → Option (List Item)} {bound : Nat}
    (hread : ∀ m ≤ bound, ∀ text, (Chunk.ofText depth text).isOk →
      items? m text = Item.ofText? text)
    (ht : Holds w.tree n) (hn : n ≤ 2000) {k : Nat} (h : i + k = n)
    (hbound : opened.length + k ≤ bound) (hopened : ∀ j, i ≤ j → file j ∉ opened) :
    flatten w items? opened (.ok (file i)) = [.declaration .project ⟨"a", []⟩] := by
  induction k generalizing i opened with
  | zero =>
      obtain rfl : i = n := h
      have hitems := (hread _ hbound _ read_lastText.2).trans read_lastText.1
      rw [flatten_of_some hitems ht.read_last (hopened i (Nat.le_refl i))]
      simp [Item.parts]
  | succ k ih =>
      have hi : i < n := by omega
      have hbelow : ∀ j, i + 1 ≤ j → file j ∉ file i :: opened := by
        intro j hj hmem
        rcases List.mem_cons.1 hmem with hsame | hmem
        · exact absurd (file_injective hsame) (Nat.ne_of_gt hj)
        · exact hopened j (Nat.le_of_succ_le hj) hmem
      have hlength : (file i :: opened).length + k ≤ bound := by
        rw [List.length_cons]
        omega
      have hitems := (hread opened.length (by omega) _ (read_text i).2).trans (read_text i).1
      rw [flatten_of_some hitems (ht.read_above hi) (hopened i (Nat.le_refl i))]
      simp only [List.flatMap_cons, List.flatMap_nil, Item.parts, List.append_nil,
        ht.named_above hi hn]
      exact ih (by omega) hlength hbelow

/-- With the limit, there can be too many files to get to the last one. -/
theorem flatten_fitting? (ht : Holds w.tree n) (hn : n ≤ 2000) {k : Nat} (hk : i + k ≤ n)
    (h : opened.length + k = Session.levelLimit) :
    flatten w Item.fitting? opened (.ok (file i)) = [.failure] := by
  induction k generalizing i opened with
  | zero => exact flatten_of_limit (Nat.le_of_eq h.symm) _
  | succ k ih =>
      have hi : i < n := by omega
      by_cases hmem : file i ∈ opened
      · exact flatten_of_mem hmem
      cases hitems : Item.fitting? opened.length (text i) with
      | none => exact flatten_of_none hitems (ht.read_above hi)
      | some items =>
          have hofText := (Item.fitting?_eq_some_iff.1 hitems).2.2
          obtain rfl := Option.some.inj ((read_text i).1.symm.trans hofText)
          have hlevels : (file i :: opened).length + k = Session.levelLimit := by
            rw [List.length_cons]
            omega
          rw [flatten_of_some hitems (ht.read_above hi) hmem]
          simp only [List.flatMap_cons, List.flatMap_nil, Item.parts, List.append_nil,
            ht.named_above hi hn]
          exact ih (by omega) hlevels

end

end Nest

/-! ### A tree with nothing else -/

/-- Files that include each other, `n` of them above the last one. -/
def Workspace.nest (n : Nat) : Workspace where
  tree := ⟨Nest.entries 0 n⟩
  directory := .root

namespace Nest

variable {n i : Nat}

theorem holds_nest (n : Nat) : Holds (Workspace.nest n).tree n := by
  refine .of_lookup (fun i h => ?_) fun i => lookup_directory 0 n
  have hlookup := lookup_entries (Nat.zero_le i) (h.trans_eq (Nat.zero_add n).symm)
  rwa [Nat.zero_add] at hlookup

theorem declarative (n : Nat) : (Workspace.nest n).Declarative "a" where
  directory := FileTree.follow_root (holds_nest n).get?_root
  items _ _ _ htext := FileTree.isSome_of_isDeclarative (isDeclarative 0 n) htext

/-! ### A tree with a file that includes two of them -/

/-- The path of a file far down in a nest, as seen from the root. -/
def deepPath : String := "x/x/x/x/x/x/x/x/x/x/x/x/x/x/x/x/x/x/x/a"

/-- The text of a file that includes that file, and then the first one of the nest. -/
def returningText : String := "include'x/x/x/x/x/x/x/x/x/x/x/x/x/x/x/x/x/x/x/a' include'a'"

/-- Such a file and the nest. -/
def returning : Workspace where
  tree := ⟨(⟨["main"]⟩, .file (Utf8.encode returningText)) :: entries 0 209⟩
  directory := .root

theorem read_returningText :
    (Item.ofText? returningText = some [.inclusion deepPath, .inclusion "a"] ∧
      (Chunk.ofText depth returningText).isOk) ∧
    Path.Relative deepPath (List.replicate 19 "x" ++ [name 190]) := by
  decide +kernel

theorem file_ne_main (i : Nat) : file i ≠ ⟨["main"]⟩ := by
  intro h
  have hlast : ["main"] = (directory (i / 10)).names ++ [name i] := congrArg Location.names h.symm
  have hname : name i = "main" := by
    have hends := congrArg List.getLast? hlast
    rw [List.getLast?_concat] at hends
    exact (Option.some.inj hends).symm
  have hsize := (name_plain i).1
  rw [hname] at hsize
  exact absurd hsize (by decide)

theorem holds_returning : Holds returning.tree 209 := by
  refine .of_lookup (fun i h => ?_) fun i => ?_
  · have hne : (file i == ⟨["main"]⟩) = false := beq_eq_false_iff_ne.2 (file_ne_main i)
    have hlookup := (holds_nest 209).lookup i h
    change ((⟨["main"]⟩, _) :: entries 0 209).lookup (file i) = _
    rw [List.lookup_cons, hne]
    exact hlookup
  · have hne : (directory i == ⟨["main"]⟩) = false := by
      refine beq_eq_false_iff_ne.2 fun h => ?_
      have hmem : "main" ∈ (directory i).names := by
        rw [h]
        exact List.mem_singleton_self _
      exact absurd (List.eq_of_mem_replicate hmem) (by decide)
    change ((⟨["main"]⟩, _) :: entries 0 209).lookup (directory i) = _
    rw [List.lookup_cons, hne]
    exact lookup_directory 0 209

theorem read_returning : returning.tree.read ⟨["main"]⟩ = .ok returningText :=
  FileTree.read_eq_ok_iff.2 ⟨_, List.lookup_cons_self, Utf8.decode_encode _⟩

theorem declarative_returning : returning.Declarative "main" where
  directory := FileTree.follow_root holds_returning.get?_root
  items _ _ _ htext := by
    refine FileTree.isSome_of_isDeclarative ?_ htext
    unfold FileTree.isDeclarative
    change ((_ :: entries 0 209).all _) = true
    rw [List.all_cons, Bool.and_eq_true]
    refine ⟨?_, isDeclarative 0 209⟩
    simp [Utf8.decode_encode, Except.toOption, read_returningText.1.1]

theorem named_deep {t : FileTree} (ht : Holds t n) (hn : n ≤ 2000) (hi : 190 ≤ n) :
    t.named .root deepPath = .ok (file 190) := by
  have hdown := ht.walk_directories (i := 0) (k := 19) (by omega) hn [name 190]
  rw [read_returningText.2.named]
  exact hdown.trans (ht.walk_file hi hn)

end Nest

end BuildPlan
