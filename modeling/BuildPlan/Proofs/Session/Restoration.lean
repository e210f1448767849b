import BuildPlan.Proofs.Session.Uniform

/-! # What loading a file leaves as it was

Whatever a file does while it is evaluated, when its load returns, with an answer or an error, the
files that were open before are so again, and the table that was the evaluation state names the
same directory (`Run.loadFile_restores`).  No operation of scripts opens or closes a file or takes
a table away (`Session.Extends`), so the files and tables that a load puts back are the ones that
it found.

A load that a panic passes by returns nothing and puts nothing back.  Its file stays among those
that are being evaluated, also when a script catches the panic further out
(`Run.loading_interrupted`).  So the files are exactly those that they were before only if no panic
went on meanwhile. -/

namespace BuildPlan

namespace Session

/-- The second session has all tables of the first one and all files open that the first one has,
and no others unless more panics have gone on. -/
structure Extends (s t : Session) : Prop where
  loading : s.loading <:+ t.loading
  spent : s.spent <:+ t.spent
  settled : t.spent = s.spent → t.loading = s.loading
  tables : s.heap.tables.size ≤ t.heap.tables.size

namespace Extends

variable {s t u : Session}

theorem refl (s : Session) : s.Extends s :=
  ⟨List.suffix_refl _, List.suffix_refl _, fun _ => rfl, Nat.le_refl _⟩

theorem trans (h : s.Extends t) (h' : t.Extends u) : s.Extends u where
  loading := h.loading.trans h'.loading
  spent := h.spent.trans h'.spent
  settled heq := by
    -- The panics of the session in between are as many as those of the two others.
    have hle := h.spent.length_le
    have hle' := h'.spent.length_le
    have hmiddle : t.spent = s.spent := (h.spent.eq_of_length (by rw [heq] at hle'; omega)).symm
    rw [h'.settled (heq.trans hmiddle.symm), h.settled hmiddle]
  tables := Nat.le_trans h.tables h'.tables

theorem logged (h : s.Extends t) (events : List Event) : s.Extends (t.logged events) :=
  ⟨h.loading, h.spent, h.settled, h.tables⟩

theorem counted (h : s.Extends t) : s.Extends t.counted :=
  ⟨h.loading, h.spent, h.settled, h.tables⟩

/-- Once a panic goes on, files may be open that were not so before. -/
theorem spending_of_suffix (hloading : s.loading <:+ t.loading) (hspent : s.spent <:+ t.spent)
    (htables : s.heap.tables.size ≤ t.heap.tables.size) (n : Nat) : s.Extends (t.spending n) where
  loading := hloading
  spent := hspent.trans (List.suffix_cons n _)
  settled heq := by
    have hle := hspent.length_le
    have hlength : t.spent.length + 1 = s.spent.length := congrArg List.length heq
    omega
  tables := htables

theorem spending (h : s.Extends t) (n : Nat) : s.Extends (t.spending n) :=
  spending_of_suffix h.loading h.spent h.tables n

/-- The operations of scripts open no file and take no table away. -/
theorem kept (s : Session) : Run.Kept s.Extends where
  logged events h := h.logged events
  counted h := h.counted
  spending n h := h.spending n
  written bytes h := ⟨h.loading, h.spent, h.settled, h.tables⟩
  newTable t h :=
    ⟨h.loading, h.spent, h.settled, Nat.le_trans h.tables (by simp [Heap.alloc])⟩
  setField r k v h :=
    ⟨h.loading, h.spent, h.settled, Nat.le_trans h.tables (by simp [Heap.set])⟩
  setGlobal n v h := ⟨h.loading, h.spent, h.settled, h.tables⟩
  declare kind spec registry _ _ h := ⟨h.loading, h.spent, h.settled, h.tables⟩

end Extends

variable {s t : Session} {path : String} {l : Location} {r : Ref}

theorem tables_opened : (s.opened path l r).heap.tables.size = s.heap.tables.size := by
  simp [opened, Heap.set]

/-- Taking a file off the list leaves those open that stand behind it. -/
theorem suffix_erase {l : Location} {before now : List Location} (h : l :: before <:+ now) :
    before <:+ now.erase l := by
  obtain ⟨more, rfl⟩ := h
  by_cases hl : l ∈ more
  · rw [List.erase_append_left _ hl]
    exact ⟨more.erase l ++ [l], by simp⟩
  · rw [List.erase_append_right _ hl, List.erase_cons_head]
    exact List.suffix_append _ _

/-- Closing what was opened last leaves the files open that were so before. -/
theorem Extends.closed (h : (s.opened path l r).Extends t) (directory : Value) :
    s.Extends (t.closed l r directory) where
  loading := suffix_erase h.loading
  spent := h.spent
  settled heq := by
    have hloading : t.loading = l :: s.loading := h.settled heq
    change t.loading.erase l = s.loading
    rw [hloading]
    exact List.erase_cons_head l s.loading
  tables := by
    have htables := h.tables
    rw [tables_opened] at htables
    simpa [Session.closed, Heap.set] using htables

/-- However the evaluation of a file ends, the files that were open before its load are so after
it. -/
theorem Extends.close {e : Except Value (List Value) × Session}
    (h : (s.opened path l r).Extends e.2) (directory : Value) :
    s.Extends (close l r directory (finished e)).2 := by
  obtain ⟨n, he⟩ | ⟨v, he⟩ | ⟨f, he⟩ := finished_cases e
  · rw [he]
    have htables := h.tables
    rw [tables_opened] at htables
    have hloading : s.loading <:+ e.2.loading := (List.suffix_cons l _).trans h.loading
    exact (Extends.spending_of_suffix hloading h.spent htables n).counted
  · rw [he]
    exact h.closed directory
  · rw [he]
    exact h.counted.closed directory

end Session

namespace Run

variable {w : Workspace} {load : Loader}

/-- A text whose loader leaves the open files as they were does so, too. -/
theorem extends_evaluate
    (hload : ∀ room callers path (s : Session), s.Extends ((load room callers path).outcome s).2)
    (room : Nat) (callers : List Caller) (chunk : Bytes) (source : String) (s : Session) :
    s.Extends ((evaluate load room callers chunk source).outcome s).2 := by
  have halike : ∀ room callers path t, s.Extends t →
      (load room callers path).outcome t = (load room callers path).outcome t ∧
        s.Extends ((load room callers path).outcome t).2 :=
    fun room callers path t ht => ⟨rfl, ht.trans (hload room callers path t)⟩
  exact (Uniform.outcome_eq (Session.Extends.kept s) halike
    (uniform_evaluate load load room callers chunk source) (Session.Extends.refl s)).2

/-- One step of the induction on the depth: the texts of files leave the open files as they
were if the files that they include do. -/
theorem extends_loadFile_of_text (depth room : Nat) (callers : List Caller) (path : String)
    (htext : ∀ l text (s : Session),
      s.Extends ((evaluateFileText w depth room callers l text).outcome s).2) (s : Session) :
    s.Extends ((loadFile w depth room callers path).outcome s).2 := by
  cases hopening : s.opening w path with
  | error i =>
      obtain ⟨events, houtcome⟩ := outcome_loadFile_of_error hopening
      rw [houtcome depth room callers]
      exact (Session.Extends.kept s).halted ((Session.Extends.refl s).logged events) i
  | ok found =>
      obtain ⟨l, text, r, directory⟩ := found
      rw [outcome_loadFile_of_ok hopening depth room callers]
      exact (htext l text (s.opened path l r)).close _

/-- After a load, however it ended, the files are open that were so before. -/
theorem extends_loadFile (depth room : Nat) (callers : List Caller) (path : String)
    (s : Session) : s.Extends ((loadFile w depth room callers path).outcome s).2 := by
  induction depth generalizing room callers path s with
  | zero => exact extends_loadFile_of_text 0 room callers path (fun _ _ s => .refl s) s
  | succ depth ih =>
      exact extends_loadFile_of_text (depth + 1) room callers path
        (fun l text s => extends_evaluate ih room callers (fileChunkName l) text s) s

theorem extends_evaluateFileText (depth room : Nat) (callers : List Caller) (l : Location)
    (text : String) (s : Session) :
    s.Extends ((evaluateFileText w depth room callers l text).outcome s).2 := by
  cases depth with
  | zero => exact .refl s
  | succ depth => exact extends_evaluate (extends_loadFile depth) room callers _ text s

end Run

/-! ### The directory -/

namespace Value

/-- What the program sees of a value: of a fault what it says and not which one it is, and nothing
of a panic. -/
def seen : Value → Value
  | .fault _ f => .fault 0 f
  | .panic _ => .nil
  | v => v

theorem seen_renewed (n : Nat) (v : Value) : (v.renewed n).seen = v.seen := by
  cases v <;> rfl

theorem seen_of_take {s : Session} {v w : Value} (h : s.take v = .ok w) : w.seen = v.seen := by
  unfold Session.take at h
  split at h
  · split at h
    · obtain rfl := Except.ok.inj h
      rfl
    · cases h
  · obtain rfl := Except.ok.inj h
    rfl

end Value

namespace Heap

variable {h : Heap} {r : Ref}

theorem get_set_self (hr : r.index < h.tables.size) (t : Table) : (h.set r t).get r = t := by
  simp [get, set, hr]

theorem get_of_size_le (hr : h.tables.size ≤ r.index) : h.get r = .empty := by
  simp [get, hr]

/-- A field of a table holds what was put back, also of a place where there is no table yet. -/
theorem get_set_set_self {k v : Value} (h : Heap) (r : Ref)
    (hv : h.tables.size ≤ r.index → v = .nil) :
    ((h.set r ((h.get r).set k v)).get r).get k = v := by
  by_cases hr : r.index < h.tables.size
  · rw [get_set_self hr, Table.get_set_self]
  · have hsize : h.tables.size ≤ r.index := by omega
    rw [hv hsize, get_of_size_le (by simpa [set] using hsize)]
    rfl

end Heap

namespace Session

variable {s t : Session} {l : Location} {r : Ref} {directory : Value}

/-- A load that no panic passes by has closed its file. -/
theorem close_of_returns {e : Except Value Value × Session}
    (h : ∀ n, (close l r directory e).1 ≠ .error (.panic n)) :
    (close l r directory e).2 = e.2.closed l r directory := by
  rcases e with ⟨v | v, t⟩
  · cases v with
    | panic n => exact absurd rfl (h n)
    | _ => rfl
  · rfl

/-- What was put back is, as far as the program sees it, what was there before. -/
theorem seen_directory_closed (hdirectory : s.take ((s.heap.get r).get directoryField) =
    .ok directory) (htables : s.heap.tables.size ≤ t.heap.tables.size) :
    (((t.closed l r directory).heap.get r).get directoryField).seen =
      ((s.heap.get r).get directoryField).seen := by
  have hget : ((t.closed l r directory).heap.get r).get directoryField =
      directory.renewed t.made := by
    refine Heap.get_set_set_self _ r fun hsize => ?_
    -- A place that is still without a table was so before, and has no directory.
    rw [Heap.get_of_size_le (Nat.le_trans htables hsize)] at hdirectory
    obtain rfl := Except.ok.inj hdirectory
    rfl
  rw [hget, Value.seen_renewed, Value.seen_of_take hdirectory]

end Session

namespace Run

/-- When a load returns, with an answer or with an error, the files that were being evaluated are
so again, and no others if no panic has gone on meanwhile; and the table that was the evaluation
state names the same directory.  A file that is not run changes nothing: only what happened is
noted, and that one more fault was made. -/
theorem loadFile_restores (w : Workspace) (depth room : Nat) (callers : List Caller)
    (path : String) (s : Session)
    (h : ∀ n, ((loadFile w depth room callers path).outcome s).1 ≠ .error (.panic n)) :
    s.loading <:+ ((loadFile w depth room callers path).outcome s).2.loading ∧
      (((loadFile w depth room callers path).outcome s).2.spent = s.spent →
        ((loadFile w depth room callers path).outcome s).2.loading = s.loading) ∧
      (∀ r, s.globals.get Session.stateName = .table r →
        ((((loadFile w depth room callers path).outcome s).2.heap.get r).get
            Session.directoryField).seen = ((s.heap.get r).get Session.directoryField).seen) ∧
      ∀ f, s.opening w path = .error (.fault f) →
        ∃ events, (loadFile w depth room callers path).outcome s =
          (.error (.fault s.made f), (s.logged events).counted) := by
  have hextends := extends_loadFile (w := w) depth room callers path s
  refine ⟨hextends.loading, hextends.settled, fun r hr => ?_, fun f hf => ?_⟩
  · cases hopening : s.opening w path with
    | error i =>
        obtain ⟨events, houtcome⟩ := outcome_loadFile_of_error hopening
        rw [houtcome, Session.heap_halted]
        rfl
    | ok found =>
        obtain ⟨l, text, r', directory⟩ := found
        obtain ⟨-, -, -, hr', hdirectory⟩ := Session.opening_eq_ok_iff.1 hopening
        obtain rfl : r = r' := by simpa using hr.symm.trans hr'
        have htables := (extends_evaluateFileText (w := w) depth room callers l text
          (s.opened path l r)).tables
        rw [Session.tables_opened, ← Session.heap_finished] at htables
        rw [outcome_loadFile_of_ok hopening depth room callers] at h ⊢
        rw [Session.close_of_returns h]
        exact Session.seen_directory_closed hdirectory htables
  · obtain ⟨events, houtcome⟩ := outcome_loadFile_of_error hf
    exact ⟨events, houtcome depth room callers⟩

/-- A file that sets the directory, catches the failure of an included file that includes itself,
replaces the evaluation state and raises a text. -/
def unruly : Workspace where
  tree := ⟨[
    (⟨["top.lua"]⟩, .file (Utf8.encode
      "trellis.dir = 'lib' pcall(include, 'loop.lua') trellis = 1 error('over')")),
    (⟨["lib", "loop.lua"]⟩, .file (Utf8.encode "include('../lib/loop.lua')"))]⟩
  directory := .root

theorem loadFile_restores_unruly :
    (∀ n, ((loadFile unruly 2 9 [] "top.lua").outcome .start).1 ≠ .error (.panic n)) ∧
      ((loadFile unruly 2 9 [] "top.lua").outcome .start).2.loading = [] ∧
      (((loadFile unruly 2 9 [] "top.lua").outcome .start).2.heap.get ⟨0⟩).get
        Session.directoryField = .text "." ∧
      ((loadFile unruly 2 9 [] "top.lua").outcome .start).2.globals.get Session.stateName =
        .integer 1 ∧
      ∃ events, (loadFile unruly 2 9 [] "lost.lua").outcome .start =
        (.error (.fault 0 (.load (.unresolved "lost.lua" .notFound))),
          (Session.start.logged events).counted) := by
  have hends : ((loadFile unruly 2 9 [] "top.lua").outcome .start).2.spent = [] ∧
      ((loadFile unruly 2 9 [] "top.lua").outcome .start).2.globals.get Session.stateName =
        .integer 1 ∧
      ((loadFile unruly 2 9 [] "top.lua").perform .start).1.isSome := by decide +kernel
  obtain ⟨hspent, hglobal, hresult⟩ := hends
  have hreturns := ne_panic_of_perform hresult
  have hstate : Session.start.globals.get Session.stateName = .table ⟨0⟩ := by decide +kernel
  have hdirectory : (Session.start.heap.get ⟨0⟩).get Session.directoryField = .text "." := by
    decide +kernel
  obtain ⟨-, hloading, hkept, -⟩ := loadFile_restores unruly 2 9 [] "top.lua" .start hreturns
  have hlost : Session.start.opening unruly "lost.lua" =
      .error (.fault (.load (.unresolved "lost.lua" .notFound))) := by rfl
  obtain ⟨-, -, -, hunchanged⟩ := loadFile_restores unruly 2 9 [] "lost.lua" .start fun n hn => by
    obtain ⟨events, houtcome⟩ := outcome_loadFile_of_error hlost
    rw [houtcome] at hn
    cases hn
  refine ⟨hreturns, hloading hspent, ?_, hglobal, hunchanged _ hlost⟩
  have hseen := hkept ⟨0⟩ hstate
  rw [hdirectory] at hseen
  -- A text is seen as it is, and nothing else is seen as one.
  revert hseen
  generalize (((loadFile unruly 2 9 [] "top.lua").outcome .start).2.heap.get ⟨0⟩).get
    Session.directoryField = v
  intro hseen
  cases v with
  | string bytes => exact hseen
  | _ => cases hseen

/-! ### A panic passes by -/

/-- A table with something at 5, 9 and every power of two that is an index, and at no other. -/
def sparse : Table :=
  ⟨([5, 9] ++ (List.range 63).map (2 ^ ·)).map fun i : Nat => (.integer i, .text "x")⟩

/-- The session in which the evaluation state has a specification with such a list of
requirements as a field. -/
def holding : Session :=
  { Session.start with
    heap := ⟨#[Session.stateTable.set (.text "spec") (.table ⟨1⟩),
      ⟨[(.text "name", .text "a"), (.text "requires", .table ⟨2⟩)]⟩, sparse]⟩ }

/-- A file that catches the panic of an included file, which declares that specification. -/
def guarded : Workspace where
  tree := ⟨[
    (⟨["main.lua"]⟩, .file (Utf8.encode "pcall(include, 'inner.lua')")),
    (⟨["inner.lua"]⟩, .file (Utf8.encode "project(trellis.spec)"))]⟩
  directory := .root

/-- The load of a file returns, and a file that it included is still taken for one that is being
evaluated. -/
theorem loading_interrupted :
    ((loadFile guarded 2 9 [] "main.lua").outcome holding).1.toOption = some (.boolean false) ∧
      holding.loading = [] ∧
      ((loadFile guarded 2 9 [] "main.lua").outcome holding).2.loading = [⟨["inner.lua"]⟩] := by
  decide +kernel

end Run

end BuildPlan
