import Mathlib.Data.Finset.Card
import BuildPlan.Proofs.Session.Restoration

/-! # Files inside one another

A script may include files wherever it calls something, under paths that it makes up, and may
catch what goes wrong.  Still no file is evaluated inside itself: at every moment of an
evaluation (`Run.Passes`) the files that are being evaluated are different files of the tree, and
including one of them again fails before anything of it runs.  A file that a panic has left open
counts as one of them from then on.

So with every file that is opened there is one less that can be (`Session.unopened`), and a bound
on the depth that all files fit under has no part in the outcome (`Run.Script.includes_nest`): the
evaluation ends because of the files, whatever bound it is given. -/

namespace BuildPlan

open Finset

variable {α β : Type} {w : Workspace}

/-- The files of a workspace. -/
def Workspace.files (w : Workspace) : Finset Location := w.tree.files.toFinset

/-- A file that is not open yet leaves one less to open. -/
theorem Workspace.card_files_sdiff_cons {opened : List Location} {l : Location} {text : String}
    (htext : w.tree.read l = .ok text) (hl : l ∉ opened) :
    (w.files \ (l :: opened).toFinset).card + 1 = (w.files \ opened.toFinset).card := by
  have hmem : l ∈ w.files \ opened.toFinset := by
    rw [mem_sdiff, List.mem_toFinset]
    exact ⟨List.mem_toFinset.2 (FileTree.mem_files_of_read htext), hl⟩
  have hrest : w.files \ (l :: opened).toFinset = (w.files \ opened.toFinset).erase l := by
    ext m
    simp only [List.toFinset_cons, mem_sdiff, mem_insert, mem_erase]
    tauto
  rw [hrest]
  exact card_erase_add_one hmem

namespace Session

/-- The files that are being evaluated are different files that can be read. -/
structure Sound (w : Workspace) (s : Session) : Prop where
  nodup : s.loading.Nodup
  readable : ∀ l ∈ s.loading, ∃ text, w.tree.read l = .ok text

/-- The files that are not being evaluated. -/
def unopened (w : Workspace) (s : Session) : Finset Location := w.files \ s.loading.toFinset

variable {s t : Session} {path : String} {l : Location} {text : String} {r : Ref}
variable {directory : Value}

theorem sound_start (w : Workspace) (m : Machine) : (Session.start m).Sound w where
  nodup := List.nodup_nil
  readable _ hl := absurd hl List.not_mem_nil

namespace Sound

theorem of_loading_eq (hs : s.Sound w) (h : t.loading = s.loading) : t.Sound w where
  nodup := h ▸ hs.nodup
  readable := h ▸ hs.readable

theorem opened (hs : s.Sound w) (h : s.opening w path = .ok (l, text, r, directory)) :
    (s.opened path l r).Sound w := by
  obtain ⟨-, htext, hmem, -⟩ := opening_eq_ok_iff.1 h
  refine ⟨List.nodup_cons.2 ⟨hmem, hs.nodup⟩, fun m hm => ?_⟩
  rcases List.mem_cons.1 hm with rfl | hm
  · exact ⟨text, htext⟩
  · exact hs.readable m hm

/-- A file that a panic has left open is one file less to open, but it is no file twice. -/
theorem lasting (w : Workspace) : Run.Lasting w (Sound w) where
  logged _ hs := hs.of_loading_eq rfl
  counted hs := hs.of_loading_eq rfl
  spending _ hs := hs.of_loading_eq rfl
  written _ hs := hs.of_loading_eq rfl
  newTable _ hs := hs.of_loading_eq rfl
  setField _ _ _ hs := hs.of_loading_eq rfl
  setGlobal _ _ hs := hs.of_loading_eq rfl
  declare _ _ _ _ _ hs := hs.of_loading_eq rfl
  opened h hs := hs.opened h
  closed l _ _ hs := ⟨hs.nodup.erase l, fun m hm => hs.readable m (List.mem_of_mem_erase hm)⟩

theorem subset_files (hs : s.Sound w) : s.loading.toFinset ⊆ w.files := by
  intro l hl
  obtain ⟨text, htext⟩ := hs.readable l (List.mem_toFinset.1 hl)
  exact List.mem_toFinset.2 (FileTree.mem_files_of_read htext)

theorem length_loading_le (hs : s.Sound w) : s.loading.length ≤ w.files.card := by
  rw [← List.toFinset_card_of_nodup hs.nodup]
  exact card_le_card hs.subset_files

/-- Including a file that is being evaluated is a cycle, by whatever path it is named. -/
theorem opening_eq_cycle (hs : s.Sound w) (hl : w.tree.follow w.directory path = .ok l)
    (hmem : l ∈ s.loading) : s.opening w path = .error (.fault (.load (.cycle l))) := by
  obtain ⟨text, htext⟩ := hs.readable l hmem
  simp only [opening, hl, htext, if_pos hmem]

end Sound

/-- Scripts leave no more files to open than there were. -/
theorem card_unopened_le_of_extends (h : s.Extends t) :
    (t.unopened w).card ≤ (s.unopened w).card := by
  refine card_le_card (sdiff_subset_sdiff subset_rfl fun l hl => ?_)
  exact List.mem_toFinset.2 (h.loading.subset (List.mem_toFinset.1 hl))

theorem card_unopened_le (w : Workspace) (s : Session) : (s.unopened w).card ≤ w.files.card :=
  card_le_card sdiff_subset

/-- Opening a file leaves one less to open. -/
theorem card_unopened_opened (h : s.opening w path = .ok (l, text, r, directory)) :
    ((s.opened path l r).unopened w).card + 1 = (s.unopened w).card := by
  obtain ⟨-, htext, hmem, -⟩ := opening_eq_ok_iff.1 h
  exact w.card_files_sdiff_cons htext hmem

end Session

namespace Run

/-! ### Scripts -/

/-- A run of a script: it does what scripts can do, whatever evaluates the files that it
includes. -/
structure Script (α : Type) where
  run : Loader → Run α
  uniform : ∀ load load', Uniform load load' (run load) (run load')

namespace Script

/-- The evaluation of a text. -/
def evaluate (room : Nat) (callers : List Caller) (chunk : Bytes) (source : String) :
    Script (List Value) where
  run load := Run.evaluate load room callers chunk source
  uniform load load' := uniform_evaluate load load' room callers chunk source

/-- The evaluation of the file at a path. -/
def load (room : Nat) (callers : List Caller) (path : String) : Script Value where
  run load := load room callers path
  uniform _ _ := .load room callers path

variable {s : Session}

/-- A script cannot tell apart two loaders that answer alike while the open files are the same,
and it leaves these as they were if the loaders do. -/
theorem outcome_congr (x : Script α) {load load' : Loader}
    (hload : ∀ room callers path (t : Session), s.Extends t →
      (load room callers path).outcome t = (load' room callers path).outcome t ∧
        t.Extends ((load room callers path).outcome t).2) :
    (x.run load).outcome s = (x.run load').outcome s ∧
      s.Extends ((x.run load).outcome s).2 := by
  refine Uniform.outcome_eq (Session.Extends.kept s) (fun room callers path t ht => ?_)
    (x.uniform load load') (.refl s)
  obtain ⟨heq, hextends⟩ := hload room callers path t ht
  exact ⟨heq, ht.trans hextends⟩

end Script

/-! ### The depth -/

/-- Any two depths that are enough for the files which are not open are as good as each other. -/
theorem outcome_loadFile_congr {depth depth' : Nat} {s : Session}
    (h : (s.unopened w).card ≤ depth) (h' : (s.unopened w).card ≤ depth') (room : Nat)
    (callers : List Caller) (path : String) :
    (loadFile w depth room callers path).outcome s =
      (loadFile w depth' room callers path).outcome s := by
  induction depth generalizing depth' s room callers path with
  | zero =>
      cases hopening : s.opening w path with
      | error f =>
          obtain ⟨events, houtcome⟩ := outcome_loadFile_of_error hopening
          rw [houtcome, houtcome]
      | ok found =>
          have hcard := Session.card_unopened_opened hopening
          omega
  | succ depth ih =>
      cases hopening : s.opening w path with
      | error f =>
          obtain ⟨events, houtcome⟩ := outcome_loadFile_of_error hopening
          rw [houtcome, houtcome]
      | ok found =>
          obtain ⟨l, text, r, directory⟩ := found
          have hcard := Session.card_unopened_opened hopening
          obtain ⟨depth', rfl⟩ : ∃ d, depth' = d + 1 := ⟨depth' - 1, by omega⟩
          rw [outcome_loadFile_of_ok hopening, outcome_loadFile_of_ok hopening]
          -- The text is evaluated with one file less to open, so the depths below are enough.
          have hload : ∀ room callers path' (t : Session), (s.opened path l r).Extends t →
              (loadFile w depth room callers path').outcome t =
                  (loadFile w depth' room callers path').outcome t ∧
                t.Extends ((loadFile w depth room callers path').outcome t).2 := by
            intro room callers path' t ht
            have hunopened := Session.card_unopened_le_of_extends (w := w) ht
            have hbelow : (t.unopened w).card ≤ depth := by omega
            have hbelow' : (t.unopened w).card ≤ depth' := by omega
            exact ⟨ih hbelow hbelow' room callers path',
              extends_loadFile depth room callers path' t⟩
          have htext := (Script.evaluate room callers (fileChunkName l) text).outcome_congr hload
          exact congrArg (fun e => Session.close l r directory (Session.finished e)) htext.1

namespace Script

variable {s t u : Session}

theorem outcome_depth_congr (x : Script α) {depth depth' : Nat}
    (h : (s.unopened w).card ≤ depth) (h' : (s.unopened w).card ≤ depth') :
    (x.run (loadFile w depth)).outcome s = (x.run (loadFile w depth')).outcome s := by
  refine (x.outcome_congr fun room callers path t ht => ⟨?_, extends_loadFile _ _ _ _ t⟩).1
  have hunopened := Session.card_unopened_le_of_extends (w := w) ht
  exact outcome_loadFile_congr (hunopened.trans h) (hunopened.trans h') room callers path

end Script

/-! ### Moments -/

/-- The sessions that a run passes, those in the files that it includes among them.  No request
to load a file is left out (`Uniform.outcome_eq_of_passes`). -/
inductive Passes (w : Workspace) : Nat → {α : Type} → Run α → Session → Session → Prop
  /-- The session in which it begins. -/
  | start {depth : Nat} {α : Type} (x : Run α) (s : Session) : Passes w depth x s s
  /-- The session in which it ends. -/
  | finish {depth : Nat} {α : Type} {x : Run α} (hx : Scripted w depth x) (s : Session) :
      Passes w depth x s (x.outcome s).2
  /-- A session that its first part passes. -/
  | first {depth : Nat} {α β : Type} {x : Run α} (f : α → Run β) {s t : Session} :
      Passes w depth x s t → Passes w depth (x >>= f) s t
  /-- A session that is passed after its first part. -/
  | next {depth : Nat} {α β : Type} {x : Run α} {f : α → Run β} {a : α} {s u t : Session} :
      Scripted w depth x → x.outcome s = (.ok a, u) → Passes w depth (f a) u t →
        Passes w depth (x >>= f) s t
  /-- A session that is passed by what is caught. -/
  | attempt {depth : Nat} {α : Type} {x : Run α} {s t : Session} :
      Passes w depth x s t → Passes w depth (attempt x) s t
  /-- A session that is passed by the text of a file that is loaded. -/
  | inside {depth room : Nat} {callers : List Caller} {path : String} {l : Location}
      {text : String} {r : Ref} {directory : Value} {s t : Session} :
      s.opening w path = .ok (l, text, r, directory) →
      Passes w depth (evaluate (loadFile w depth) room callers (fileChunkName l) text)
        (s.opened path l r) t →
      Passes w (depth + 1) (loadFile w (depth + 1) room callers path) s t

theorem Uniform.left {load load' : Loader} {x x' : Run α} (h : Uniform load load' x x') :
    Uniform load load x x := by
  induction h with
  | pure a => exact .pure a
  | throw v => exact .throw v
  | get => exact .get
  | serial => exact .serial
  | spend n => exact .spend n
  | write bytes => exact .write bytes
  | newTable t => exact .newTable t
  | setField r k v => exact .setField r k v
  | setGlobal n v => exact .setGlobal n v
  | declare kind arguments => exact .declare kind arguments
  | load room callers path => exact .load room callers path
  | attempt _ ih => exact .attempt ih
  | bind _ _ ihx ihf => exact .bind ihx ihf

/-- A loader that answers alike in all sessions that a run passes cannot be told apart. -/
theorem Uniform.outcome_eq_of_passes {depth : Nat} {load' : Loader} {x x' : Run α}
    (h : Uniform (loadFile w depth) load' x x') {s : Session}
    (hload : ∀ t, Passes w depth x s t → ∀ room callers path,
      (loadFile w depth room callers path).outcome t = (load' room callers path).outcome t) :
    x.outcome s = x'.outcome s := by
  induction h generalizing s with
  | pure a => rfl
  | throw v => rfl
  | get => rfl
  | serial => rfl
  | spend n => rfl
  | write bytes => rfl
  | newTable t => rfl
  | setField r k v => rfl
  | setGlobal n v => rfl
  | declare kind arguments => rfl
  | load room callers path => exact hload s (.start _ s) room callers path
  | attempt _ ih =>
      have hx := ih fun t ht => hload t ht.attempt
      rw [outcome_attempt, outcome_attempt, hx]
  | @bind _ _ x x' f f' hxx' _ ihx ihf =>
      have hx := ihx fun t ht => hload t (ht.first f)
      rw [outcome_bind, outcome_bind, ← hx]
      rcases hxs : x.outcome s with ⟨v | a, u⟩
      · rfl
      · exact ihf a fun t ht => hload t (.next hxx'.left hxs ht)

/-- In every session that is passed the files that are being evaluated are different ones. -/
theorem Passes.sound {depth : Nat} {x : Run α} {s t : Session} (h : Passes w depth x s t)
    (hs : s.Sound w) : t.Sound w := by
  induction h with
  | start x s => exact hs
  | finish hx s => exact (Session.Sound.lasting w).scripted hx hs
  | first f _ ih => exact ih hs
  | @next _ _ _ x f a s u t hx hxs _ ih =>
      have hfirst := (Session.Sound.lasting w).scripted hx hs
      rw [hxs] at hfirst
      exact ih hfirst
  | attempt _ ih => exact ih hs
  | inside hopening _ ih => exact ih (hs.opened hopening)

namespace Script

variable {s : Session}

/-- A script that begins while the files that are being evaluated are different files that can be
read has the same outcome at every depth that the files of the workspace fit under.  In each
session that it passes, the files that are being evaluated are different files of the workspace,
and to include one of them, by whatever path, fails as a cycle and leaves the session as it is. -/
theorem includes_nest (x : Script α) (hs : s.Sound w) :
    (∀ depth depth', w.files.card ≤ depth → w.files.card ≤ depth' →
      (x.run (loadFile w depth)).outcome s = (x.run (loadFile w depth')).outcome s) ∧
    ∀ depth t, Passes w depth (x.run (loadFile w depth)) s t →
      t.loading.Nodup ∧ t.loading.length ≤ w.files.card ∧
        ∀ below room callers arguments given r directory l,
          (arguments.headD .nil).toText = .ok given →
          t.globals.get Session.stateName = .table r →
          ((t.heap.get r).get Session.directoryField).toText = .ok directory →
          w.tree.follow w.directory (Path.join directory given) = .ok l → l ∈ t.loading →
          ∃ events, (includeFile (loadFile w below) room callers arguments).outcome t =
            (.error (.fault t.made (.load (.cycle l))), (t.logged events).counted) := by
  have hfits : ∀ depth, w.files.card ≤ depth → (s.unopened w).card ≤ depth := by
    intro depth h
    exact Nat.le_trans (Session.card_unopened_le w s) h
  refine ⟨fun depth depth' h h' => x.outcome_depth_congr (hfits depth h) (hfits depth' h'),
    fun depth t ht => ?_⟩
  have htsound := ht.sound hs
  refine ⟨htsound.nodup, htsound.length_loading_le, ?_⟩
  intro below room callers arguments given r directory l hgiven hstate hdirectory hl hmem
  obtain ⟨events, houtcome⟩ := outcome_loadFile_of_error (htsound.opening_eq_cycle hl hmem)
  refine ⟨events, ?_⟩
  rw [outcome_includeFile hgiven hstate hdirectory, houtcome]
  rfl

/-- Two files that include each other, the one catching what goes wrong. -/
def entangled : Workspace where
  tree := ⟨[
    (⟨["main.lua"]⟩, .file (Utf8.encode "pcall(include, 'lib/a.lua')")),
    (⟨["lib", "a.lua"]⟩, .file (Utf8.encode "include('..//lib/../main.lua')"))]⟩
  directory := .root

theorem includes_nest_entangled :
    (∀ depth, 2 ≤ depth → (loadFile entangled depth 9 [] "main.lua").outcome .start =
      (loadFile entangled 2 9 [] "main.lua").outcome .start) ∧
    ∃ t, Passes entangled 2 (loadFile entangled 2 9 [] "main.lua") .start t ∧
      t.loading = [⟨["main.lua"]⟩] ∧ t.loading.Nodup ∧
      ∃ events, (includeFile (loadFile entangled 1) 8 []
          [.text "./lib//../main.lua"]).outcome t =
        (.error (.fault t.made (.load (.cycle ⟨["main.lua"]⟩))), (t.logged events).counted) := by
  have hcard : entangled.files.card = 2 := by decide +kernel
  obtain ⟨hdepth, hmoment⟩ :=
    includes_nest (.load 9 [] "main.lua") (Session.sound_start entangled .plain)
  have hopening : Session.start.opening entangled "main.lua" =
      .ok (⟨["main.lua"]⟩, "pcall(include, 'lib/a.lua')", ⟨0⟩, .text ".") := by rfl
  have hpasses : Passes entangled 2 (loadFile entangled 2 9 [] "main.lua") .start
      (Session.start.opened "main.lua" ⟨["main.lua"]⟩ ⟨0⟩) := .inside hopening (.start _ _)
  obtain ⟨hnodup, -, hcycle⟩ := hmoment 2 _ hpasses
  refine ⟨fun depth h => hdepth depth 2 (hcard ▸ h) (hcard ▸ Nat.le_refl 2), _, hpasses, rfl,
    hnodup, ?_⟩
  exact hcycle 1 8 [] _ "./lib//../main.lua" ⟨0⟩ "/" _ (by rfl) (by decide +kernel) (by rfl)
    (by rfl) List.mem_cons_self

end Script

end Run

end BuildPlan
