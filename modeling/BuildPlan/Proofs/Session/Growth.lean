import BuildPlan.Proofs.FileTree
import BuildPlan.Proofs.Session.Inclusion
import BuildPlan.Text.Utf8.RoundTrip

/-! # The registry of a session grows

Whatever is asked of a session (`Request`), and whatever goes wrong on the way, its registry only
grows: the targets that it listed before come first and are as they were.  The same holds at every
moment of a request (`Run.Amid`), so what was declared before a failure is still declared after it,
and it holds of the files that are included, where failures may be caught.  The main statement is
`Session.registry_afterAll`.

Scripts change a registry by declarations only, so this is an induction on what scripts can do
(`Run.Kept`), and on the depth of the files in one another. -/

namespace BuildPlan

variable {α β : Type} {w : Workspace}

namespace Session

/-- The second session lists the targets of the first one as its first ones, and the others have
names that are not blank. -/
structure Grows (s t : Session) : Prop where
  isPrefix : s.registry.toList <+: t.registry.toList
  named : ∀ d ∈ t.registry.toList, d ∈ s.registry.toList ∨ ¬isBlank d.name.text

namespace Grows

variable {s t u : Session} {path : String} {l : Location} {r : Ref}

theorem of_registry_eq (h : t.registry = s.registry) : s.Grows t where
  isPrefix := h ▸ List.prefix_refl _
  named _ hd := .inl (h ▸ hd)

theorem refl (s : Session) : s.Grows s := of_registry_eq rfl

theorem trans (h : s.Grows t) (h' : t.Grows u) : s.Grows u where
  isPrefix := h.isPrefix.trans h'.isPrefix
  named d hd := (h'.named d hd).elim (h.named d) .inr

theorem declare {kind : Kind} {spec : Specification} {registry : Registry}
    (hname : ¬isBlank spec.name) (h : s.registry.declare kind spec = .ok registry) :
    s.Grows { s with registry } := by
  obtain ⟨d, hd, -, ⟨rfl, -⟩ | ⟨-, hlist⟩⟩ := Registry.declare_eq_ok h
  · exact refl s
  · refine ⟨hlist ▸ List.prefix_append _ _, fun e he => ?_⟩
    rcases List.mem_append.1 (hlist ▸ he) with he | he
    · exact .inl he
    · obtain rfl := List.mem_singleton.1 he
      exact .inr (hd ▸ hname)

/-- The operations of scripts let a registry grow. -/
theorem kept (s : Session) : Run.Kept s.Grows where
  logged _ h := h.trans (of_registry_eq rfl)
  counted h := h.trans (of_registry_eq rfl)
  spending _ h := h.trans (of_registry_eq rfl)
  written _ h := h.trans (of_registry_eq rfl)
  newTable _ h := h.trans (of_registry_eq rfl)
  setField _ _ _ h := h.trans (of_registry_eq rfl)
  setGlobal _ _ h := h.trans (of_registry_eq rfl)
  declare _ _ _ hname hregistry h := h.trans (declare hname hregistry)

theorem opened (s : Session) (path : String) (l : Location) (r : Ref) :
    s.Grows (s.opened path l r) :=
  of_registry_eq rfl

theorem lasting (w : Workspace) (s : Session) : Run.Lasting w s.Grows where
  toKept := kept s
  opened _ h := h.trans (opened _ _ _ _)
  closed _ _ _ h := h.trans (of_registry_eq rfl)

end Grows

end Session

namespace Run

variable {depth : Nat} {s t : Session}

/-! ### Scripts -/

theorem grows_of_scripted {x : Run α} (hx : Scripted w depth x) (s : Session) :
    s.Grows (x.outcome s).2 :=
  (Session.Grows.lasting w s).scripted hx (.refl s)

theorem grows_bind {x : Run α} {f : α → Run β} (hf : ∀ a, Scripted w depth (f a)) (s : Session) :
    (x.outcome s).2.Grows ((x >>= f).outcome s).2 := by
  rw [outcome_bind]
  rcases x.outcome s with ⟨v | a, t⟩
  · exact .refl t
  · exact grows_of_scripted (hf a) t

/-! ### Moments -/

/-- The sessions that a script comes to, in the files that it includes too.  All that is done
before and all that is left to do afterwards is what scripts do. -/
inductive Amid (w : Workspace) : Nat → {α : Type} → Run α → Session → Session → Prop
  | start {depth : Nat} {α : Type} {x : Run α} (hx : Scripted w depth x) (s : Session) :
      Amid w depth x s s
  /-- A session that its first part comes to. -/
  | first {depth : Nat} {α β : Type} {x : Run α} {f : α → Run β} {s t : Session} :
      Amid w depth x s t → (∀ a, Scripted w depth (f a)) → Amid w depth (x >>= f) s t
  /-- A session that it comes to after its first part. -/
  | next {depth : Nat} {α β : Type} {x : Run α} {f : α → Run β} {a : α} {s t u : Session} :
      Scripted w depth x → x.outcome s = (.ok a, u) → Amid w depth (f a) u t →
        Amid w depth (x >>= f) s t
  /-- A session that is come to by what is caught. -/
  | attempt {depth : Nat} {α : Type} {x : Run α} {s t : Session} :
      Amid w depth x s t → Amid w depth (attempt x) s t
  /-- A session that the text of a file comes to. -/
  | inside {depth room : Nat} {callers : List Caller} {path : String} {l : Location}
      {text : String} {r : Ref} {directory : Value} {s t : Session} :
      s.opening w path = .ok (l, text, r, directory) →
      Amid w depth (evaluate (loadFile w depth) room callers (fileChunkName l) text)
        (s.opened path l r) t →
      Amid w (depth + 1) (loadFile w (depth + 1) room callers path) s t

/-- Up to every moment the registry has grown, and from then on it grows further. -/
theorem Amid.grows {x : Run α} (h : Amid w depth x s t) :
    s.Grows t ∧ t.Grows (x.outcome s).2 := by
  induction h with
  | start hx s => exact ⟨.refl s, grows_of_scripted hx s⟩
  | first _ hf ih => exact ⟨ih.1, ih.2.trans (grows_bind hf _)⟩
  | @next _ _ _ x f a s t u hx hxs _ ih =>
      have hbefore := grows_of_scripted hx s
      rw [hxs] at hbefore
      rw [outcome_bind_of_ok hxs]
      exact ⟨hbefore.trans ih.1, ih.2⟩
  | attempt _ ih => exact ih
  | @inside depth room callers path l text r directory s t hopening _ ih =>
      rw [outcome_loadFile_of_ok hopening]
      exact ⟨(Session.Grows.opened s path l r).trans ih.1,
        (Session.Grows.lasting w t).close l r directory ih.2⟩

end Run

/-! ### Requests -/

namespace Session

/-- What can be asked of a session from outside of scripts. -/
inductive Request where
  /-- To call the function under a global name. -/
  | call (name : String) (arguments : List Value)
  /-- To evaluate a text as a chunk with a name. -/
  | text (source name : String)
  /-- To evaluate the file at a path. -/
  | file (path : String)
  /-- To tell a field of the evaluation state. -/
  | get (field : String)
  /-- To set a field of the evaluation state. -/
  | set (field : String) (v : Value)
  /-- To make a table, for an argument. -/
  | table (t : Table)
  /-- To make a function, for an argument. -/
  | function

namespace Request

open Run

/-- What a request does. -/
def run (w : Workspace) : Request → Run Value
  | .call name arguments => callGlobal w name arguments
  | .text source name => loadText w source name
  | .file path => loadFirst w path
  | .get field => getState field
  | .set field v => do
      setState field v
      return .nil
  | .table t => newTable t
  | .function => newFunction

/-- Nothing but what scripts can do is done for a request. -/
theorem scripted_run (w : Workspace) (q : Request) :
    Scripted w Session.levelLimit (q.run w) := by
  cases q with
  | call name arguments =>
      refine .bind .get fun s => .bind (.receive _) fun f => ?_
      split
      · exact .finish (.call _ _ _ _)
      · exact .fault _
  | text source name =>
      refine .bind ?_ fun _ => .finish (uniform_evaluate _ _ _ _ _ _)
      unfold checkName
      split
      · exact .pure _
      · exact .fault _
  | file path => exact .load _ _ _
  | get field => exact .bind .stateTable fun _ => .bind (.getField _ _) fun _ => .receive _
  | set field v => exact .bind (.bind .stateTable fun _ => .setField _ _ _) fun _ => .pure _
  | table t => exact .newTable t
  | function => exact .bind .serial fun _ => .pure _

end Request

/-- The session after a request, whether it was met or failed. -/
def after (w : Workspace) (s : Session) (q : Request) : Session := ((q.run w).outcome s).2

/-- The session after several requests. -/
def afterAll (w : Workspace) (s : Session) (qs : List Request) : Session := qs.foldl (after w) s

theorem grows_after (s : Session) (q : Request) : s.Grows (s.after w q) :=
  Run.grows_of_scripted (q.scripted_run w) s

theorem grows_afterAll (s : Session) (qs : List Request) : s.Grows (s.afterAll w qs) := by
  induction qs generalizing s with
  | nil => exact .refl s
  | cons q qs ih => exact (grows_after s q).trans (ih (s.after w q))

/-- In every session, the registry at any moment of a request lists what it listed before the
request, in the same order, and then what was declared up to that moment; after the request, met
or not, it lists all this and what was declared later.  Every target that is listed has a name
that is not blank, and every composite among them has requirements, without repeats. -/
theorem registry_afterAll (w : Workspace) (qs : List Request) (q : Request) :
    ((start w.machine).afterAll w qs).registry.toList <+:
        ((start w.machine).afterAll w (qs ++ [q])).registry.toList ∧
      (∀ t, Run.Amid w levelLimit (q.run w) ((start w.machine).afterAll w qs) t →
        ((start w.machine).afterAll w qs).registry.toList <+: t.registry.toList ∧
          t.registry.toList <+: ((start w.machine).afterAll w (qs ++ [q])).registry.toList) ∧
      ∀ d ∈ ((start w.machine).afterAll w qs).registry.toList, ¬isBlank d.name.text ∧
        ∀ c, d = .composite c → c.required ≠ [] ∧ c.required.Nodup := by
  have hlast : (start w.machine).afterAll w (qs ++ [q]) =
      ((start w.machine).afterAll w qs).after w q := List.foldl_concat _ _ _ _
  rw [hlast]
  refine ⟨(grows_after _ q).isPrefix, fun t ht => ?_, fun d hd => ⟨?_, ?_⟩⟩
  · obtain ⟨hbefore, hlater⟩ := ht.grows
    exact ⟨hbefore.isPrefix, hlater.isPrefix⟩
  · rcases (grows_afterAll (start w.machine) qs).named d hd with hd | hname
    · cases hd
    · exact hname
  · rintro c rfl
    exact ⟨c.required_ne_nil, c.nodup_required⟩

/-- A file that declares two targets, catches that a third one is refused between them, and then
raises a text. -/
def wayward : Workspace where
  tree := ⟨[(⟨["main.lua"]⟩, .file <| Utf8.encode
    "project\x7bname='a'\x7d pcall(project,\x7bname=' '\x7d) project\x7bname='b'\x7d error'over'")]⟩
  directory := .root

theorem registry_afterAll_wayward :
    let before := start.afterAll wayward [.text "project\x7bname='c'\x7d" "inline"]
    let later := start.afterAll wayward
      ([.text "project\x7bname='c'\x7d" "inline"] ++ [.file "main.lua"])
    before.registry.names = [⟨"c"⟩] ∧ later.registry.names = [⟨"c"⟩, ⟨"a"⟩, ⟨"b"⟩] ∧
      (((Request.file "main.lua").run wayward).outcome before).1.isOk = false ∧
      before.registry.toList <+: later.registry.toList ∧
      (∃ t, Run.Amid wayward levelLimit ((Request.file "main.lua").run wayward) before t ∧
        t.loading ≠ [] ∧ t.registry.toList <+: later.registry.toList) ∧
      ∀ d ∈ before.registry.toList, ¬isBlank d.name.text := by
  intro before later
  obtain ⟨hgrows, hmoment, hnames⟩ := registry_afterAll wayward
    [.text "project\x7bname='c'\x7d" "inline"] (.file "main.lua")
  obtain ⟨⟨hloading, hstate, hdirectory⟩, hbefore, hlater, hfails⟩ :
      (before.loading = [] ∧ before.globals.get stateName = .table ⟨0⟩ ∧
          (before.heap.get ⟨0⟩).get directoryField = .text ".") ∧
        before.registry.names = [⟨"c"⟩] ∧ later.registry.names = [⟨"c"⟩, ⟨"a"⟩, ⟨"b"⟩] ∧
        (((Request.file "main.lua").run wayward).outcome before).1.isOk = false := by
    decide +kernel
  have hfollow : wayward.tree.follow wayward.directory "main.lua" = .ok ⟨["main.lua"]⟩ := by rfl
  have hread := FileTree.read_eq_ok_iff.2
    ⟨_, (rfl : wayward.tree.entries.lookup ⟨["main.lua"]⟩ = _), Utf8.decode_encode _⟩
  have htake : before.take ((before.heap.get ⟨0⟩).get directoryField) = .ok (.text ".") := by
    rw [hdirectory]
    rfl
  have hopening :=
    opening_eq_ok_iff.2 ⟨hfollow, hread, hloading ▸ List.not_mem_nil, hstate, htake⟩
  have hamid : Run.Amid wayward levelLimit ((Request.file "main.lua").run wayward) before
      (before.opened "main.lua" ⟨["main.lua"]⟩ ⟨0⟩) :=
    .inside hopening (.start (Run.uniform_evaluate _ _ _ _ _ _) _)
  exact ⟨hbefore, hlater, hfails, hgrows,
    ⟨_, hamid, List.cons_ne_nil _ _, (hmoment _ hamid).2⟩, fun d hd => (hnames d hd).1⟩

end Session

end BuildPlan
