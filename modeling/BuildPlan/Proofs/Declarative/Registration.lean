import BuildPlan.Evaluate
import BuildPlan.Proofs.Declarative.Evaluation
import BuildPlan.Proofs.Declarative.Nesting

/-! # Registering what declarative files say

Running declarative files registers the declarations of the flattened files one after the other,
up to the first failure.  `Run.Yields` says so of a run that starts and ends in sessions with
given files open: the registry that it leaves, or the error of a declaration that it ends with, is
what comes of registering some parts.  It holds of one call (`Activation.yields_item`), so of a
chunk (`Activation.yields_run`), and, by induction on the levels that are left, of the file at a
path (`Run.yields_loadFile`). -/

namespace BuildPlan

variable {α β : Type}

theorem Value.says_text (s : String) : (Value.text s).Says s := ⟨_, rfl, Utf8.decode_encode s⟩

/-! ### Sessions in which declarations can be made -/

/-- A session in which the functions that declare targets and include files have their names, some
files are open, the directory in the table of the evaluation state is given, and nothing was
printed. -/
structure Session.Ready (state : Ref) (directory : String) (opened : List Location)
    (s : Session) : Prop where
  declares : ∀ kind : Kind, s.globals.get (.text kind.function) = .function kind.builtin
  includes : s.globals.get (.text "include") = .function .include
  holds : s.globals.get stateName = .table state
  size : state.index < s.heap.tables.size
  dir : (s.heap.get state).get directoryField = .text directory
  loading : s.loading = opened
  printed : s.printed = []

namespace Session.Ready

variable {state : Ref} {directory : String} {before : List Location} {s : Session} {l : Location}

theorem of_grows {t : Session} (h : s.Ready state directory before) (hheap : s.heap.Grows t.heap)
    (hglobals : t.globals = s.globals) (hloading : t.loading = s.loading)
    (hprinted : t.printed = s.printed) : t.Ready state directory before where
  declares := hglobals ▸ h.declares
  includes := hglobals ▸ h.includes
  holds := hglobals ▸ h.holds
  size := Nat.lt_of_lt_of_le h.size hheap.size
  dir := by rw [hheap.get state h.size, h.dir]
  loading := hloading.trans h.loading
  printed := hprinted.trans h.printed

theorem start (m : Machine) : Ready ⟨0⟩ "." [] (Session.start m) := by
  have hplain : Ready ⟨0⟩ "." [] (Session.start .plain) :=
    ⟨fun kind => by cases kind <;> decide +kernel, by decide +kernel, by decide +kernel,
      by decide +kernel, by decide +kernel, rfl, rfl⟩
  exact hplain.of_grows (.refl _) rfl rfl rfl

theorem opened (h : s.Ready state directory before) (path : String) (l : Location) :
    (s.opened path l state).Ready state l.parent.path (l :: before) where
  declares := h.declares
  includes := h.includes
  holds := h.holds
  size := by simpa [Session.opened, Heap.set] using h.size
  dir := by
    change ((s.heap.set state _).get state).get directoryField = _
    rw [Heap.get_set_self h.size, Table.get_set_self]
  loading := congrArg (l :: ·) h.loading
  printed := h.printed

theorem closed {inner : String} (h : s.Ready state inner (l :: before)) (directory : String) :
    (s.closed l state (.text directory)).Ready state directory before where
  declares := h.declares
  includes := h.includes
  holds := h.holds
  size := by simpa [Session.closed, Heap.set] using h.size
  dir := by
    change ((s.heap.set state _).get state).get directoryField = _
    rw [Heap.get_set_self h.size, Table.get_set_self]
    rfl
  loading := by
    change s.loading.erase l = before
    rw [h.loading, List.erase_cons_head]
  printed := h.printed

theorem take_dir (h : s.Ready state directory before) :
    s.take ((s.heap.get state).get directoryField) = .ok (.text directory) := by
  rw [h.dir]
  rfl

end Session.Ready

/-! ### Runs that register parts -/

namespace Run

/-- A run that began with a registry has registered some parts, left a session with a property and
answered what has a property, or has ended with the failure of one of the parts. -/
def Registered (P : Session → Prop) (Q : α → Prop) (parts : List Part) (r : Registry) :
    Except Value α × Session → Prop
  | (.ok a, t) => parts.foldlM Part.apply r = .ok t.registry ∧ P t ∧ Q a
  | (.error v, _) => parts.foldlM Part.apply r = .error v.planError? ∧ ∀ n, v ≠ .panic n

/-- A run from sessions with a property to such sessions that registers some parts. -/
def Yields (P : Session → Prop) (Q : α → Prop) (parts : List Part) (x : Run α) : Prop :=
  ∀ s, P s → Registered P Q parts s.registry (x.outcome s)

variable {P : Session → Prop} {Q : α → Prop} {Q' : β → Prop} {parts parts' : List Part}

theorem Registered.append {r : Registry} {t : Session} {ending : Except Value α × Session}
    (h : parts.foldlM Part.apply r = .ok t.registry)
    (hrest : Registered P Q parts' t.registry ending) :
    Registered P Q (parts ++ parts') r ending := by
  have hfold : (parts ++ parts').foldlM Part.apply r = parts'.foldlM Part.apply t.registry := by
    rw [List.foldlM_append, h]
    rfl
  rcases ending with ⟨v | a, u⟩
  · exact ⟨hfold.trans hrest.1, hrest.2⟩
  · exact ⟨hfold.trans hrest.1, hrest.2⟩

namespace Yields

variable {x : Run α} {f : α → Run β}

theorem pure {a : α} (ha : Q a) : Yields P Q [] (Pure.pure a : Run α) :=
  fun _ hs => ⟨rfl, hs, ha⟩

theorem bind (hx : x.Yields P Q parts) (hf : ∀ a, Q a → (f a).Yields P Q' parts') :
    (x >>= f).Yields P Q' (parts ++ parts') := by
  intro s hs
  have hparts := hx s hs
  rw [outcome_bind]
  rcases hend : x.outcome s with ⟨v | a, t⟩
  · rw [hend] at hparts
    obtain ⟨hfold, hv⟩ := hparts
    refine ⟨?_, hv⟩
    rw [List.foldlM_append, hfold]
    rfl
  · rw [hend] at hparts
    obtain ⟨hfold, ht, ha⟩ := hparts
    exact .append hfold (hf a ha t ht)

theorem of_error (h : ∀ s, P s → ∃ v t, x.outcome s = (.error v, t) ∧ v.planError? = none ∧
    ∀ n, v ≠ .panic n) : x.Yields P Q [.failure] := by
  intro s hs
  obtain ⟨v, t, hend, hv, hpanic⟩ := h s hs
  rw [hend]
  exact ⟨congrArg Except.error hv.symm, hpanic⟩

end Yields

/-- A function of the program registers for a script what it registers. -/
theorem Registered.called {r : Registry} {e : Except Value α × Session}
    (h : Registered P Q parts r e) : Registered P Q parts r (Session.called e) := by
  rcases e with ⟨v | a, t⟩
  · cases v with
    | fault n f => exact ⟨h.1, Value.fault_ne_panic⟩
    | _ => exact h
  · exact h

end Run

/-! ### Calls -/

namespace Activation

open Run

variable {a : Activation} {state : Ref} {l : Location} {opened : List Location} {s : Session}

/-- A call registers what the function does, which is nothing but a failure on the last level. -/
theorem registered_call {P : Session → Prop} {Q : List Value → Prop} {parts : List Part}
    {r : Registry} {line : Nat} {origin : Option Origin} {f : Builtin} {arguments : List Value}
    (hroom : a.room = 0 → parts = [.failure])
    (h : Registered P Q parts r
      ((Run.call a.load a.room (a.callersAt line origin) (.function f) arguments).outcome s)) :
    Registered P Q parts r ((a.call line origin (.function f) arguments).outcome s) := by
  rw [outcome_call]
  rcases hend : (Run.call a.load a.room (a.callersAt line origin) (.function f)
    arguments).outcome s with ⟨v | answers, t⟩
  · rw [hend] at h
    dsimp only
    by_cases hlast : a.room = 0
    · rw [if_pos hlast, hroom hlast]
      exact ⟨rfl, Value.string_ne_panic⟩
    · rw [if_neg hlast]
      exact h
  · rw [hend] at h
    exact h

/-- A declaration registers its target. -/
theorem yields_declaration {kind : Kind} {e : Expr} {item : Item} {directory : String}
    (h : e.declaration? kind = some item) (hroom : a.room ≠ 0) (included : String → List Part)
    (line : Nat) :
    (eval a [] (.call (.name kind.function) [e] line)).Yields
      (Session.Ready state directory opened) (· = []) (item.parts included) := by
  intro s hs
  obtain ⟨r, heap, spec, rfl, heval, hgrows, hread⟩ := eval_of_declaration? a [] h s
  rw [outcome_eval_call (hs.declares kind) heval]
  refine registered_call (fun hlast => absurd hlast hroom) ?_
  rw [outcome_call_builtin (s := { s with heap }) hread]
  dsimp only
  cases hdeclare : s.registry.declare kind spec with
  | ok registry =>
      refine ⟨?_, hs.of_grows hgrows rfl rfl rfl, rfl⟩
      simp [Item.parts, Part.apply, hdeclare, Except.mapError]
  | error e =>
      have hfold : [Part.declaration kind spec].foldlM Part.apply s.registry = .error (some e) := by
        simp [Part.apply, hdeclare, Except.mapError]
      exact ⟨hfold, Value.fault_ne_panic⟩

/-- The function that includes a file has it loaded under its path as seen from the directory. -/
theorem outcome_call_include {d : Location} {v : Value} {given : String}
    (hs : s.Ready state d.path opened) (hv : v.Says given) (load : Loader) (room : Nat)
    (callers : List Caller) :
    (Run.call load room callers (.function .include) [v]).outcome s =
      match Session.called
        ((load room (.function :: callers) (Path.join d.path given)).outcome s) with
      | (.ok _, t) => (.ok [], t)
      | (.error e, t) => (.error e, t) := by
  have hdirectory : ((s.heap.get state).get Session.directoryField).toText = .ok d.path := by
    rw [hs.dir]
    exact (Value.says_text _).toText
  have hgiven : ([v].headD .nil).toText = .ok given := hv.toText
  rw [Run.call, outcome_bind, outcome_callback, outcome_includeFile hgiven hs.holds hdirectory]
  rcases (load room (.function :: callers) (Path.join d.path given)).outcome s with ⟨e | answer, t⟩
  · cases e <;> rfl
  · rfl

/-- An inclusion registers what the included file does. -/
theorem yields_inclusion {d : Location} {e : Expr} {path : String} {parts : List Part}
    (h : e.text? = some path) (hroom : a.room = 0 → parts = [.failure])
    (hload : ∀ callers, (a.load a.room callers (Path.join d.path path)).Yields
      (Session.Ready state d.path opened) (fun _ => True) parts) (line : Nat) :
    (eval a [] (.call (.name "include") [e] line)).Yields
      (Session.Ready state d.path opened) (· = []) parts := by
  intro s hs
  obtain ⟨v, hv, heval⟩ := eval_of_text? a [] h
  have hparts :=
    (hload (.function :: a.callersAt line ((Expr.name "include").origin [])) s hs).called
  rw [outcome_eval_call hs.includes (heval s)]
  refine registered_call hroom ?_
  rw [outcome_call_include hs hv]
  rcases hend : Session.called ((a.load a.room
    (.function :: a.callersAt line ((Expr.name "include").origin []))
    (Path.join d.path path)).outcome s) with ⟨e | answer, t⟩
  · rw [hend] at hparts
    exact hparts
  · rw [hend] at hparts
    exact ⟨hparts.1, hparts.2.1, rfl⟩

/-! ### Chunks -/

/-- An item registers its parts, if including the file that it may name does.  On the last level
there are no declarations, and inclusions only fail. -/
theorem yields_item {d : Location} {e : Expr} {item : Item} (h : e.item? = some item)
    {included : String → List Part} (hroom : a.room = 0 → ∃ path, item = .inclusion path)
    (hlast : a.room = 0 → ∀ path, item = .inclusion path → included path = [.failure])
    (hload : ∀ path, item = .inclusion path → ∀ callers,
      (a.load a.room callers (Path.join d.path path)).Yields
        (Session.Ready state d.path opened) (fun _ => True) (included path)) :
    (eval a [] e).Yields (Session.Ready state d.path opened) (· = []) (item.parts included) := by
  have hdeclaration : ∀ {kind : Kind} {e : Expr}, e.declaration? kind = some item → a.room ≠ 0 := by
    intro kind e he hzero
    obtain ⟨r, heap, spec, hitem, -⟩ := eval_of_declaration? a [] he Session.start
    obtain ⟨path, hpath⟩ := hroom hzero
    rw [hitem] at hpath
    cases hpath
  unfold Expr.item? at h
  split at h
  next f e line =>
    split at h
    next hf =>
      subst hf
      exact yields_declaration h (hdeclaration h) included line
    · split at h
      next hf =>
        subst hf
        exact yields_declaration h (hdeclaration h) included line
      · split at h
        next hf =>
          subst hf
          obtain ⟨path, hpath, rfl⟩ := Option.map_eq_some_iff.1 h
          exact yields_inclusion hpath (fun hzero => hlast hzero path rfl) (hload path rfl) line
        · cases h
  · cases h

section

variable {P : Session → Prop} {included : String → List Part} {items : List Item}

/-- The calls of some items register the parts of these. -/
abbrev Registers (a : Activation) (P : Session → Prop) (included : String → List Part)
    (items : List Item) : Prop :=
  ∀ item ∈ items, ∀ e : Expr, e.item? = some item →
    (eval a [] e).Yields P (· = []) (item.parts included)

theorem yields_execAll {ss : List Statement} (h : ss.mapM Statement.item? = some items)
    (hitems : a.Registers P included items) {parts : List Part} {β : Type} {Q : β → Prop}
    {x : Locals → Run β} (hx : (x []).Yields P Q parts) :
    (execAll a [] ss >>= x).Yields P Q (items.flatMap (Item.parts included) ++ parts) := by
  -- No statement brings a local variable into scope, so what follows starts without any.
  induction ss generalizing items with
  | nil =>
      cases h
      rw [execAll, pure_bind]
      exact hx
  | cons st ss ih =>
      obtain ⟨item, rest, hst, hrest, rfl⟩ := mapM_cons_eq_some h
      unfold Statement.item? at hst
      split at hst
      next e =>
        have hexec : (execAll a [] (.call e :: ss) >>= x) =
            eval a [] e >>= fun _ => execAll a [] ss >>= x := by
          simp only [execAll, exec, bind_assoc, pure_bind]
        rw [hexec, List.flatMap_cons, List.append_assoc]
        refine (hitems item List.mem_cons_self e hst).bind fun _ _ => ih hrest ?_
        exact fun other hother => hitems other (List.mem_cons_of_mem _ hother)
      · cases hst

theorem yields_evalList {es : List Expr} (h : es.mapM Expr.item? = some items)
    (hitems : a.Registers P included items) :
    (evalList a [] es).Yields P (∀ v ∈ ·, v = .nil) (items.flatMap (Item.parts included)) := by
  induction es generalizing items with
  | nil =>
      cases h
      rw [evalList]
      exact .pure (by simp)
  | cons e es ih =>
      obtain ⟨item, rest, he, hrest, rfl⟩ := mapM_cons_eq_some h
      have hlist := ih hrest fun other hother => hitems other (List.mem_cons_of_mem _ hother)
      rw [evalList, List.flatMap_cons]
      refine (hitems item List.mem_cons_self e he).bind fun vs hvs => ?_
      subst hvs
      cases es with
      | nil =>
          cases hrest
          exact .pure (by simp)
      | cons next es =>
          rw [← List.append_nil (rest.flatMap _)]
          exact hlist.bind fun ws hws => .pure (List.forall_mem_cons.2 ⟨rfl, hws⟩)

/-- A chunk registers the parts of its items. -/
theorem yields_run {c : Chunk} (h : c.items? = some items)
    (hitems : a.Registers P included items) :
    (a.run c).Yields P (∀ v ∈ ·, v = .nil) (items.flatMap (Item.parts included)) := by
  obtain ⟨done, hdone, h⟩ := Option.bind_eq_some_iff.1 h
  obtain ⟨answered, hanswered, h⟩ := Option.bind_eq_some_iff.1 h
  cases h
  rw [List.flatMap_append]
  refine yields_execAll hdone (fun item hitem => hitems item (List.mem_append_left _ hitem)) ?_
  exact yields_evalList hanswered fun item hitem => hitems item (List.mem_append_right _ hitem)

end

end Activation

/-! ### Files -/

variable {w : Workspace} {state : Ref} {opened : List Location} {s : Session} {start : String}

/-- A file that is not run is nothing but a failure. -/
theorem flatten_of_opening (items? : Nat → String → Option (List Item)) {path directory : String}
    {i : Interruption} (hs : s.Ready state directory opened) (h : s.opening w path = .error i) :
    flatten w items? opened (w.tree.follow w.directory path) = [.failure] ∧
      ∃ f, i = .fault f ∧ f.planError? = none := by
  unfold Session.opening at h
  split at h
  next e hl =>
    cases h
    rw [hl]
    exact ⟨flatten_of_error, _, rfl, rfl⟩
  next l hl =>
    rw [hl]
    split at h
    next e htext =>
      cases h
      exact ⟨flatten_of_unreadable htext, _, rfl, rfl⟩
    next text htext =>
      split at h
      next hmem =>
        cases h
        exact ⟨flatten_of_mem (hs.loading ▸ hmem), _, rfl, rfl⟩
      · rw [Session.takeTable_eq_ok_iff.2 hs.holds] at h
        dsimp only at h
        rw [hs.take_dir] at h
        cases h

namespace Run

/-- Scripts that answer nothing but nil have it taken for nil. -/
theorem Registered.close {l : Location} {parts : List Part} {r : Registry} {inner : String}
    {ending : Except Value (List Value) × Session}
    (h : Registered (Session.Ready state inner (l :: opened)) (∀ v ∈ ·, v = .nil) parts r ending)
    (directory : String) :
    Registered (Session.Ready state directory opened) (fun _ => True) parts r
      (Session.close l state (.text directory) (Session.finished ending)) := by
  rcases ending with ⟨v | vs, t⟩
  · obtain ⟨hfold, hv⟩ := h
    have hfinished : Session.finished (.error v, t) =
        t.halted (.fault (v.toFault t.machine)) := by
      rw [Session.finished]
      cases v with
      | panic n => exact absurd rfl (hv n)
      | _ => rfl
    rw [hfinished]
    refine ⟨?_, Value.fault_ne_panic⟩
    rw [hfold, ← v.planError?_toFault t.machine]
    rfl
  · obtain ⟨hfold, ht, hvs⟩ := h
    have hfirst : firstValue vs = .nil := by
      cases vs with
      | nil => rfl
      | cons v vs => exact hvs v List.mem_cons_self
    rw [Session.finished, hfirst]
    exact ⟨hfold, ht.closed directory, trivial⟩

/-- The file at a path registers what its text does, if it is run at all. -/
theorem yields_loadFile_of_text {items? : Nat → String → Option (List Item)} {path : String}
    {depth room : Nat} {callers : List Caller}
    (hevaluate : ∀ l text, w.tree.follow w.directory path = .ok l → w.tree.read l = .ok text →
      l ∉ opened → (evaluateFileText w depth room callers l text).Yields
        (Session.Ready state l.parent.path (l :: opened)) (∀ v ∈ ·, v = .nil)
        (flatten w items? opened (.ok l))) (directory : String) :
    (loadFile w depth room callers path).Yields (Session.Ready state directory opened)
      (fun _ => True) (flatten w items? opened (w.tree.follow w.directory path)) := by
  intro s hs
  cases hopening : s.opening w path with
  | error i =>
      obtain ⟨events, hend⟩ := outcome_loadFile_of_error hopening
      obtain ⟨hparts, f, rfl, hf⟩ := flatten_of_opening items? hs hopening
      rw [hend, hparts]
      exact ⟨congrArg Except.error hf.symm, Value.fault_ne_panic⟩
  | ok found =>
      obtain ⟨l, text, r, directory'⟩ := found
      obtain ⟨hl, htext, hmem, hstate, hdirectory⟩ := Session.opening_eq_ok_iff.1 hopening
      obtain rfl : state = r := Value.table.inj (hs.holds.symm.trans hstate)
      obtain rfl : .text directory = directory' :=
        Except.ok.inj (hs.take_dir.symm.trans hdirectory)
      rw [outcome_loadFile_of_ok hopening, hl]
      have hopened := hs.opened path l
      exact Registered.close (hevaluate l text hl htext (hs.loading ▸ hmem) _ hopened) directory

/-- The text of a declarative file says here what it says with all levels left. -/
theorem exists_items_of_ofText (hw : w.Declarative start) {l : Location} {text : String}
    {c : Chunk} {levels : Nat} (hlevels : opened.length + (levels + 1) = Session.levelLimit)
    (hl : w.Included start l) (htext : w.tree.read l = .ok text)
    (hc : Chunk.ofText (levels + 1) text = .ok c) :
    ∃ items, c.items? = some items ∧ Item.fitting? opened.length text = some items := by
  obtain ⟨items, hitems⟩ := Option.isSome_iff_exists.1 (hw.items l text hl htext)
  have hlimit : Session.levelLimit - opened.length = levels + 1 := by omega
  refine ⟨items, ?_, Item.fitting?_eq_some_iff.2 ⟨by omega, by rw [hlimit, hc]; rfl, hitems⟩⟩
  obtain ⟨full, hfull, hsaid⟩ := Option.bind_eq_some_iff.1 hitems
  cases hread : Chunk.ofText Session.levelLimit text with
  | ok c' =>
      rw [hread] at hfull
      obtain rfl : c' = full := Option.some.inj hfull
      exact Chunk.items?_of_ofText (by omega) hc hread hsaid
  | error refusal =>
      rw [hread] at hfull
      cases hfull

/-- The calls of a declarative file register the parts of its items, if the files that it includes
are loaded and register theirs. -/
theorem registers_of_loads (hw : w.Declarative start) {l : Location} {text : String} {c : Chunk}
    {items : List Item} {levels : Nat}
    (hlevels : opened.length + (levels + 1) = Session.levelLimit)
    (hl : w.Included start l) (htext : w.tree.read l = .ok text)
    (hc : Chunk.ofText (levels + 1) text = .ok c) (hsaid : c.items? = some items)
    (hitems : Item.ofText? text = some items)
    (hload : ∀ path callers, (∀ m, w.tree.follow w.directory path = .ok m → w.Included start m) →
      (loadFile w levels levels callers path).Yields
        (Session.Ready state l.parent.path (l :: opened)) (fun _ => True)
        (flatten w Item.fitting? (l :: opened) (w.tree.follow w.directory path)))
    (callers : List Caller) :
    Activation.Registers ⟨fileChunkName l, callers, loadFile w levels, levels⟩
      (Session.Ready state l.parent.path (l :: opened))
      (fun path => flatten w Item.fitting? (l :: opened) (w.tree.named l.parent path)) items := by
  have hdirectory : w.tree.Standing l.parent := (hw.standing hl).parent
  intro item hitem e he
  refine Activation.yields_item he ?_ ?_ ?_
  · intro hzero
    obtain rfl : levels = 0 := hzero
    exact Chunk.inclusion_of_ofText_one hc hsaid item hitem
  · intro hzero path _
    obtain rfl : levels = 0 := hzero
    have hfull : Session.levelLimit ≤ (l :: opened).length := Nat.le_of_eq hlevels.symm
    exact flatten_of_limit hfull _
  · rintro path rfl callers'
    have hjoin := hdirectory.follow_join w.directory path
    rw [← hjoin]
    refine hload _ callers' fun m hm => ?_
    rw [hjoin] at hm
    exact .step hl htext hitems hitem hm

/-- The file at a path registers what it comes to when it is flattened. -/
theorem yields_loadFile (hw : w.Declarative start) {levels : Nat} {path directory : String}
    (hlevels : opened.length + levels = Session.levelLimit)
    (hfound : ∀ l, w.tree.follow w.directory path = .ok l → w.Included start l)
    (callers : List Caller) :
    (loadFile w levels levels callers path).Yields (Session.Ready state directory opened)
      (fun _ => True) (flatten w Item.fitting? opened (w.tree.follow w.directory path)) := by
  -- A file that is run takes a level, and is one more that is open around those it includes.
  induction levels generalizing opened path directory callers with
  | zero =>
      refine yields_loadFile_of_text (fun l text _ _ _ => ?_) directory
      rw [flatten_of_limit (Nat.le_of_eq hlevels.symm)]
      exact .of_error fun s _ =>
        ⟨exhausted, s, outcome_throw exhausted, rfl, Value.string_ne_panic⟩
  | succ levels ih =>
      refine yields_loadFile_of_text (fun l text hl htext hmem => ?_) directory
      change (evaluate (loadFile w levels) (levels + 1) callers (fileChunkName l) text).Yields _ _ _
      unfold evaluate
      cases hc : Chunk.ofText (levels + 1) text with
      | error refusal =>
          have hlimit : Session.levelLimit - opened.length = levels + 1 := by omega
          have hnone : Item.fitting? opened.length text = none := by
            simp [Item.fitting?, hlimit, hc, Except.isOk, Except.toBool]
          rw [flatten_of_none hnone htext]
          cases refusal with
          | tooDeep =>
              exact .of_error fun s _ =>
                ⟨exhausted, s, outcome_throw exhausted, rfl, Value.string_ne_panic⟩
          | malformed =>
              exact .of_error fun s _ =>
                ⟨_, s.counted, outcome_fault .malformed, rfl, Value.fault_ne_panic⟩
      | ok c =>
          obtain ⟨items, hsaid, hsome⟩ :=
            exists_items_of_ofText hw hlevels (hfound l hl) htext hc
          have hitems := (Item.fitting?_eq_some_iff.1 hsome).2.2
          have hopened : (l :: opened).length + levels = Session.levelLimit := by
            rw [List.length_cons]
            omega
          rw [flatten_of_some hsome htext hmem]
          refine Activation.yields_run hsaid ?_
          exact registers_of_loads hw hlevels (hfound l hl) htext hc hsaid hitems
            (fun path' callers' hfound' => ih hopened hfound' callers') callers

end Run

theorem EvalError.planError?_ofFault (m : Machine) (v : Value) :
    (EvalError.ofFault (v.toFault m)).planError? = v.planError? := by
  rw [← v.planError?_toFault m, ofFault]
  cases (v.toFault m).planError? <;> rfl

/-- Evaluating a file ends with what is registered while it is loaded. -/
theorem result_evaluateFile {P : Session → Prop} {Q : Value → Prop} {parts : List Part}
    {path : String}
    (h : Run.Registered P Q parts .empty ((Run.loadFirst w path).outcome (.start w.machine))) :
    (evaluateFile w path).result.map (Except.mapError EvalError.planError?) =
      some (parts.foldlM Part.apply .empty) := by
  unfold evaluateFile Evaluation.ofRun Run.perform
  change Run.Registered P Q parts .empty ((Run.loadFirst w path).run.run (.start w.machine)) at h
  rcases hend : (Run.loadFirst w path).run.run (.start w.machine) with ⟨v | a, t⟩
  · rw [hend] at h
    obtain ⟨hfold, hv⟩ := h
    rw [hfold, ← EvalError.planError?_ofFault t.machine v]
    cases v with
    | panic n => exact absurd rfl (hv n)
    | _ => rfl
  · rw [hend] at h
    rw [h.1]
    rfl

theorem registered_loadFirst {path : String} (hw : w.Declarative path) :
    Run.Registered (Session.Ready ⟨0⟩ "." []) (fun _ => True)
      (flatten w Item.fitting? [] (w.tree.follow w.directory path)) .empty
      ((Run.loadFirst w path).outcome (.start w.machine)) := by
  have hlevels : ([] : List Location).length + Session.levelLimit = Session.levelLimit :=
    Nat.zero_add _
  exact Run.yields_loadFile hw hlevels (fun l hl => .start hl) [] _ (.start w.machine)

/-- Evaluating a declarative file is registering, one after the other, what it comes to when it
is flattened, up to the first failure. -/
theorem evaluateFile_registers_flattened {path : String} (hw : w.Declarative path) :
    (evaluateFile w path).result.map (Except.mapError EvalError.planError?) =
      some ((flatten w Item.fitting? [] (w.tree.follow w.directory path)).foldlM Part.apply
        .empty) :=
  result_evaluateFile (registered_loadFirst hw)

/-- Declarative files that can be registered have been so after the evaluation, and nothing was
printed. -/
theorem evaluateFile_of_foldlM {path : String} {r : Registry} (hw : w.Declarative path)
    (h : (flatten w Item.fitting? [] (w.tree.follow w.directory path)).foldlM Part.apply .empty =
      .ok r) :
    (evaluateFile w path).result = some (.ok r) ∧ (evaluateFile w path).printed = [] := by
  have hregistered := registered_loadFirst hw
  unfold evaluateFile Evaluation.ofRun
  rcases hend : (Run.loadFirst w path).outcome (.start w.machine) with ⟨v | a, t⟩
  · rw [hend] at hregistered
    cases h.symm.trans hregistered.1
  · rw [hend] at hregistered
    obtain ⟨hfold, hready, -⟩ := hregistered
    obtain rfl : r = t.registry := Except.ok.inj (h.symm.trans hfold)
    rw [Run.perform_of_ok hend]
    exact ⟨rfl, hready.printed⟩

/-- A declarative file that comes to a registry comes to the same on every machine. -/
theorem evaluateFile_on {path : String} {r : Registry} (hw : w.Declarative path)
    (hr : (evaluateFile w path).result = some (.ok r)) (m : Machine) :
    (evaluateFile (w.on m) path).result = some (.ok r) ∧
      (evaluateFile (w.on m) path).printed = (evaluateFile w path).printed := by
  have hfold := result_evaluateFile (registered_loadFirst hw)
  rw [hr] at hfold
  obtain ⟨hresult, hprinted⟩ := evaluateFile_of_foldlM hw (Option.some.inj hfold).symm
  have hfold' : (flatten (w.on m) Item.fitting? [] ((w.on m).tree.follow (w.on m).directory
      path)).foldlM Part.apply .empty = .ok r := by
    rw [flatten_on]
    exact (Option.some.inj hfold).symm
  obtain ⟨hresult', hprinted'⟩ := evaluateFile_of_foldlM (hw.on m) hfold'
  exact ⟨hresult', hprinted'.trans hprinted.symm⟩

/-- Three files, of which two include the third one; its target is then declared anew. -/
def layered : Workspace where
  tree := ⟨[
    (⟨["main"]⟩, .file (Utf8.encode
      "include'lib/all' include'core' project\x7bname='core',requires=\x7b'app'\x7d\x7d")),
    (⟨["lib", "all"]⟩, .file (Utf8.encode
      "composite_target\x7bname='all',required=\x7b'app'\x7d\x7d include'..//core'")),
    (⟨["core"]⟩, .file (Utf8.encode "project\x7bname='core'\x7d"))]⟩
  directory := .root

theorem evaluateFile_registers_flattened_layered :
    layered.Declarative "main" ∧
      ((flatten layered Item.fitting? [] (layered.tree.follow layered.directory "main")).foldlM
        Part.apply .empty).map Registry.names = .error (some (.duplicateTarget ⟨"core"⟩)) := by
  have hw : layered.Declarative "main" := ⟨by decide +kernel, fun l text _ htext =>
    FileTree.isSome_of_isDeclarative (by decide +kernel) htext⟩
  have hnames : ((evaluateFile layered "main").result.map
      (Except.mapError EvalError.planError?)).map (Except.map Registry.names) =
        some (.error (some (.duplicateTarget ⟨"core"⟩))) := by decide +kernel
  rw [evaluateFile_registers_flattened hw] at hnames
  exact ⟨hw, Option.some.inj hnames⟩

/-- Files that include each other through more levels than there are end in a failure, though
without the limit they would declare a target. -/
theorem evaluateFile_nest {n : Nat} (hn : Session.levelLimit ≤ n) (hn' : n ≤ 2000) :
    (Workspace.nest n).Declarative "a" ∧
      ((flatten (.nest n) Item.anywhere? []
        ((Workspace.nest n).tree.follow (Workspace.nest n).directory "a")).foldlM
          Part.apply .empty).map Registry.names = .ok [⟨"a"⟩] ∧
      (evaluateFile (.nest n) "a").result.map (Except.mapError EvalError.planError?) =
        some (.error none) := by
  have hw := Nest.declarative n
  have hfollow : (Workspace.nest n).tree.follow (Workspace.nest n).directory "a" =
      .ok (Nest.file 0) := (Nest.holds_nest n).follow_first hn'
  refine ⟨hw, ?_, ?_⟩
  · have hread : ∀ m ≤ n, ∀ text, (Chunk.ofText Nest.depth text).isOk →
        Item.anywhere? m text = Item.ofText? text := fun _ _ _ _ => rfl
    have hbound : ([] : List Location).length + n ≤ n := Nat.le_of_eq (Nat.zero_add n)
    have hparts := Nest.flatten_eq_declaration hread (Nest.holds_nest n) hn' (Nat.zero_add n)
      hbound fun _ _ => List.not_mem_nil
    rw [hfollow, hparts]
    rfl
  · have hlevels : ([] : List Location).length + Session.levelLimit = Session.levelLimit :=
      Nat.zero_add _
    have hparts := Nest.flatten_fitting? (Nest.holds_nest n) hn'
      ((Nat.zero_add _).trans_le hn) hlevels
    rw [result_evaluateFile (registered_loadFirst hw), hfollow, hparts]
    rfl

theorem evaluateFile_nest_209 :
    (Workspace.nest 209).Declarative "a" ∧
      ((flatten (.nest 209) Item.anywhere? []
        ((Workspace.nest 209).tree.follow (Workspace.nest 209).directory "a")).foldlM
          Part.apply .empty).map Registry.names = .ok [⟨"a"⟩] ∧
      (evaluateFile (.nest 209) "a").result.map (Except.mapError EvalError.planError?) =
        some (.error none) :=
  evaluateFile_nest (by decide) (by decide)

end BuildPlan
