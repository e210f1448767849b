import Mathlib.Logic.Relation
import BuildPlan.Proofs.Declarative.Registration
import BuildPlan.Proofs.Session.Growth

/-! # Visits

In a run of declarative files nothing is caught, so the files are loaded one after the other, or
one inside another.  A `Visit` is one such load: a file is asked for by a step of the file around
it (`Visit.Asks`), in the session that the steps before have left.

A visit ends as the step that asks for it does (`Visit.Asks.outcome_exec`), so a visit that is over
before another one begins has succeeded (`Visit.InOrder.grows`), and all that it declared is still
declared then.  What a visit registers is known from the flattened file (`Visit.foldlM_parts`). -/

namespace BuildPlan

/-! ### The steps of a chunk -/

section

variable {α β : Type} {f : α → Option β} {xs : List α} {ys : List β}

theorem getElem?_of_mapM (h : xs.mapM f = some ys) (i : Nat) : xs[i]?.bind f = ys[i]? := by
  induction xs generalizing ys i with
  | nil =>
      obtain rfl : [] = ys := Option.some.inj h
      rfl
  | cons x xs ih =>
      obtain ⟨y, ys', hy, hys', rfl⟩ := mapM_cons_eq_some h
      cases i with
      | zero => exact hy
      | succ i => exact ih hys' i

theorem mapM_take (h : xs.mapM f = some ys) (i : Nat) :
    (xs.take i).mapM f = some (ys.take i) := by
  induction xs generalizing ys i with
  | nil =>
      obtain rfl : [] = ys := Option.some.inj h
      rw [List.take_nil, List.take_nil]
      rfl
  | cons x xs ih =>
      obtain ⟨y, ys', hy, hys', rfl⟩ := mapM_cons_eq_some h
      cases i with
      | zero => rfl
      | succ i =>
          rw [List.take_succ_cons, List.take_succ_cons, List.mapM_cons, hy, ih hys' i]
          rfl

theorem eq_take_append_cons {x : α} {i : Nat} (h : xs[i]? = some x) :
    xs = xs.take i ++ x :: xs.drop (i + 1) := by
  obtain ⟨hi, hx⟩ := List.getElem?_eq_some_iff.1 h
  rw [← hx, ← List.drop_eq_getElem_cons hi, List.take_append_drop]

end

namespace Chunk

/-- What a chunk does, in order: the expressions whose values it answers come last. -/
def steps (c : Chunk) : List Statement := c.statements ++ c.answers.map .call

theorem mapM_steps {c : Chunk} {items : List Item} (h : c.items? = some items) :
    c.steps.mapM Statement.item? = some items := by
  obtain ⟨done, hdone, h⟩ := Option.bind_eq_some_iff.1 h
  obtain ⟨answered, hanswered, h⟩ := Option.bind_eq_some_iff.1 h
  have hanswers : (c.answers.map Statement.call).mapM Statement.item? = some answered := by
    rw [List.mapM_map]
    exact hanswered
  rw [steps, List.mapM_append, hdone, hanswers]
  exact h

end Chunk

theorem Statement.item?_inclusion {e : Expr} {path : String} (h : e.text? = some path)
    (line : Nat) : (call (.call (.name "include") [e] line)).item? = some (.inclusion path) := by
  have hproject : "include" ≠ Kind.function .project := by decide
  have hcomposite : "include" ≠ Kind.function .composite := by decide
  rw [item?, Expr.item?, if_neg hproject, if_neg hcomposite, if_pos rfl, h]
  rfl

theorem Expr.declaration?_ne_inclusion {kind : Kind} {e : Expr} {path : String} :
    e.declaration? kind ≠ some (.inclusion path) := by
  intro h
  unfold declaration? at h
  split at h
  · obtain ⟨entries, -, h⟩ := Option.bind_eq_some_iff.1 h
    obtain ⟨spec, -, h⟩ := Option.bind_eq_some_iff.1 h
    cases h
  · cases h

/-- Only the call of `include` with a text is an inclusion. -/
theorem Statement.eq_of_item?_inclusion {st : Statement} {path : String}
    (h : st.item? = some (.inclusion path)) :
    ∃ e line, st = .call (.call (.name "include") [e] line) ∧ e.text? = some path := by
  unfold item? at h
  split at h
  next e =>
    unfold Expr.item? at h
    split at h
    next f e line =>
      split at h
      · exact absurd h Expr.declaration?_ne_inclusion
      · split at h
        · exact absurd h Expr.declaration?_ne_inclusion
        · split at h
          next hf =>
            obtain ⟨given, hgiven, heq⟩ := Option.map_eq_some_iff.1 h
            obtain rfl := Item.inclusion.inj heq
            exact ⟨e, line, by rw [hf], hgiven⟩
          · cases h
    · cases h
  · cases h

namespace Activation

open Run

variable {a : Activation} {env env' : Locals} {ss : List Statement} {s t : Session}

theorem execAll_append (a : Activation) (env : Locals) (ss ss' : List Statement) :
    a.execAll env (ss ++ ss') = a.execAll env ss >>= fun env => a.execAll env ss' := by
  induction ss generalizing env with
  | nil => rw [List.nil_append, execAll, pure_bind]
  | cons st ss ih => simp only [List.cons_append, execAll, bind_assoc, ih]

theorem execAll_calls (a : Activation) (env : Locals) (es : List Expr) :
    a.execAll env (es.map .call) = evalList a env es >>= fun _ => pure env := by
  induction es with
  | nil => simp only [List.map_nil, execAll, evalList, pure_bind]
  | cons e es ih =>
      simp only [List.map_cons, execAll, exec, bind_assoc, pure_bind] at ih ⊢
      rw [ih]
      cases es with
      | nil => simp [evalList]
      | cons next es => simp [evalList]

/-- Running a chunk comes to carrying out its steps. -/
theorem execAll_steps_of_run {c : Chunk} {answers : List Value}
    (h : (a.run c).outcome s = (.ok answers, t)) :
    ∃ env, (a.execAll [] c.steps).outcome s = (.ok env, t) := by
  unfold run at h
  rw [outcome_bind] at h
  rw [Chunk.steps, execAll_append, outcome_bind]
  cases hend : (a.execAll [] c.statements).outcome s with
  | mk ending u =>
      rw [hend] at h
      cases ending with
      | error v => cases h
      | ok env =>
          refine ⟨env, ?_⟩
          dsimp only
          rw [execAll_calls, outcome_bind_of_ok h]
          exact outcome_pure env

/-- Declarations and inclusions bring no local variable into scope. -/
theorem env_eq_of_execAll {items : List Item} (h : ss.mapM Statement.item? = some items)
    (hend : (a.execAll env ss).outcome s = (.ok env', t)) : env' = env := by
  induction ss generalizing items s with
  | nil =>
      rw [execAll, outcome_pure] at hend
      cases hend
      rfl
  | cons st ss ih =>
      obtain ⟨item, rest, hst, hrest, -⟩ := mapM_cons_eq_some h
      unfold Statement.item? at hst
      split at hst
      next e =>
        simp only [execAll, exec, bind_assoc, pure_bind, outcome_bind] at hend
        split at hend
        · exact ih hrest hend
        · cases hend
      · cases hst

/-- Steps that succeed go on from where the first of them have led to. -/
theorem execAll_split {before rest : List Statement} {st : Statement} {u : Session}
    (hbefore : (a.execAll [] before).outcome s = (.ok [], t))
    (h : (a.execAll [] (before ++ st :: rest)).outcome s = (.ok env, u)) :
    ∃ env' t', (a.exec [] st).outcome t = (.ok env', t') ∧
      (a.execAll env' rest).outcome t' = (.ok env, u) := by
  rw [execAll_append, outcome_bind_of_ok hbefore, execAll, outcome_bind] at h
  split at h
  next env' t' hst => exact ⟨env', t', hst, h⟩
  next => cases h

/-- Declarations and inclusions register the parts of their items. -/
theorem yields_steps {P : Session → Prop} {included : String → List Part} {items : List Item}
    (h : ss.mapM Statement.item? = some items) (hitems : a.Registers P included items) :
    (a.execAll [] ss).Yields P (fun _ => True) (items.flatMap (Item.parts included)) := by
  have hnothing : ((Pure.pure : Locals → Run Locals) []).Yields P (fun _ => True) [] :=
    .pure trivial
  have hsteps := yields_execAll h hitems hnothing
  rwa [List.append_nil, bind_pure] at hsteps

end Activation

/-- A file is closed with an answer only if its text has answered. -/
theorem Session.exists_of_close {l : Location} {r : Ref} {directory answer : Value}
    {ending : Except Value (List Value) × Session} {t : Session}
    (h : close l r directory (finished ending) = (.ok answer, t)) :
    ∃ answers u, ending = (.ok answers, u) ∧ u.Grows t := by
  rcases ending with ⟨v | answers, u⟩
  · rw [finished] at h
    cases hfailure : u.failure v <;> rw [hfailure] at h <;> cases h
  · refine ⟨answers, u, rfl, ?_⟩
    rw [finished] at h
    cases htake : u.take (firstValue answers) with
    | ok v =>
        rw [htake] at h
        obtain rfl : u.closed l r directory = t := congrArg Prod.snd h
        exact .of_registry_eq rfl
    | error i =>
        rw [htake] at h
        cases i <;> cases h

/-- The text of a file that ends well has been read and run on a level of its own. -/
theorem Run.evaluateFileText_eq_ok {w : Workspace} {levels : Nat} {callers : List Caller}
    {l : Location} {text : String} {answers : List Value} {s t : Session}
    (h : (evaluateFileText w levels levels callers l text).outcome s = (.ok answers, t)) :
    ∃ below c, levels = below + 1 ∧ Chunk.ofText (below + 1) text = .ok c ∧
      (Activation.run ⟨fileChunkName l, callers, loadFile w below, below⟩ c).outcome s =
        (.ok answers, t) := by
  cases levels with
  | zero => cases h
  | succ below =>
      unfold evaluateFileText evaluate at h
      dsimp only at h
      cases hc : Chunk.ofText (below + 1) text with
      | error refusal =>
          rw [hc] at h
          cases refusal <;> cases h
      | ok c =>
          rw [hc] at h
          exact ⟨below, c, rfl, hc, h⟩

/-! ### Visits -/

/-- A file that is loaded under a path: in which session, for which callers, and how many levels may
still be opened. -/
structure Visit where
  levels : Nat
  callers : List Caller
  path : String
  session : Session

namespace Visit

/-- How a visit ends, and the session that it leaves. -/
def outcome (w : Workspace) (v : Visit) : Except Value Value × Session :=
  (Run.loadFile w v.levels v.levels v.callers v.path).outcome v.session

/-- The visit of the start file. -/
def first (w : Workspace) (path : String) : Visit :=
  ⟨Session.levelLimit, [], path, .start w.machine⟩

/-- The file is at a location, and its text is a chunk that is run from a session on. -/
inductive Runs (w : Workspace) : Visit → Location → Activation → Chunk → Session → Prop
  | intro {levels : Nat} {callers : List Caller} {path : String} {s : Session} {l : Location}
      {text : String} {r : Ref} {directory : Value} {c : Chunk}
      (hopening : s.opening w path = .ok (l, text, r, directory))
      (hc : Chunk.ofText (levels + 1) text = .ok c) :
      Runs w ⟨levels + 1, callers, path, s⟩ l
        ⟨fileChunkName l, callers, Run.loadFile w levels, levels⟩ c (s.opened path l r)

/-- The step with a number asks for another visit: the steps before it have succeeded, and it
includes a file by a path as seen from the directory of this one. -/
inductive Asks (w : Workspace) (v : Visit) (i : Nat) : Visit → Prop
  | intro {l : Location} {a : Activation} {c : Chunk} {s t : Session} {e : Expr} {line : Nat}
      {path : String} (hruns : v.Runs w l a c s)
      (hstep : c.steps[i]? = some (.call (.call (.name "include") [e] line)))
      (hpath : e.text? = some path)
      (hbefore : (a.execAll [] (c.steps.take i)).outcome s = (.ok [], t)) :
      Asks w v i ⟨a.room, .function :: a.callersAt line ((Expr.name "include").origin []),
        Path.join l.parent.path path, t⟩

/-- The second visit is the first one, or is asked for inside it. -/
abbrev Contains (w : Workspace) : Visit → Visit → Prop :=
  Relation.ReflTransGen fun v v' => ∃ i, v.Asks w i v'

/-- Inside a visit there are two others, of which the first one is over before the second one
begins: an earlier and a later step of one file have asked for them, or for visits that contain
them. -/
inductive InOrder (w : Workspace) (v v₁ v₂ : Visit) : Prop
  | intro {around p₁ p₂ : Visit} {i j : Nat} (haround : v.Contains w around) (hij : i < j)
      (hp₁ : around.Asks w i p₁) (hp₂ : around.Asks w j p₂) (hv₁ : p₁.Contains w v₁)
      (hv₂ : p₂.Contains w v₂)

/-- What the visited file comes to where it is visited. -/
def parts (w : Workspace) (v : Visit) : List Part :=
  flatten w Item.fitting? v.session.loading (w.tree.follow w.directory v.path)

/-- A visit in a run of declarative files. -/
structure Proper (w : Workspace) (start : String) (v : Visit) : Prop where
  ready : ∃ directory : String, v.session.Ready ⟨0⟩ directory v.session.loading
  levels : v.session.loading.length + v.levels = Session.levelLimit
  included : ∀ l, w.tree.follow w.directory v.path = .ok l → w.Included start l

variable {w : Workspace} {start : String} {v v' v₁ v₂ : Visit} {i j : Nat} {l : Location}
  {a : Activation} {c : Chunk} {s t : Session}

theorem Runs.unique {l' : Location} {a' : Activation} {c' : Chunk} {s' : Session}
    (h : v.Runs w l a c s) (h' : v.Runs w l' a' c' s') : l' = l ∧ a' = a ∧ c' = c ∧ s' = s := by
  obtain ⟨hopening, hc⟩ := h
  obtain ⟨hopening', hc'⟩ := h'
  obtain ⟨rfl, rfl, rfl, rfl⟩ : _ ∧ _ ∧ _ ∧ _ := by
    simpa using Except.ok.inj (hopening'.symm.trans hopening)
  obtain rfl := Except.ok.inj (hc'.symm.trans hc)
  exact ⟨rfl, rfl, rfl, rfl⟩

/-- A visit that succeeds has run its file, all steps of which have succeeded. -/
theorem exists_runs {answer : Value} (h : v.outcome w = (.ok answer, t)) :
    ∃ l a c s env u, v.Runs w l a c s ∧ (a.execAll [] c.steps).outcome s = (.ok env, u) ∧
      u.Grows t := by
  obtain ⟨levels, callers, path, s⟩ := v
  change (Run.loadFile w levels levels callers path).outcome s = _ at h
  cases hopening : s.opening w path with
  | error i =>
      obtain ⟨events, hend⟩ := Run.outcome_loadFile_of_error hopening
      rw [hend] at h
      cases i <;> cases h
  | ok found =>
      obtain ⟨l, text, r, directory⟩ := found
      rw [Run.outcome_loadFile_of_ok hopening] at h
      obtain ⟨answers, u, hend, hgrows⟩ := Session.exists_of_close h
      obtain ⟨below, c, rfl, hc, hrun⟩ := Run.evaluateFileText_eq_ok hend
      obtain ⟨env, hsteps⟩ := Activation.execAll_steps_of_run hrun
      exact ⟨l, _, c, _, env, u, .intro hopening hc, hsteps, hgrows⟩

/-! ### Visits of declarative files -/

theorem Proper.first (w : Workspace) (start : String) : (first w start).Proper w start where
  ready := ⟨_, .start w.machine⟩
  levels := Nat.zero_add _
  included _ hl := .start hl

/-- The steps of a visited file are the items of a declarative text, and register what these come
to. -/
structure Contents (w : Workspace) (v : Visit) (l : Location) (a : Activation) (c : Chunk)
    (s : Session) (items : List Item) : Prop where
  found : w.tree.follow w.directory v.path = .ok l
  text : ∃ text, w.tree.read l = .ok text ∧ Item.ofText? text = some items
  steps : c.steps.mapM Statement.item? = some items
  levels : a.room + 1 = v.levels
  ready : s.Ready ⟨0⟩ l.parent.path (l :: v.session.loading)
  registry : s.registry = v.session.registry
  registers : a.Registers (Session.Ready ⟨0⟩ l.parent.path (l :: v.session.loading))
    (fun path => flatten w Item.fitting? (l :: v.session.loading) (w.tree.named l.parent path))
    items

theorem Proper.exists_contents (hw : w.Declarative start) (hv : v.Proper w start)
    (h : v.Runs w l a c s) : ∃ items, v.Contents w l a c s items := by
  obtain ⟨⟨directory, hready⟩, hlevels, hincluded⟩ := hv
  cases h with
  | @intro levels callers path s l text r directory' c hopening hc =>
      obtain ⟨hl, htext, -, hstate, -⟩ := Session.opening_eq_ok_iff.1 hopening
      obtain rfl : ⟨0⟩ = r := Value.table.inj (hready.holds.symm.trans hstate)
      obtain ⟨items, hsaid, hfitting⟩ :=
        Run.exists_items_of_ofText hw hlevels (hincluded l hl) htext hc
      have hitems := (Item.fitting?_eq_some_iff.1 hfitting).2.2
      have hbelow : (l :: s.loading).length + levels = Session.levelLimit := by
        rw [List.length_cons, Nat.add_right_comm]
        exact hlevels
      refine ⟨items, hl, ⟨text, htext, hitems⟩, Chunk.mapM_steps hsaid, rfl,
        hready.opened path l, rfl, ?_⟩
      exact Run.registers_of_loads hw hlevels (hincluded l hl) htext hc hsaid hitems
        (fun _ callers' hfound => Run.yields_loadFile hw hbelow hfound callers') callers

namespace Contents

variable {items : List Item}

/-- The first steps of a file register what the first items come to. -/
theorem registered_take (h : v.Contents w l a c s items) (i : Nat) :
    Run.Registered (Session.Ready ⟨0⟩ l.parent.path (l :: v.session.loading)) (fun _ => True)
      ((items.take i).flatMap (Item.parts fun path =>
        flatten w Item.fitting? (l :: v.session.loading) (w.tree.named l.parent path)))
      v.session.registry ((a.execAll [] (c.steps.take i)).outcome s) := by
  have hbefore : a.Registers _ _ (items.take i) :=
    fun item hitem => h.registers item (List.mem_of_mem_take hitem)
  have hregistered := Activation.yields_steps (mapM_take h.steps i) hbefore s h.ready
  rwa [h.registry] at hregistered

/-- The session that the first steps of a file reach is one in which its directory is set. -/
theorem ready_of_take (h : v.Contents w l a c s items)
    (hbefore : (a.execAll [] (c.steps.take i)).outcome s = (.ok [], t)) :
    t.Ready ⟨0⟩ l.parent.path (l :: v.session.loading) := by
  have hregistered := h.registered_take i
  rw [hbefore] at hregistered
  exact hregistered.2.1

end Contents

/-- What is visited in a run of declarative files is visited in such a run. -/
theorem Asks.proper (hw : w.Declarative start) (hv : v.Proper w start) (h : v.Asks w i v') :
    v'.Proper w start := by
  cases h with
  | @intro l a c s t e line path hruns hstep hpath hbefore =>
      obtain ⟨items, hcontents⟩ := hv.exists_contents hw hruns
      have hready := hcontents.ready_of_take hbefore
      have hlevels := hv.levels
      have hroom := hcontents.levels
      refine ⟨⟨_, hready.loading.symm ▸ hready⟩, ?_, fun m hm => ?_⟩
      · change t.loading.length + a.room = Session.levelLimit
        rw [hready.loading, List.length_cons]
        omega
      · have hl := hv.included l hcontents.found
        have hstanding : w.tree.Standing l.parent := (hw.standing hl).parent
        have hitem : .inclusion path ∈ items := by
          have hget := getElem?_of_mapM hcontents.steps i
          rw [hstep] at hget
          exact List.mem_of_getElem? (hget.symm.trans (Statement.item?_inclusion hpath line))
        obtain ⟨text, htext, hitems⟩ := hcontents.text
        change w.tree.follow w.directory (Path.join l.parent.path path) = .ok m at hm
        rw [hstanding.follow_join] at hm
        exact .step hl htext hitems hitem hm

theorem Contains.proper (hw : w.Declarative start) (hv : v.Proper w start)
    (h : v.Contains w v') : v'.Proper w start := by
  induction h with
  | refl => exact hv
  | tail _ hasks ih => exact hasks.choose_spec.proper hw ih

theorem InOrder.proper (hw : w.Declarative start) (hv : v.Proper w start)
    (h : v.InOrder w v₁ v₂) : v₁.Proper w start ∧ v₂.Proper w start := by
  cases h with
  | intro haround _ hp₁ hp₂ hv₁ hv₂ =>
      have hproper := haround.proper hw hv
      exact ⟨hv₁.proper hw (hp₁.proper hw hproper), hv₂.proper hw (hp₂.proper hw hproper)⟩

/-! ### What becomes of the registry -/

theorem Runs.scripted (h : v.Runs w l a c s) (env : Locals) (ss : List Statement) :
    Run.Scripted w a.room (a.execAll env ss) := by
  cases h with
  | @intro levels callers path s l text r directory c _ _ =>
      exact .execAll ⟨fileChunkName l, callers, Run.loadFile w levels, levels⟩
        (Run.loadFile w levels) env ss

theorem Asks.grows (h : v.Asks w i v') : v.session.Grows v'.session := by
  cases h with
  | @intro l a c s t e line path hruns hstep hpath hbefore =>
      have hgrows := Run.grows_of_scripted (hruns.scripted [] (c.steps.take i)) s
      rw [hbefore] at hgrows
      cases hruns with
      | intro => exact (Session.Grows.opened _ _ _ _).trans hgrows

theorem Contains.grows (h : v.Contains w v') : v.session.Grows v'.session := by
  induction h with
  | refl => exact .refl _
  | tail _ hasks ih => exact ih.trans hasks.choose_spec.grows

/-- A step that asks for a visit ends as the visit does. -/
theorem Asks.outcome_exec (hw : w.Declarative start) (hv : v.Proper w start)
    (hruns : v.Runs w l a c s) (h : v.Asks w i v') :
    ∃ st, c.steps[i]? = some st ∧
      (a.execAll [] (c.steps.take i)).outcome s = (.ok [], v'.session) ∧
      (a.exec [] st).outcome v'.session =
        match Session.called (v'.outcome w) with
        | (.ok _, t) => (.ok [], t)
        | (.error e, t) => (.error (if a.room = 0 then Run.exhausted else e), t) := by
  cases h with
  | @intro l' a' c' s' t e line path hruns' hstep hpath hbefore =>
      obtain ⟨rfl, rfl, rfl, rfl⟩ := hruns.unique hruns'
      obtain ⟨items, hcontents⟩ := hv.exists_contents hw hruns
      have hready := hcontents.ready_of_take hbefore
      refine ⟨_, hstep, hbefore, ?_⟩
      obtain ⟨value, hvalue, heval⟩ := Activation.eval_of_text? a' [] hpath
      have hload : a'.load = Run.loadFile w a'.room := by
        cases hruns with
        | intro => rfl
      rw [Activation.exec, Run.outcome_bind, Activation.outcome_eval_call hready.includes (heval t),
        Activation.outcome_call, Activation.outcome_call_include hready hvalue, hload]
      unfold outcome
      dsimp only
      rcases Session.called
        ((Run.loadFile w a'.room a'.room _ (Path.join l'.parent.path path)).outcome t) with
        ⟨e | answer, u⟩
      · rfl
      · rfl

/-- A visit is over, and has succeeded, when the steps after the one that asks for it go on. -/
theorem Asks.exists_outcome (hw : w.Declarative start) (hv : v.Proper w start)
    (hruns : v.Runs w l a c s) (h : v.Asks w i v') {n : Nat} (hn : i < n) {env : Locals}
    (hend : (a.execAll [] (c.steps.take n)).outcome s = (.ok env, t)) :
    ∃ answer u, v'.outcome w = (.ok answer, u) ∧ u.Grows t := by
  obtain ⟨st, hstep, hbefore, hexec⟩ := h.outcome_exec hw hv hruns
  have hget : (c.steps.take n)[i]? = some st := by rw [List.getElem?_take_of_lt hn, hstep]
  have htake : (c.steps.take n).take i = c.steps.take i := by
    rw [List.take_take, Nat.min_eq_left (Nat.le_of_lt hn)]
  rw [eq_take_append_cons hget, htake] at hend
  obtain ⟨env', u, hst, hrest⟩ := Activation.execAll_split hbefore hend
  rw [hexec] at hst
  cases hvisit : v'.outcome w with
  | mk ending u' =>
      rw [hvisit] at hst
      cases ending with
      | error e => cases e <;> cases hst
      | ok answer =>
          obtain rfl : u' = u := congrArg Prod.snd hst
          have hgrows := Run.grows_of_scripted
            (hruns.scripted env' ((c.steps.take n).drop (i + 1))) u'
          rw [hrest] at hgrows
          exact ⟨answer, u', rfl, hgrows⟩

/-- All visits inside one that succeeds have succeeded. -/
theorem Contains.exists_outcome (hw : w.Declarative start) (hv : v.Proper w start)
    (h : v.Contains w v') {answer : Value} (hend : v.outcome w = (.ok answer, t)) :
    ∃ answer' u, v'.outcome w = (.ok answer', u) ∧ u.Grows t := by
  induction h using Relation.ReflTransGen.head_induction_on generalizing answer t with
  | refl => exact ⟨answer, t, hend, .refl t⟩
  | head hasks _ ih =>
      obtain ⟨i, hasks⟩ := hasks
      obtain ⟨l, a, c, s, env, u, hruns, hsteps, hclosed⟩ := exists_runs hend
      have hproper := hasks.proper hw hv
      obtain ⟨st, hstep, -, -⟩ := hasks.outcome_exec hw hv hruns
      have hi : i < c.steps.length := (List.getElem?_eq_some_iff.1 hstep).1
      rw [← List.take_length (l := c.steps)] at hsteps
      obtain ⟨answer', u', hend', hgrows⟩ := hasks.exists_outcome hw hv hruns hi hsteps
      obtain ⟨answer'', u'', hend'', hgrows'⟩ := ih hproper hend'
      exact ⟨answer'', u'', hend'', (hgrows'.trans hgrows).trans hclosed⟩

/-- A visit that is over before another one begins has succeeded, and what is declared then is still
declared when the other one begins. -/
theorem InOrder.grows (hw : w.Declarative start) (hv : v.Proper w start)
    (h : v.InOrder w v₁ v₂) :
    ∃ answer t, v₁.outcome w = (.ok answer, t) ∧ t.Grows v₂.session := by
  cases h with
  | @intro around p₁ p₂ i j haround hij hp₁ hp₂ hv₁ hv₂ =>
      have hproper := haround.proper hw hv
      cases hp₂ with
      | @intro l a c s t e line path hruns hstep hpath hbefore =>
          obtain ⟨answer, u, hend, hgrows⟩ := hp₁.exists_outcome hw hproper hruns hij hbefore
          have hp₁proper := hp₁.proper hw hproper
          obtain ⟨answer', u', hend', hgrows'⟩ := hv₁.exists_outcome hw hp₁proper hend
          exact ⟨answer', u', hend', (hgrows'.trans hgrows).trans hv₂.grows⟩

/-! ### What a visit registers -/

theorem Proper.registered (hw : w.Declarative start) (hv : v.Proper w start) :
    ∃ P Q, Run.Registered P Q (v.parts w) v.session.registry (v.outcome w) := by
  obtain ⟨directory, hready⟩ := hv.ready
  exact ⟨_, _, Run.yields_loadFile hw hv.levels hv.included v.callers v.session hready⟩

/-- A visit that succeeds leaves the registry with the parts of its file. -/
theorem Proper.foldlM_parts (hw : w.Declarative start) (hv : v.Proper w start) {answer : Value}
    (hend : v.outcome w = (.ok answer, t)) :
    (v.parts w).foldlM Part.apply v.session.registry = .ok t.registry := by
  obtain ⟨P, Q, hregistered⟩ := hv.registered hw
  rw [hend] at hregistered
  exact hregistered.1

/-- A visit succeeds if the parts of its file can be registered. -/
theorem Proper.exists_outcome (hw : w.Declarative start) (hv : v.Proper w start) {r : Registry}
    (hparts : (v.parts w).foldlM Part.apply v.session.registry = .ok r) :
    ∃ answer t, v.outcome w = (.ok answer, t) ∧ t.registry = r := by
  obtain ⟨P, Q, hregistered⟩ := hv.registered hw
  cases hend : v.outcome w with
  | mk ending t =>
      rw [hend] at hregistered
      cases ending with
      | error e => cases hparts.symm.trans hregistered.1
      | ok answer =>
          exact ⟨answer, t, rfl, Except.ok.inj (hregistered.1.symm.trans hparts)⟩

/-! ### Which visits there are -/

/-- A file that fits where it is visited is run. -/
theorem Proper.exists_runs (hw : w.Declarative start) (hv : v.Proper w start) {text : String}
    {items : List Item} (hl : w.tree.follow w.directory v.path = .ok l)
    (htext : w.tree.read l = .ok text) (hmem : l ∉ v.session.loading)
    (hitems : Item.fitting? v.session.loading.length text = some items) :
    ∃ a c s, v.Runs w l a c s ∧ v.Contents w l a c s items := by
  obtain ⟨hlt, hread, hofText⟩ := Item.fitting?_eq_some_iff.1 hitems
  have hlevels := hv.levels
  have hleft : Session.levelLimit - v.session.loading.length = v.levels := by omega
  obtain ⟨levels, hsucc⟩ : ∃ n, v.levels = n + 1 := ⟨v.levels - 1, by omega⟩
  rw [hleft, hsucc] at hread
  cases hc : Chunk.ofText (levels + 1) text with
  | error refusal =>
      rw [hc] at hread
      cases hread
  | ok c =>
      obtain ⟨directory, hready⟩ := hv.ready
      have hopening := Session.opening_eq_ok_iff.2 ⟨hl, htext, hmem, hready.holds, hready.take_dir⟩
      obtain ⟨_, callers, path, s⟩ := v
      obtain rfl := hsucc
      have hruns : Runs w ⟨levels + 1, callers, path, s⟩ l _ c _ := .intro hopening hc
      obtain ⟨items', hcontents⟩ := hv.exists_contents hw hruns
      obtain ⟨text', htext', hitems'⟩ := hcontents.text
      obtain rfl := Except.ok.inj (htext.symm.trans htext')
      obtain rfl := Option.some.inj (hofText.symm.trans hitems')
      exact ⟨_, c, _, hruns, hcontents⟩

/-- An inclusion is visited if what is said before it can be registered. -/
theorem Proper.exists_asks (hw : w.Declarative start) (hv : v.Proper w start) {text : String}
    {items : List Item} {path : String} {r : Registry}
    (hl : w.tree.follow w.directory v.path = .ok l) (htext : w.tree.read l = .ok text)
    (hmem : l ∉ v.session.loading)
    (hitems : Item.fitting? v.session.loading.length text = some items)
    (hitem : items[i]? = some (.inclusion path))
    (hbefore : ((items.take i).flatMap (Item.parts fun path =>
      flatten w Item.fitting? (l :: v.session.loading) (w.tree.named l.parent path))).foldlM
        Part.apply v.session.registry = .ok r) :
    ∃ v', v.Asks w i v' ∧ v'.path = Path.join l.parent.path path ∧
      w.tree.follow w.directory v'.path = w.tree.named l.parent path ∧
      v'.levels + 1 = v.levels ∧ v'.session.loading = l :: v.session.loading ∧
      v'.session.registry = r := by
  obtain ⟨a, c, s, hruns, hcontents⟩ := hv.exists_runs hw hl htext hmem hitems
  have hget := getElem?_of_mapM hcontents.steps i
  rw [hitem] at hget
  obtain ⟨st, hst, hstItem⟩ := Option.bind_eq_some_iff.1 hget
  obtain ⟨e, line, rfl, he⟩ := Statement.eq_of_item?_inclusion hstItem
  have hregistered := hcontents.registered_take i
  cases hend : (a.execAll [] (c.steps.take i)).outcome s with
  | mk ending t =>
      rw [hend] at hregistered
      cases ending with
      | error e => cases hbefore.symm.trans hregistered.1
      | ok env =>
          obtain rfl := Activation.env_eq_of_execAll (mapM_take hcontents.steps i) hend
          obtain ⟨hregistry, hready, -⟩ := hregistered
          have hstanding := (hw.standing (hv.included l hl)).parent
          exact ⟨_, .intro hruns hst he hend, rfl, hstanding.follow_join _ _, hcontents.levels,
            hready.loading, Except.ok.inj (hregistry.symm.trans hbefore)⟩

/-- If a run starts with a file that includes two others, and the first of these can be registered,
then all that is visited in the second one comes later. -/
theorem exists_of_two_inclusions (hw : w.Declarative start) {l : Location}
    {text path₁ path₂ : String} {r : Registry}
    (hl : w.tree.follow w.directory start = .ok l) (htext : w.tree.read l = .ok text)
    (hitems : Item.fitting? 0 text = some [.inclusion path₁, .inclusion path₂])
    (hparts : (flatten w Item.fitting? [l] (w.tree.named l.parent path₁)).foldlM Part.apply
      .empty = .ok r) :
    ∃ v₁ v₂ : Visit, (∀ v, v₂.Contains w v → (first w start).InOrder w v₁ v) ∧
      (v₁.path = Path.join l.parent.path path₁ ∧
        w.tree.follow w.directory v₁.path = w.tree.named l.parent path₁) ∧
      v₂.Proper w start ∧ w.tree.follow w.directory v₂.path = w.tree.named l.parent path₂ ∧
      v₂.levels = 198 ∧ v₂.session.loading = [l] ∧ v₂.session.registry = r := by
  have hproper := Proper.first w start
  have hidle : (first w start).session.loading = [] := rfl
  have hmem : l ∉ (first w start).session.loading := List.not_mem_nil
  have hsaid : Item.fitting? (first w start).session.loading.length text =
      some [.inclusion path₁, .inclusion path₂] := by
    rw [hidle]
    exact hitems
  have hbefore : ([Item.inclusion path₁].flatMap (Item.parts fun path =>
      flatten w Item.fitting? [l] (w.tree.named l.parent path))).foldlM Part.apply .empty =
        .ok r := by
    rw [List.flatMap_singleton]
    exact hparts
  obtain ⟨v₁, hv₁, hpath₁, hfollow₁, -⟩ :=
    hproper.exists_asks hw hl htext hmem hsaid (i := 0) rfl rfl
  obtain ⟨v₂, hv₂, -, hfollow₂, hlevels, hloading, hregistry⟩ :=
    hproper.exists_asks hw hl htext hmem hsaid (i := 1) rfl hbefore
  have hfull : (first w start).levels = 199 := rfl
  exact ⟨v₁, v₂, fun v hv => .intro .refl Nat.zero_lt_one hv₁ hv₂ .refl hv, ⟨hpath₁, hfollow₁⟩,
    hv₂.proper hw hproper, hfollow₂, by omega, hloading, hregistry⟩

end Visit

end BuildPlan
