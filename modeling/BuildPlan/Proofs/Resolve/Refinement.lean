import BuildPlan.Resolve
import BuildPlan.Proofs.Plan
import BuildPlan.Proofs.Resolve.Postorder

/-! # The walk refines the recursion

The walk of `resolve` keeps its frames on a stack of its own and remembers the leaves of every
name that it has left.  `Walk.Agrees` relates such a walk to the resolved names of the recursion
`Registry.postorder`: the marks are those of the resolved names and of the stack, with the leaves
that `Registry.leaves` computes without any memory, and the steps are those of the resolved
projects.  Entering a name and leaving a frame keep the relation, so the iterations on the
pending names of a frame end where the recursion on these names ends (`follows_postorder`), with
the same resolved names or the same error.  Main statement: `map_steps_resolve`. -/

namespace BuildPlan

namespace Walk

/-- The names on the stack, innermost first. -/
def path (w : Walk) : List TargetName := w.frames.map Frame.name

/-- The mark of a name, given the names on the stack and the resolved names. -/
def markOf (r : Registry) (path resolved : List TargetName) (n : TargetName) : Option Mark :=
  if n ∈ resolved then some (.done (r.leaves n))
  else if n ∈ path then some .opened
  else none

/-- The walk stands where the recursion has resolved the given names. -/
structure Agrees (r : Registry) (w : Walk) (resolved : List TargetName) : Prop where
  descriptor_of_mem_frames : ∀ f ∈ w.frames, r.get? f.name = some f.descriptor
  mark_eq : ∀ n, w.marks[n]? = markOf r w.path resolved n
  steps_eq : w.steps = resolved.filterMap r.step?
  postordered : r.Postordered resolved
  nodup_path : w.path.Nodup
  not_resolved : ∀ n ∈ w.path, n ∉ resolved

variable {r : Registry} {w : Walk} {resolved : List TargetName}

theorem getElem?_insert_mark (marks : Std.TreeMap TargetName Mark) (n m : TargetName) (k : Mark) :
    (marks.insert n k)[m]? = if n = m then some k else marks[m]? := by
  rw [Std.TreeMap.getElem?_insert]
  simp only [Std.compare_eq_iff_eq]

theorem agrees_start : start.Agrees r [] := by
  constructor <;> simp [start, path, markOf, Registry.Postordered.nil]

/-! ### Entering a name -/

theorem Agrees.enter_resolved (hw : w.Agrees r resolved) {n : TargetName} (hn : n ∈ resolved)
    (parent : Option TargetName) : w.enter r n parent = .ok w := by
  have hmark := hw.mark_eq n
  rw [markOf, if_pos hn] at hmark
  unfold enter
  rw [hmark]

/-- Cutting the stack in front of a name on it, from either end. -/
theorem cycleTo_eq_cycleAt (hnodup : w.path.Nodup) {n : TargetName} (hn : n ∈ w.path) :
    w.cycleTo n = Registry.cycleAt w.path n := by
  obtain ⟨inner, outer, hsplit, hinner⟩ := List.eq_append_cons_of_mem hn
  have houter : n ∉ outer := by
    rw [hsplit] at hnodup
    exact (List.nodup_cons.1 (List.nodup_append.1 hnodup).2.1).1
  have htake : w.path.takeWhile (· != n) = inner := by
    rw [hsplit, List.takeWhile_append_of_pos fun a ha => by
        simpa using ne_of_mem_of_not_mem ha hinner,
      List.takeWhile_cons_of_neg (by simp), List.append_nil]
  unfold cycleTo
  change n :: (w.path.takeWhile (· != n)).reverse ++ [n] = _
  rw [htake, hsplit, Registry.cycleAt_append houter]

theorem Agrees.enter_path (hw : w.Agrees r resolved) {n : TargetName} (hn : n ∈ w.path)
    (parent : Option TargetName) :
    w.enter r n parent = .error (.cyclicDependency (Registry.cycleAt w.path n)) := by
  have hmark := hw.mark_eq n
  rw [markOf, if_neg (hw.not_resolved n hn), if_pos hn] at hmark
  unfold enter
  rw [hmark, cycleTo_eq_cycleAt hw.nodup_path hn]

theorem Agrees.enter_unknown (hw : w.Agrees r resolved) {n : TargetName} (hn : n ∉ resolved)
    (hp : n ∉ w.path) (hd : r.get? n = none) (parent : Option TargetName) :
    w.enter r n parent = .error (.unknownTarget n parent) := by
  have hmark := hw.mark_eq n
  rw [markOf, if_neg hn, if_neg hp] at hmark
  unfold enter
  rw [hmark, hd]

/-- Entering a new name opens a frame with all its requirements pending. -/
theorem Agrees.enter_new (hw : w.Agrees r resolved) {n : TargetName} {d : Descriptor}
    (hn : n ∉ resolved) (hp : n ∉ w.path) (hd : r.get? n = some d) (parent : Option TargetName) :
    ∃ w' depth, w.enter r n parent = .ok w' ∧ w'.frames = ⟨d, d.requirements, depth⟩ :: w.frames ∧
      w'.path = n :: w.path ∧ w'.Agrees r resolved := by
  have hmark := hw.mark_eq n
  rw [markOf, if_neg hn, if_neg hp] at hmark
  obtain rfl := Registry.name_of_get? hd
  unfold enter
  rw [hmark, hd]
  refine ⟨_, _, rfl, rfl, rfl, ?_⟩
  constructor
  · exact List.forall_mem_cons.2 ⟨hd, hw.descriptor_of_mem_frames⟩
  · intro m
    change (w.marks.insert d.name .opened)[m]? = markOf r (d.name :: w.path) resolved m
    rw [getElem?_insert_mark, hw.mark_eq m]
    by_cases hm : d.name = m
    · subst hm
      simp [markOf, hn]
    · simp [markOf, hm, Ne.symm hm]
  · exact hw.steps_eq
  · exact hw.postordered
  · exact List.nodup_cons.2 ⟨hp, hw.nodup_path⟩
  · exact List.forall_mem_cons.2 ⟨hn, hw.not_resolved⟩

/-! ### Taking a requirement, leaving a frame -/

variable {f : Frame} {rest : List Frame}

/-- The walk whose innermost frame has still to take `ns`. -/
def withPending (w : Walk) (f : Frame) (rest : List Frame) (ns : List TargetName) : Walk :=
  { w with frames := { f with pending := ns } :: rest }

theorem path_eq (hf : w.frames = f :: rest) : w.path = f.name :: rest.map Frame.name := by
  simp [path, hf]

theorem path_withPending (hf : w.frames = f :: rest) (ns : List TargetName) :
    (w.withPending f rest ns).path = w.path :=
  (path_eq hf).symm

/-- What a frame has still to take is no part of the relation. -/
theorem Agrees.withPending (hw : w.Agrees r resolved) (hf : w.frames = f :: rest)
    (ns : List TargetName) : (w.withPending f rest ns).Agrees r resolved := by
  have hframes := hw.descriptor_of_mem_frames
  rw [hf, List.forall_mem_cons] at hframes
  refine ⟨List.forall_mem_cons.2 hframes, ?_, hw.steps_eq, hw.postordered, ?_, ?_⟩
  · rw [path_withPending hf]
    exact hw.mark_eq
  · rw [path_withPending hf]
    exact hw.nodup_path
  · rw [path_withPending hf]
    exact hw.not_resolved

theorem Agrees.leavesOf_eq (hw : w.Agrees r resolved) {ns : List TargetName}
    (hns : ∀ n ∈ ns, n ∈ resolved) : w.leavesOf ns = r.leavesOf ns := by
  have hleaves : ∀ n ∈ ns, w.leaves n = r.leaves n := by
    intro n hn
    have hmark := hw.mark_eq n
    rw [markOf, if_pos (hns n hn)] at hmark
    unfold leaves
    rw [hmark]
  unfold leavesOf Registry.leavesOf
  rw [distinct_eq_eraseDups, List.flatMap_congr hleaves]

/-- A frame whose requirements are resolved is left with the leaves that its name stands for, and
with a step if the name is that of a project. -/
theorem Agrees.leave_eq (hw : w.Agrees r resolved) (hd : r.get? f.name = some f.descriptor)
    (hf : f.name ∉ resolved) (hreq : ∀ n ∈ f.descriptor.requirements, n ∈ resolved) :
    w.leave f.descriptor rest =
      { w with
        frames := rest
        marks := w.marks.insert f.name (.done (r.leaves f.name))
        steps := (r.step? f.name).toList ++ w.steps } := by
  have hpost : r.Postordered (f.name :: resolved) := .cons hf hd hreq hw.postordered
  unfold Walk.leave
  rw [hw.leavesOf_eq hreq]
  split
  · next p hp =>
      have hname : f.name = p.name := by simp [Frame.name, hp, Descriptor.name]
      rw [hp] at hd
      have hstep : r.step? f.name = some ⟨f.name, r.leavesOf p.requires.names⟩ :=
        Registry.step?_eq_some_iff.2 ⟨p, hd, rfl⟩
      rw [hstep, Registry.leaves_project hd, hp, hname]
      rfl
  · next c hc =>
      have hname : f.name = c.name := by simp [Frame.name, hc, Descriptor.name]
      rw [hc] at hd
      have hstep : r.step? f.name = none := by simp [Registry.step?, hd]
      rw [hstep, hpost.leaves_composite List.mem_cons_self hd, hc, hname]
      rfl

/-- Leaving a frame whose requirements are resolved resolves its name. -/
theorem Agrees.leave (hw : w.Agrees r resolved) (hf : w.frames = f :: rest)
    (hreq : ∀ n ∈ f.descriptor.requirements, n ∈ resolved) :
    (w.leave f.descriptor rest).frames = rest ∧
      (w.leave f.descriptor rest).Agrees r (f.name :: resolved) := by
  have hframes := hw.descriptor_of_mem_frames
  have hmark := hw.mark_eq
  have hnodup := hw.nodup_path
  have hnot := hw.not_resolved
  rw [hf, List.forall_mem_cons] at hframes
  rw [path_eq hf] at hmark
  rw [path_eq hf, List.nodup_cons] at hnodup
  rw [path_eq hf, List.forall_mem_cons] at hnot
  rw [hw.leave_eq hframes.1 hnot.1 hreq]
  refine ⟨rfl, hframes.2, fun n => ?_, ?_, .cons hnot.1 hframes.1 hreq hw.postordered, hnodup.2,
    fun n hn hmem => ?_⟩
  · change (w.marks.insert f.name _)[n]? = markOf r (rest.map Frame.name) (f.name :: resolved) n
    rw [getElem?_insert_mark, hmark n]
    by_cases hn : f.name = n
    · subst hn
      simp [markOf]
    · simp [markOf, hn, Ne.symm hn]
  · rw [hw.steps_eq]
    cases hstep : r.step? f.name <;> simp [hstep]
  · rcases List.mem_cons.1 hmem with rfl | hmem
    · exact hnodup.1 hn
    · exact hnot.2 n hn hmem

/-! ### Runs -/

theorem run_of_frames_nil (hf : w.frames = []) : w.run r = .ok w := by
  unfold run
  split
  · rfl
  · next h => rw [hf] at h; cases h

/-- One iteration, then the others. -/
theorem run_eq (hf : w.frames = f :: rest) :
    w.run r = match w.advance r f rest with
      | .error e => .error ⟨e, w⟩
      | .ok w' => w'.run r := by
  rw [run.eq_def]
  split
  · next h => rw [hf] at h; cases h
  · next f' rest' h =>
      obtain ⟨rfl, rfl⟩ := List.cons.inj (hf.symm.trans h)
      split
      · next e he => rw [he]
      · next w' hw' => rw [hw']

theorem run_take {n : TargetName} {ns : List TargetName} (hf : w.frames = f :: rest)
    (hns : f.pending = n :: ns) :
    w.run r = match (w.withPending f rest ns).enter r n (some f.name) with
      | .error e => .error ⟨e, w⟩
      | .ok w' => w'.run r := by
  rw [run_eq hf]
  unfold advance
  rw [hns]
  rfl

section Take

variable {n : TargetName} {ns : List TargetName} (hw : w.Agrees r resolved)
  (hf : w.frames = f :: rest) (hns : f.pending = n :: ns)

include hw hf hns

theorem Agrees.run_take_resolved (hn : n ∈ resolved) :
    w.run r = (w.withPending f rest ns).run r := by
  rw [run_take hf hns, (hw.withPending hf ns).enter_resolved hn]

theorem Agrees.run_take_path (hp : n ∈ w.path) :
    w.run r = .error ⟨.cyclicDependency (Registry.cycleAt w.path n), w⟩ := by
  have hpath := path_withPending hf ns
  have henter := (hw.withPending hf ns).enter_path (hpath ▸ hp) (some f.name)
  rw [run_take hf hns, henter, hpath]

/-- An undeclared name is an error of the innermost frame. -/
theorem Agrees.run_take_unknown (hn : n ∉ resolved) (hp : n ∉ w.path) (hd : r.get? n = none) :
    w.run r = .error ⟨.unknownTarget n w.path.head?, w⟩ := by
  have hpath := path_withPending hf ns
  have henter := (hw.withPending hf ns).enter_unknown hn (hpath ▸ hp) hd (some f.name)
  rw [run_take hf hns, henter, path_eq hf]
  rfl

/-- A new name gets a frame on top of the one that took it. -/
theorem Agrees.run_take_new {d : Descriptor} (hn : n ∉ resolved) (hp : n ∉ w.path)
    (hd : r.get? n = some d) :
    ∃ (w' : Walk) (depth : Nat), w.run r = w'.run r ∧
      w'.frames = ⟨d, d.requirements, depth⟩ :: { f with pending := ns } :: rest ∧
      w'.path = n :: w.path ∧ w'.Agrees r resolved := by
  have hpath := path_withPending hf ns
  obtain ⟨w', depth, henter, hframes, hpath', hw'⟩ :=
    (hw.withPending hf ns).enter_new hn (hpath ▸ hp) hd (some f.name)
  refine ⟨w', depth, ?_, hframes, hpath'.trans (congrArg _ hpath), hw'⟩
  rw [run_take hf hns, henter]

end Take

/-- Where the iterations on the pending names of the innermost frame end, given what the
recursion on these names answers. -/
def Follows (r : Registry) (w : Walk) (f : Frame) (rest : List Frame) :
    Except PlanError (List TargetName) → Prop
  | .ok resolved => ∃ w' : Walk, w'.frames = { f with pending := [] } :: rest ∧
      w'.Agrees r resolved ∧ w.run r = w'.run r
  | .error e => ∃ w' : Walk, w.run r = .error ⟨e, w'⟩

theorem Follows.of_run_eq {w' : Walk} {ns : List TargetName}
    {answer : Except PlanError (List TargetName)}
    (h : w'.Follows r { f with pending := ns } rest answer) (hrun : w.run r = w'.run r) :
    w.Follows r f rest answer := by
  unfold Follows at h ⊢
  rw [hrun]
  exact h

/-- The frame of a new name has its requirements resolved, and one more iteration resolves the
name. -/
theorem Follows.leave {n : TargetName} {d : Descriptor} {depth : Nat}
    {path between : List TargetName} (hd : r.get? n = some d)
    (hbetween : r.postorder path d.requirements resolved = .ok between)
    (hw : w.Follows r ⟨d, d.requirements, depth⟩ rest (.ok between)) :
    ∃ w' : Walk, w'.frames = rest ∧ w'.Agrees r (n :: between) ∧ w.run r = w'.run r := by
  obtain ⟨w', hframes, hagrees, hrun⟩ := hw
  obtain rfl := Registry.name_of_get? hd
  obtain ⟨hrest, hleave⟩ :=
    hagrees.leave hframes fun m hm => Registry.mem_of_postorder hbetween hm
  refine ⟨_, hrest, hleave, ?_⟩
  rw [hrun, run_eq hframes]
  rfl

/-- The iterations on the pending names of a frame do what the recursion does on these names. -/
theorem follows_postorder {ns : List TargetName} (hw : w.Agrees r resolved)
    (hf : w.frames = f :: rest) (hns : f.pending = ns) :
    w.Follows r f rest (r.postorder w.path ns resolved) := by
  -- The induction is that of the recursion, for all walks that stand where it does: a new name
  -- needs it for the walk inside the new frame, then for the walk that has left this frame.
  generalize hpath : w.path = path
  fun_induction Registry.postorder r path ns resolved generalizing w f rest with
  | case1 path resolved => exact ⟨w, by rw [hf, ← hns], hw, rfl⟩
  | case2 path n ns resolved hn ih =>
      have hpath' := (path_withPending hf ns).trans hpath
      have hfollows := ih (hw.withPending hf ns) rfl rfl hpath'
      exact hfollows.of_run_eq (hw.run_take_resolved hf hns hn)
  | case3 path n ns resolved hn hp =>
      subst hpath
      exact ⟨w, hw.run_take_path hf hns hp⟩
  | case4 path n ns resolved hn hp hd =>
      subst hpath
      exact ⟨w, hw.run_take_unknown hf hns hn hp hd⟩
  | case5 path n ns resolved hn hp d hd e he ih =>
      subst hpath
      obtain ⟨w₁, depth, hrun, hframes, hpath₁, hw₁⟩ := hw.run_take_new hf hns hn hp hd
      have hfollows := ih hw₁ hframes rfl hpath₁
      rw [he] at hfollows
      obtain ⟨w₂, hrun₁⟩ := hfollows
      exact ⟨w₂, hrun.trans hrun₁⟩
  | case6 path n ns resolved hn hp d hd between hbetween ih1 ih2 =>
      subst hpath
      obtain ⟨w₁, depth, hrun, hframes, hpath₁, hw₁⟩ := hw.run_take_new hf hns hn hp hd
      have hfollows := ih1 hw₁ hframes rfl hpath₁
      rw [hbetween] at hfollows
      obtain ⟨w₂, hframes₂, hw₂, hrun₁⟩ := hfollows.leave hd hbetween
      -- Leaving the new frame uncovers the stack as it was, with one name less to take.
      have hpath₂ : w₂.path = w.path := by
        rw [path_eq hframes₂, path_eq hf]
        rfl
      exact (ih2 hw₂ hframes₂ rfl hpath₂).of_run_eq (hrun.trans hrun₁)

/-- A walk ends as the recursion does: with its resolved names, or with its error. -/
def EndsAs (r : Registry) (ending : Except Stop Walk) :
    Except PlanError (List TargetName) → Prop
  | .ok resolved => ∃ w : Walk, ending = .ok w ∧ w.Agrees r resolved
  | .error e => ∃ w : Walk, ending = .error ⟨e, w⟩

theorem runRoots_of_enter_ok {n : TargetName} {w' : Walk} (h : w.enter r n none = .ok w')
    (ns : List TargetName) : w.runRoots r (n :: ns) = (w'.run r).bind (runRoots r ns) := by
  rw [runRoots, h]

theorem runRoots_of_enter_error {n : TargetName} {e : PlanError}
    (h : w.enter r n none = .error e) (ns : List TargetName) :
    w.runRoots r (n :: ns) = .error ⟨e, w⟩ := by
  rw [runRoots, h]

/-- Walking several roots does what the recursion does on them. -/
theorem runRoots_endsAs (ns : List TargetName) (hw : w.Agrees r resolved) (hf : w.frames = []) :
    EndsAs r (w.runRoots r ns) (r.postorder [] ns resolved) := by
  induction ns generalizing w resolved with
  | nil =>
      rw [Registry.postorder]
      exact ⟨w, rfl, hw⟩
  | cons n ns ih =>
      have hpath : w.path = [] := by simp [path, hf]
      have hp : n ∉ w.path := by simp [hpath]
      by_cases hn : n ∈ resolved
      · rw [Registry.postorder_of_mem hn, runRoots_of_enter_ok (hw.enter_resolved hn none),
          run_of_frames_nil hf]
        exact ih hw hf
      cases hd : r.get? n with
      | none =>
          rw [Registry.postorder_of_get?_eq_none hn List.not_mem_nil hd]
          exact ⟨w, runRoots_of_enter_error (hw.enter_unknown hn hp hd none) ns⟩
      | some d =>
          obtain ⟨w₁, depth, henter, hframes, hpath₁, hw₁⟩ := hw.enter_new hn hp hd none
          have hfollows := follows_postorder hw₁ hframes rfl
          rw [hpath₁, hpath] at hfollows
          rw [Registry.postorder_of_get? hn List.not_mem_nil hd, runRoots_of_enter_ok henter]
          cases hreq : r.postorder [n] d.requirements resolved with
          | error e =>
              rw [hreq] at hfollows
              obtain ⟨w₂, hrun⟩ := hfollows
              rw [hrun]
              exact ⟨w₂, rfl⟩
          | ok between =>
              rw [hreq] at hfollows
              obtain ⟨w₂, hframes₂, hw₂, hrun⟩ := hfollows.leave hd hreq
              rw [hf] at hframes₂
              rw [hrun, run_of_frames_nil hframes₂]
              exact ih hw₂ hframes₂

end Walk

/-! ### Plans -/

variable {r : Registry} {roots : List TargetName}

theorem resolveWalk_endsAs (r : Registry) (roots : List TargetName) :
    Walk.EndsAs r (resolveWalk r roots) (r.postorder [] roots []) :=
  Walk.runRoots_endsAs roots Walk.agrees_start rfl

theorem exists_resolve_of_postorder {resolved : List TargetName}
    (h : r.postorder [] roots [] = .ok resolved) :
    ∃ p, resolve r roots = .ok p ∧ p.steps = r.stepsOf resolved := by
  have hends := resolveWalk_endsAs r roots
  rw [h] at hends
  obtain ⟨w, hwalk, hw⟩ := hends
  unfold resolve
  split
  · next w' hw' =>
      obtain rfl := Except.ok.inj (hwalk.symm.trans hw')
      refine ⟨_, rfl, ?_⟩
      change w.steps.reverse = _
      rw [hw.steps_eq, Registry.stepsOf]
  · next s hs => rw [hwalk] at hs; cases hs

theorem resolve_of_postorder_error {e : PlanError} (h : r.postorder [] roots [] = .error e) :
    resolve r roots = .error e := by
  have hends := resolveWalk_endsAs r roots
  rw [h] at hends
  obtain ⟨w, hwalk⟩ := hends
  unfold resolve
  split
  · next w' hw' => rw [hwalk] at hw'; cases hw'
  · next s hs =>
      obtain rfl := Except.error.inj (hwalk.symm.trans hs)
      rfl

/-- Resolution has a plan exactly when the recursion succeeds: the steps of what it resolves. -/
theorem resolve_eq_ok_iff {p : Plan} :
    resolve r roots = .ok p ↔
      ∃ resolved, r.postorder [] roots [] = .ok resolved ∧ p.steps = r.stepsOf resolved := by
  constructor
  · intro hp
    cases h : r.postorder [] roots [] with
    | error e =>
        rw [resolve_of_postorder_error h] at hp
        cases hp
    | ok resolved =>
        obtain ⟨q, hq, hsteps⟩ := exists_resolve_of_postorder h
        obtain rfl := Except.ok.inj (hp.symm.trans hq)
        exact ⟨resolved, rfl, hsteps⟩
  · rintro ⟨resolved, h, hsteps⟩
    obtain ⟨q, hq, hqsteps⟩ := exists_resolve_of_postorder h
    rw [hq, Plan.eq_of_steps_eq (hsteps.trans hqsteps.symm)]

/-- Resolution fails exactly when the recursion does, with the same error. -/
theorem resolve_eq_error_iff {e : PlanError} :
    resolve r roots = .error e ↔ r.postorder [] roots [] = .error e := by
  refine ⟨fun h => ?_, resolve_of_postorder_error⟩
  cases hpost : r.postorder [] roots [] with
  | ok resolved =>
      obtain ⟨p, hp, _⟩ := exists_resolve_of_postorder hpost
      rw [hp] at h
      cases h
  | error e' =>
      rw [resolve_of_postorder_error hpost] at h
      cases h
      rfl

/-- Where the recursion has the same steps, or the same error, resolution has the same plan or
error. -/
theorem resolve_eq_of_expand_eq {r' : Registry} {roots' : List TargetName}
    (h : r.expand roots = r'.expand roots') : resolve r roots = resolve r' roots' := by
  unfold Registry.expand at h
  cases hpost : r.postorder [] roots [] with
  | error e =>
      cases hpost' : r'.postorder [] roots' [] with
      | ok resolved' =>
          rw [hpost, hpost'] at h
          cases h
      | error e' =>
          rw [hpost, hpost'] at h
          obtain rfl := Except.error.inj h
          rw [resolve_of_postorder_error hpost, resolve_of_postorder_error hpost']
  | ok resolved =>
      cases hpost' : r'.postorder [] roots' [] with
      | error e' =>
          rw [hpost, hpost'] at h
          cases h
      | ok resolved' =>
          rw [hpost, hpost'] at h
          obtain ⟨p, hp, hsteps⟩ := exists_resolve_of_postorder hpost
          obtain ⟨p', hp', hsteps'⟩ := exists_resolve_of_postorder hpost'
          have heq : p.steps = p'.steps := by
            rw [hsteps, hsteps']
            exact Except.ok.inj h
          rw [hp, hp', Plan.eq_of_steps_eq heq]

/-- The walk with its own stack of frames and its memory of leaves has the plan, or the error, of
the recursion. -/
theorem map_steps_resolve (r : Registry) (roots : List TargetName) :
    (resolve r roots).map Plan.steps = r.expand roots := by
  unfold Registry.expand
  cases h : r.postorder [] roots [] with
  | ok resolved =>
      obtain ⟨p, hp, hsteps⟩ := exists_resolve_of_postorder h
      rw [hp]
      exact congrArg Except.ok hsteps
  | error e =>
      rw [resolve_of_postorder_error h]
      rfl

end BuildPlan
