import Mathlib.Algebra.Ring.Nat
import BuildPlan.Proofs.Resolve.Failure
import BuildPlan.Proofs.Resolve.Moves

/-! # Nothing is entered or taken twice

A name that was pushed on the stack of a walk keeps its mark, so it is not pushed again, and a
frame takes its requirements off a list without repeats.  `Walk.Recorded` says so of all names
pushed and of all requirements taken so far, and every part of a move keeps it.  Together with the
work, which bounds the number of moves, this is what a resolution costs, whether it ends in a plan
or in an error.  The main statement is `resolveWalk_once`. -/

namespace BuildPlan

/-! ### What moves do -/

/-- The names by which the stack grows from one state to the next. -/
def Walk.pushed (w w' : Walk) : List TargetName := w'.stack.drop w.stack.length

/-- The requirement that the next move takes from the innermost frame, behind the name of this
frame. -/
def Walk.taking (w : Walk) : List (TargetName × TargetName) :=
  match w.frames with
  | [] => []
  | f :: _ => (f.pending.take 1).map (f.name, ·)

/-- The names that were pushed on the stack between the moments of a list, latest first. -/
def pushes : List (Moment Walk) → List TargetName
  | m' :: m :: past => m.state.pushed m'.state ++ pushes (m :: past)
  | _ => []

/-- The requirements that were taken at the moments of a list, latest first. -/
def takings (moments : List (Moment Walk)) : List (TargetName × TargetName) :=
  moments.flatMap fun m => m.state.taking

namespace Walk

variable {r : Registry} {w w' : Walk} {f : Frame} {rest : List Frame} {n : TargetName}
  {pushed : List TargetName} {taken : List (TargetName × TargetName)}

theorem enter_eq_ok {parent : Option TargetName} (h : w.enter r n parent = .ok w') :
    w' = w ∨ n ∉ w.marks ∧ ∃ d depth, r.get? n = some d ∧
      w'.frames = ⟨d, d.requirements, depth⟩ :: w.frames ∧ w'.marks = w.marks.insert n .opened := by
  unfold enter at h
  split at h
  · cases h
    exact .inl rfl
  · cases h
  next hmark =>
    split at h
    · cases h
    next d hd =>
      cases h
      have hnot : n ∉ w.marks := by
        rw [Std.TreeMap.mem_iff_isSome_getElem?, hmark]
        simp
      exact .inr ⟨hnot, d, _, hd, rfl, rfl⟩

theorem leave_eq (w : Walk) (d : Descriptor) (rest : List Frame) :
    (w.leave d rest).frames = rest ∧
      ∃ ls, (w.leave d rest).marks = w.marks.insert d.name (.done ls) := by
  cases d <;> exact ⟨rfl, _, rfl⟩

theorem Sound.withPending (hw : w.Sound) (hf : w.frames = f :: rest) (ns : List TargetName) :
    (w.withPending f rest ns).Sound where
  done_of_mem_steps := hw.done_of_mem_steps
  nodup_steps := hw.nodup_steps
  opened_of_mem_frames := by
    have hopened := hw.opened_of_mem_frames
    rw [hf, List.forall_mem_cons] at hopened
    exact List.forall_mem_cons.2 hopened
  nodup_frames := by
    have hnodup := hw.nodup_frames
    rw [hf] at hnodup
    exact hnodup

theorem Sound.mem_marks (hw : w.Sound) (hf : f ∈ w.frames) : f.name ∈ w.marks := by
  rw [Std.TreeMap.mem_iff_isSome_getElem?, hw.opened_of_mem_frames f hf]
  rfl

/-- What was pushed and taken so far, as far as the walk still knows it. -/
structure Recorded (r : Registry) (w : Walk) (pushed : List TargetName)
    (taken : List (TargetName × TargetName)) : Prop extends Sound w where
  declared : ∀ f ∈ w.frames, r.get? f.name = some f.descriptor
  pending : ∀ f ∈ w.frames, f.pending <:+ f.descriptor.requirements
  mem_pushed : ∀ n, n ∈ pushed ↔ n ∈ w.marks
  nodup_pushed : pushed.Nodup
  nodup_taken : taken.Nodup
  untaken : ∀ f ∈ w.frames, ∀ n ∈ f.pending, (f.name, n) ∉ taken
  required : ∀ t ∈ taken, t.1 ∈ pushed ∧ r.Requires t.1 t.2

theorem recorded_start (r : Registry) : Recorded r start [] [] := by
  refine ⟨sound_start, ?_, ?_, ?_, .nil, .nil, ?_, ?_⟩ <;> simp [start]

theorem stack_eq (w : Walk) : w.stack = w.path.reverse := rfl

theorem pushed_eq_nil (h : w'.path.length ≤ w.path.length) : w.pushed w' = [] := by
  unfold Walk.pushed
  rw [stack_eq, stack_eq, List.drop_eq_nil_iff, List.length_reverse, List.length_reverse]
  exact h

theorem pushed_of_path_cons (h : w'.path = n :: w.path) : w.pushed w' = [n] := by
  unfold Walk.pushed
  rw [stack_eq, stack_eq, h, List.reverse_cons, List.drop_left]

theorem pushed_congr {w₀ : Walk} (h : w₀.path = w.path) : w₀.pushed w' = w.pushed w' := by
  have hstack : w₀.stack = w.stack := congrArg List.reverse h
  unfold Walk.pushed
  rw [hstack]

theorem Recorded.take (hw : Recorded r w pushed taken) (hf : w.frames = f :: rest)
    {ns : List TargetName} (hns : f.pending = n :: ns) :
    Recorded r (w.withPending f rest ns) pushed ((f.name, n) :: taken) := by
  have hmarked : f.name ∈ w.marks := hw.mem_marks (by simp [hf])
  have hdeclared := hw.declared
  have hpending := hw.pending
  have huntaken := hw.untaken
  have hnodup := hw.nodup_frames
  rw [hf, List.forall_mem_cons] at hdeclared hpending huntaken
  rw [hf, List.map_cons, List.nodup_cons] at hnodup
  rw [hns, List.forall_mem_cons] at huntaken
  have hsuffix : n :: ns <:+ f.descriptor.requirements := hns ▸ hpending.1
  obtain ⟨hn, -⟩ := List.nodup_cons.1 (hsuffix.sublist.nodup f.descriptor.nodup_requirements)
  refine ⟨hw.toSound.withPending hf ns, List.forall_mem_cons.2 hdeclared, ?_, hw.mem_pushed,
    hw.nodup_pushed, List.nodup_cons.2 ⟨huntaken.1.1, hw.nodup_taken⟩, ?_, ?_⟩
  · exact List.forall_mem_cons.2 ⟨(List.suffix_cons n ns).trans hsuffix, hpending.2⟩
  · -- The frame does not have `n` to take any more, and no other frame has its name.
    refine List.forall_mem_cons.2 ⟨fun k hk => ?_, fun g hg k hk => ?_⟩
    · rw [List.mem_cons, Prod.mk.injEq, not_or]
      exact ⟨fun heq => hn (heq.2 ▸ hk), huntaken.1.2 k hk⟩
    · rw [List.mem_cons, Prod.mk.injEq, not_or]
      exact ⟨fun heq => hnodup.1 (heq.1 ▸ List.mem_map_of_mem hg), huntaken.2 g hg k hk⟩
  · refine List.forall_mem_cons.2 ⟨⟨?_, f.descriptor, hdeclared.1, ?_⟩, hw.required⟩
    · rw [hw.mem_pushed]
      exact hmarked
    · exact hsuffix.subset List.mem_cons_self

theorem Recorded.enter (hw : Recorded r w pushed taken) {parent : Option TargetName}
    (h : w.enter r n parent = .ok w') : Recorded r w' (w.pushed w' ++ pushed) taken := by
  rcases enter_eq_ok h with rfl | ⟨hn, d, depth, hd, hframes, hmarks⟩
  · rw [pushed_eq_nil (Nat.le_refl _)]
    exact hw
  obtain rfl := Registry.name_of_get? hd
  have hpath : w'.path = d.name :: w.path := by rw [path_eq hframes]; rfl
  have hnew : d.name ∉ pushed := mt (hw.mem_pushed d.name).1 hn
  rw [pushed_of_path_cons hpath, List.singleton_append]
  refine ⟨hw.toSound.enter h, ?_, ?_, fun m => ?_, List.nodup_cons.2 ⟨hnew, hw.nodup_pushed⟩,
    hw.nodup_taken, ?_, fun t ht => ?_⟩
  · rw [hframes]
    exact List.forall_mem_cons.2 ⟨hd, hw.declared⟩
  · rw [hframes]
    exact List.forall_mem_cons.2 ⟨List.suffix_refl _, hw.pending⟩
  · rw [hmarks, Std.TreeMap.mem_insert, Std.compare_eq_iff_eq, List.mem_cons, hw.mem_pushed,
      eq_comm]
  · -- A name that was not pushed has not taken anything.
    rw [hframes]
    refine List.forall_mem_cons.2 ⟨fun m _ hm => ?_, hw.untaken⟩
    exact hnew (hw.required _ hm).1
  · obtain ⟨hpushed, hrequires⟩ := hw.required t ht
    exact ⟨List.mem_cons_of_mem _ hpushed, hrequires⟩

theorem Recorded.leave (hw : Recorded r w pushed taken) (hf : w.frames = f :: rest) :
    Recorded r (w.leave f.descriptor rest) pushed taken := by
  obtain ⟨hframes, ls, hmarks⟩ := w.leave_eq f.descriptor rest
  have hsub : ∀ g ∈ rest, g ∈ w.frames := by simp +contextual [hf]
  have hmarked : f.name ∈ w.marks := hw.mem_marks (by simp [hf])
  refine ⟨hw.toSound.leave hf, ?_, ?_, fun n => ?_, hw.nodup_pushed, hw.nodup_taken, ?_,
    hw.required⟩
  · rw [hframes]
    exact fun g hg => hw.declared g (hsub g hg)
  · rw [hframes]
    exact fun g hg => hw.pending g (hsub g hg)
  · -- The mark of the name that is left changes, and all marked names stay marked.
    rw [hw.mem_pushed, hmarks, Std.TreeMap.mem_insert, Std.compare_eq_iff_eq]
    refine ⟨.inr, ?_⟩
    rintro (rfl | hn)
    · exact hmarked
    · exact hn
  · rw [hframes]
    exact fun g hg => hw.untaken g (hsub g hg)

/-! ### Moves -/

theorem taking_of_frames_nil (hf : w.frames = []) : w.taking = [] := by
  unfold taking
  rw [hf]

theorem taking_of_pending_nil (hf : w.frames = f :: rest) (hpending : f.pending = []) :
    w.taking = [] := by
  simp only [taking, hf, hpending, List.take_nil, List.map_nil]

theorem taking_of_pending_cons {ns : List TargetName} (hf : w.frames = f :: rest)
    (hpending : f.pending = n :: ns) : w.taking = [(f.name, n)] := by
  simp only [taking, hf, hpending, List.take_succ_cons, List.take_zero, List.map_cons, List.map_nil]

/-- An iteration takes a requirement and enters it, or leaves a frame that has none to take. -/
theorem Recorded.advance (hw : Recorded r w pushed taken) (hf : w.frames = f :: rest)
    (h : w.advance r f rest = .ok w') :
    Recorded r w' (w.pushed w' ++ pushed) (w.taking ++ taken) := by
  unfold Walk.advance at h
  split at h
  next hpending =>
    cases h
    have hpath : (w.leave f.descriptor rest).path.length ≤ w.path.length := by
      rw [path, (w.leave_eq f.descriptor rest).1, path_eq hf]
      simp
    rw [taking_of_pending_nil hf hpending, pushed_eq_nil hpath]
    exact hw.leave hf
  next n ns hpending =>
    rw [taking_of_pending_cons hf hpending, ← pushed_congr (path_withPending hf ns)]
    exact (hw.take hf hpending).enter h

/-- What the next move takes was not taken before, even where this move fails. -/
theorem Recorded.taking (hw : Recorded r w pushed taken) :
    (w.taking ++ taken).Nodup ∧ ∀ t ∈ w.taking ++ taken, t.1 ∈ pushed ∧ r.Requires t.1 t.2 := by
  cases hf : w.frames with
  | nil =>
      rw [taking_of_frames_nil hf]
      exact ⟨hw.nodup_taken, hw.required⟩
  | cons f rest =>
      cases hpending : f.pending with
      | nil =>
          rw [taking_of_pending_nil hf hpending]
          exact ⟨hw.nodup_taken, hw.required⟩
      | cons n ns =>
          rw [taking_of_pending_cons hf hpending]
          exact ⟨(hw.take hf hpending).nodup_taken, (hw.take hf hpending).required⟩

/-! ### Courses -/

variable {roots : List TargetName} {m : Moment Walk} {past : List (Moment Walk)}

theorem recorded_of_course (h : (search r).Course ⟨.start, roots⟩ m past) :
    Recorded r m.state (pushes (m :: past)) (takings past) := by
  induction h with
  | start => exact recorded_start r
  | @move m m' past _ hnext ih =>
      rw [pushes, takings, List.flatMap_cons]
      rcases Search.next?_eq_ok hnext with ⟨f, rest, hf, hadvance, -⟩ | ⟨n, hf, -, hvisit⟩
      · exact ih.advance hf hadvance
      · rw [taking_of_frames_nil hf]
        exact ih.enter hvisit

theorem unentered_empty (ds : List Descriptor) :
    unentered ∅ ds = (ds.map fun d => d.requirements.length + 2).sum := by
  induction ds with
  | nil => rfl
  | cons d ds ih =>
      rw [unentered, ih, List.map_cons, List.sum_cons]
      simp

/-- As many moves are made as there are roots, and for every declared target at most two and one
for each of its requirements. -/
theorem length_le_of_course (h : (search r).Course ⟨.start, roots⟩ m past) :
    past.length ≤ roots.length + (r.toList.map fun d => d.requirements.length + 2).sum := by
  have hlength := h.length_le fun _ _ => left_lt
  have hleft : left r ⟨.start, roots⟩ = roots.length + unentered ∅ r.toList := by
    simp [left, work, start, pendingWork]
  rw [hleft, unentered_empty] at hlength
  omega

end Walk

/-- The walk of a resolution ends after a bounded number of moves, whether in a plan or in an
error.  No course of its moves pushes a name on the stack twice, or takes a requirement twice from
those that a frame has still to take, counting the one at which the walk may fail; and what is
taken is a requirement of a name that was pushed. -/
theorem resolveWalk_once (r : Registry) (roots : List TargetName) :
    (∃ m past, (Walk.search r).Course ⟨.start, roots⟩ m past ∧
      Walk.Ends r m (resolveWalk r roots)) ∧
    ∀ m past, (Walk.search r).Course ⟨.start, roots⟩ m past →
      past.length ≤ roots.length + (r.toList.map fun d => d.requirements.length + 2).sum ∧
      (pushes (m :: past)).Nodup ∧ (takings (m :: past)).Nodup ∧
      ∀ t ∈ takings (m :: past), t.1 ∈ pushes (m :: past) ∧ r.Requires t.1 t.2 := by
  refine ⟨Walk.exists_course r roots, fun m past h => ?_⟩
  have hw := Walk.recorded_of_course h
  obtain ⟨hnodup, hrequired⟩ := hw.taking
  exact ⟨Walk.length_le_of_course h, hw.nodup_pushed, hnodup, hrequired⟩

/-- `core` is asked for three times and entered once, and the second requirement that `shell` takes
closes a cycle. -/
theorem resolveWalk_once_tangled :
    ∃ m past, (Walk.search Registry.tangled).Course ⟨.start, [⟨"core"⟩, ⟨"app"⟩]⟩ m past ∧
      pushes (m :: past) = [⟨"shell"⟩, ⟨"plugins"⟩, ⟨"app"⟩, ⟨"core"⟩] ∧
      takings (m :: past) = [(⟨"shell"⟩, ⟨"plugins"⟩), (⟨"shell"⟩, ⟨"core"⟩),
        (⟨"plugins"⟩, ⟨"shell"⟩), (⟨"plugins"⟩, ⟨"core"⟩), (⟨"app"⟩, ⟨"plugins"⟩)] ∧
      past.length = 7 ∧ (pushes (m :: past)).Nodup ∧ (takings (m :: past)).Nodup := by
  let ending := (Walk.search Registry.tangled).run 20 ⟨.start, [⟨"core"⟩, ⟨"app"⟩]⟩ []
  have hcourse : (Walk.search Registry.tangled).Course ⟨.start, [⟨"core"⟩, ⟨"app"⟩]⟩
      ending.1 ending.2 := Search.Course.start.run 20
  have hpushes : pushes (ending.1 :: ending.2) =
      [⟨"shell"⟩, ⟨"plugins"⟩, ⟨"app"⟩, ⟨"core"⟩] := by decide +kernel
  obtain ⟨-, hnodup, hnodup', -⟩ := (resolveWalk_once _ _).2 _ _ hcourse
  refine ⟨_, _, hcourse, hpushes, ?_, ?_, hnodup, hnodup'⟩
  · decide +kernel
  · decide +kernel

end BuildPlan
