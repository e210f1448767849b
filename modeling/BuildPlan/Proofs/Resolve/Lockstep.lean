import BuildPlan.Proofs.Resolve.Bookkeeping
import BuildPlan.Proofs.Resolve.Failure

/-! # The two resolutions in step

A walk looks everything up in its frames and marks, a `Resolver` in records that it keeps apart.
`Resolver.Tracks` relates the two: they have the same frames and events, the marks are what the
records of the resolver say of a name, and the steps are its plan with its dependencies.  Every
move answers alike in both (`Resolver.inStep`), and searches that answer alike go through related
moments (`Search.InStep.exists_course`).

So a resolver ends as `resolve` does, and `resolver_consistent`, the main statement, tells of the
resolution that `resolve` carries out. -/

namespace BuildPlan

/-! ### Searches in step -/

namespace Search

variable {σ τ : Type} {R : σ → τ → Prop} {p : Search σ} {q : Search τ}

/-- Two answers are the same error, or states that are related. -/
inductive Alike (R : σ → τ → Prop) : Except PlanError σ → Except PlanError τ → Prop
  | ok {s : σ} {t : τ} : R s t → Alike R (.ok s) (.ok t)
  | error (e : PlanError) : Alike R (.error e) (.error e)

/-- Related states have the same frames, and the moves from them answer alike. -/
structure InStep (p : Search σ) (q : Search τ) (R : σ → τ → Prop) : Prop where
  frames_eq : ∀ {s t}, R s t → p.frames s = q.frames t
  visit : ∀ {s t} (n : TargetName), R s t → p.frames s = [] → Alike R (p.visit n s) (q.visit n t)
  advance : ∀ {s t f rest}, R s t → p.frames s = f :: rest →
    Alike R (p.advance f rest s) (q.advance f rest t)

theorem Alike.imp {S : σ → τ → Prop} {a : Except PlanError σ} {b : Except PlanError τ}
    (h : Alike R a b) (hRS : ∀ s t, a = .ok s → R s t → S s t) : Alike S a b := by
  cases h with
  | ok h => exact .ok (hRS _ _ rfl h)
  | error e => exact .error e

theorem Alike.flip {a : Except PlanError σ} {b : Except PlanError τ} (h : Alike R a b) :
    Alike (flip R) b a := by
  cases h with
  | ok h => exact .ok h
  | error e => exact .error e

theorem InStep.flip (h : InStep p q R) : InStep q p (flip R) where
  frames_eq hst := (h.frames_eq hst).symm
  visit n hst hf := (h.visit n hst ((h.frames_eq hst).trans hf)).flip
  advance hst hf := (h.advance hst ((h.frames_eq hst).trans hf)).flip

/-- Two moments have related states and the same roots to come. -/
def Beside (R : σ → τ → Prop) (m : Moment σ) (k : Moment τ) : Prop :=
  R m.state k.state ∧ m.roots = k.roots

theorem Alike.map {a : Except PlanError σ} {b : Except PlanError τ} (h : Alike R a b)
    (ns : List TargetName) :
    Alike (Beside R) (a.map (Moment.mk · ns)) (b.map (Moment.mk · ns)) := by
  cases h with
  | ok h => exact .ok ⟨h, rfl⟩
  | error e => exact .error e

variable {m : Moment σ} {k : Moment τ}

/-- The next moves of two moments in step are both missing or answer alike. -/
theorem InStep.next? (h : InStep p q R) (hmk : Beside R m k) :
    Option.Rel (Alike (Beside R)) (p.next? m) (q.next? k) := by
  obtain ⟨hR, hroots⟩ := hmk
  have hframes := h.frames_eq hR
  cases hf : p.frames m.state with
  | cons f rest =>
      rw [next?_of_cons hf, next?_of_cons (hframes ▸ hf), hroots]
      exact .some ((h.advance hR hf).map _)
  | nil =>
      cases hn : m.roots with
      | nil =>
          rw [next?_eq_none_iff.2 ⟨hf, hn⟩, next?_eq_none_iff.2 ⟨hframes ▸ hf, hroots ▸ hn⟩]
          exact .none
      | cons n ns =>
          rw [next?_of_nil hf hn, next?_of_nil (hframes ▸ hf) (hroots ▸ hn)]
          exact .some ((h.visit n hR hf).map ns)

variable {past : List (Moment σ)} {start : Moment σ} {start' : Moment τ}

/-- The moves of one search lead through moments that moves of the other lead through. -/
theorem InStep.exists_course (h : InStep p q R) (hstart : Beside R start start')
    (hcourse : p.Course start m past) :
    ∃ k past', q.Course start' k past' ∧ Beside R m k := by
  induction hcourse with
  | start => exact ⟨start', [], .start, hstart⟩
  | @move m m' past _ hnext ih =>
      obtain ⟨k, past', hcourse', hmk⟩ := ih
      have hrel := h.next? hmk
      rw [hnext] at hrel
      generalize hq : q.next? k = answer at hrel
      cases hrel with
      | some halike =>
          cases halike with
          | ok hmk' => exact ⟨_, _, hcourse'.move hq, hmk'⟩

end Search

namespace Resolver

variable {r : Registry} {s : Resolver} {w : Walk} {f : Frame} {rest : List Frame} {n : TargetName}

/-- What a resolver knows of a name, as a mark. -/
def mark? (s : Resolver) (n : TargetName) : Option Mark :=
  match s.resolved[n]? with
  | some ls => some (.done ls)
  | none => if n ∈ s.onStack then some .opened else none

/-- The step of a planned name. -/
def stepOf (s : Resolver) (n : TargetName) : Step := ⟨n, (s.dependencies[n]?).getD []⟩

/-- The records of a resolver are those of a walk. -/
structure Tracks (s : Resolver) (w : Walk) : Prop where
  frames_eq : s.frames = w.frames
  marks_eq : ∀ n, w.marks[n]? = s.mark? n
  steps_eq : w.steps.reverse = s.plan.map s.stepOf
  events_eq : s.events = w.events
  /-- A frame is as deep as there are frames below it. -/
  depth_eq : ∀ f rest, f :: rest <:+ s.frames → f.depth = rest.length

theorem tracks_start : start.Tracks .start := by
  constructor <;> simp [start, Walk.start, mark?]

/-! ### Entering -/

theorem stack_eq_reverse_path (hs : s.Agree r) (hw : s.Tracks w) : s.stack = w.path.reverse := by
  rw [hs.stack_eq, hw.frames_eq, Walk.path]

/-- Both cut the same cycle out of the stack, one at the first place of the name from the bottom,
one in front of it from the top. -/
theorem cycleTo_eq (hs : s.Agree r) (hw : s.Tracks w) (hn : n ∈ s.onStack) :
    s.cycleTo n = w.cycleTo n := by
  have hstack := stack_eq_reverse_path hs hw
  have hnodup : w.path.Nodup := by
    rw [← List.nodup_reverse, ← hstack]
    exact hs.nodup_stack
  have hmem : n ∈ w.path := by
    rw [← List.mem_reverse, ← hstack]
    exact (hs.mem_onStack n).1 hn
  rw [Walk.cycleTo_eq_cycleAt hnodup hmem]
  obtain ⟨inner, outer, hsplit, hinner⟩ := List.eq_append_cons_of_mem hmem
  have houter : n ∉ outer := by
    rw [hsplit] at hnodup
    exact (List.nodup_cons.1 (List.nodup_append.1 hnodup).2.1).1
  obtain ⟨i, hplace⟩ := hs.exists_idxOf? hn
  have hi : i = outer.length := by
    have hidx : s.stack.idxOf n = i := by rw [List.idxOf_eq_getD_idxOf?, hplace, Option.getD_some]
    rw [← hidx, hstack, hsplit, List.reverse_append, List.reverse_cons, List.append_assoc,
      List.idxOf_append_of_notMem (by simpa using houter)]
    simp
  rw [hsplit, Registry.cycleAt_append houter, cycleTo, hplace, hi, hstack, hsplit]
  simp

theorem length_stack (hs : s.Agree r) : s.stack.length = s.frames.length := by
  rw [hs.stack_eq, List.length_reverse, List.length_map]

/-- A new name gets a frame in the walk that is as deep as the stack of the resolver is high. -/
theorem walk_enter_eq {d : Descriptor} (hs : s.Agree r) (hw : s.Tracks w)
    (hmark : w.marks[n]? = none) (hd : r.get? n = some d) (parent : Option TargetName) :
    w.enter r n parent = .ok { w with
      frames := ⟨d, d.requirements, s.stack.length⟩ :: w.frames
      marks := w.marks.insert n .opened
      events := .visiting n d.kind s.stack.length :: w.events } := by
  have hdepth := hw.depth_eq
  rw [length_stack hs, hw.frames_eq]
  rw [hw.frames_eq] at hdepth
  unfold Walk.enter
  rw [hmark, hd]
  cases hf : w.frames with
  | nil => rfl
  | cons f rest =>
      rw [List.length_cons, ← hdepth f rest (hf ▸ List.suffix_refl _)]

theorem Tracks.withPending (hw : s.Tracks w) (hf : s.frames = f :: rest) (ns : List TargetName) :
    (s.withPending f rest ns).Tracks (w.withPending f rest ns) where
  frames_eq := rfl
  marks_eq := hw.marks_eq
  steps_eq := hw.steps_eq
  events_eq := hw.events_eq
  depth_eq g below h := by
    have hdepth := hw.depth_eq
    rw [hf] at hdepth
    rcases List.suffix_cons_iff.1 h with heq | hsuffix
    · obtain ⟨rfl, rfl⟩ := List.cons.inj heq
      exact hdepth f below (List.suffix_refl _)
    · exact hdepth g below (hsuffix.trans (List.suffix_cons f rest))

/-- Both open a frame for a new name, and mark it as being on the stack. -/
theorem Tracks.push (hs : s.Agree r) (hw : s.Tracks w) (hls : s.resolved[n]? = none)
    (d : Descriptor) :
    (s.push n d).Tracks { w with
      frames := ⟨d, d.requirements, s.stack.length⟩ :: w.frames
      marks := w.marks.insert n .opened
      events := .visiting n d.kind s.stack.length :: w.events } where
  frames_eq := by rw [Resolver.push, hw.frames_eq]
  marks_eq m := by
    rw [Walk.getElem?_insert_mark, hw.marks_eq]
    by_cases hm : n = m
    · subst hm
      simp [Resolver.push, mark?, hls]
    · simp [Resolver.push, mark?, hm]
  steps_eq := hw.steps_eq
  events_eq := by rw [Resolver.push, hw.events_eq]
  depth_eq g below h := by
    rcases List.suffix_cons_iff.1 h with heq | hsuffix
    · obtain ⟨rfl, rfl⟩ := List.cons.inj heq
      exact length_stack hs
    · exact hw.depth_eq g below hsuffix

/-- Entering a name answers alike. -/
theorem Tracks.enter (hs : s.Agree r) (hw : s.Tracks w) (n : TargetName)
    (parent : Option TargetName) :
    Search.Alike Tracks (s.enter r n parent) (w.enter r n parent) := by
  have hmark := hw.marks_eq n
  unfold Resolver.enter
  cases hls : s.resolved[n]? with
  | some ls =>
      have hresolved : n ∈ s.resolved := by
        rw [Std.TreeMap.mem_iff_isSome_getElem?, hls]
        rfl
      simp only [mark?, hls] at hmark
      unfold Walk.enter
      rw [if_pos hresolved, hmark]
      exact .ok hw
  | none =>
      have hresolved : n ∉ s.resolved := by
        rw [Std.TreeMap.mem_iff_isSome_getElem?, hls]
        simp
      rw [if_neg hresolved]
      by_cases hstack : n ∈ s.onStack
      · simp only [mark?, hls, if_pos hstack] at hmark
        unfold Walk.enter
        rw [if_pos hstack, hmark, cycleTo_eq hs hw hstack]
        exact .error _
      simp only [mark?, hls, if_neg hstack] at hmark
      rw [if_neg hstack]
      cases hd : r.get? n with
      | none =>
          unfold Walk.enter
          rw [hmark, hd]
          exact .error _
      | some d =>
          rw [walk_enter_eq hs hw hmark hd]
          exact .ok (hw.push hs hls d)

/-! ### Leaving -/

theorem leavesOf_eq (hw : s.Tracks w) (ns : List TargetName) : s.leavesOf ns = w.leavesOf ns := by
  have hleaves : ∀ n ∈ ns, (s.resolved[n]?).getD [] = w.leaves n := by
    intro n _
    unfold Walk.leaves
    rw [hw.marks_eq, mark?]
    cases s.resolved[n]? with
    | some ls => rfl
    | none => by_cases hn : n ∈ s.onStack <;> simp [hn]
  rw [leavesOf, Walk.leavesOf, List.flatMap_congr hleaves]

theorem mark?_of_leave {s' : Resolver} {ls : List TargetName}
    (hresolved : s'.resolved = s.resolved.insert n ls) (honStack : s'.onStack = s.onStack.erase n)
    (m : TargetName) : s'.mark? m = if n = m then some (.done ls) else s.mark? m := by
  unfold mark?
  rw [hresolved, honStack, Std.TreeMap.getElem?_insert]
  by_cases hm : n = m
  · simp [hm]
  · simp [hm]

theorem Tracks.leave (hs : s.Agree r) (hw : s.Tracks w) (hf : s.frames = f :: rest) :
    (s.leave f.descriptor rest).Tracks (w.leave f.descriptor rest) := by
  have hdepth : ∀ g below, g :: below <:+ rest → g.depth = below.length := fun g below h =>
    hw.depth_eq g below (hf ▸ h.trans (List.suffix_cons f rest))
  unfold Resolver.leave Walk.leave
  rw [← leavesOf_eq hw]
  cases hd : f.descriptor with
  | composite c =>
      refine ⟨rfl, fun n => ?_, hw.steps_eq, hw.events_eq, hdepth⟩
      rw [Walk.getElem?_insert_mark, hw.marks_eq]
      exact (mark?_of_leave rfl rfl n).symm
  | project p =>
      refine ⟨rfl, fun n => ?_, ?_, hw.events_eq, hdepth⟩
      · rw [Walk.getElem?_insert_mark, hw.marks_eq]
        exact (mark?_of_leave rfl rfl n).symm
      · -- The planned names keep their dependencies, as the new one is none of them.
        have hname : f.name = p.name := by rw [Frame.name, hd, Descriptor.name]
        have hplan : ∀ n ∈ s.plan, p.name ≠ n := fun n hn heq => by
          rw [← heq, ← hname] at hn
          exact hs.not_resolved f.name (by simp [hs.stack_eq, hf]) ((hs.mem_plan _).1 hn).1
        rw [List.reverse_cons, hw.steps_eq, List.map_append]
        refine congrArg₂ _ (List.map_congr_left fun n hn => ?_) ?_
        · simp [stepOf, Std.TreeMap.getElem?_insert, hplan n hn]
        · simp [stepOf]

/-! ### Moves -/

theorem Tracks.advance (hs : s.Agree r) (hw : s.Tracks w) (hf : s.frames = f :: rest) :
    Search.Alike Tracks (s.advance r f rest) (w.advance r f rest) := by
  unfold Resolver.advance Walk.advance
  cases f.pending with
  | nil => exact .ok (hw.leave hs hf)
  | cons n ns => exact (hw.withPending hf ns).enter (hs.withPending hf ns) n (some f.name)

/-- A resolver is consistent and tracks a walk. -/
def Shadows (r : Registry) (s : Resolver) (w : Walk) : Prop := s.Consistent r ∧ s.Tracks w

theorem shadows_start (r : Registry) : Shadows r start .start := ⟨consistent_start r, tracks_start⟩

/-- Every move of a resolver answers as that of the walk does. -/
theorem inStep (r : Registry) : Search.InStep (search r) (Walk.search r) (Shadows r) where
  frames_eq h := h.2.frames_eq
  visit n h hf := (h.2.enter h.1.toAgree n none).imp fun _ _ hok hw => ⟨h.1.visit hf hok, hw⟩
  advance h hf := (h.2.advance h.1.toAgree hf).imp fun _ _ hok hw => ⟨h.1.advance hf hok, hw⟩

/-! ### How a resolver ends -/

/-- How a resolver ends at a moment from which no move leads on. -/
inductive Ends (r : Registry) (m : Moment Resolver) : Except PlanError Plan → Prop
  | finished {p : Plan} : (search r).next? m = none →
      p.steps = m.state.plan.map m.state.stepOf → Ends r m (.ok p)
  | stopped {e : PlanError} : (search r).next? m = some (.error e) → Ends r m (.error e)

/-- A resolver ends with the plan or the error of `resolve`. -/
theorem exists_course (r : Registry) (roots : List TargetName) :
    ∃ m past, (search r).Course ⟨.start, roots⟩ m past ∧ Ends r m (resolve r roots) := by
  obtain ⟨k, past', hcourse', hends⟩ := Walk.exists_course r roots
  have hstart : Search.Beside (flip (Shadows r)) ⟨Walk.start, roots⟩ ⟨start, roots⟩ :=
    ⟨shadows_start r, rfl⟩
  obtain ⟨m, past, hcourse, hbeside⟩ := (inStep r).flip.exists_course hstart hcourse'
  refine ⟨m, past, hcourse, ?_⟩
  have hnext := (inStep r).flip.next? hbeside
  obtain ⟨⟨-, hw⟩, -⟩ := hbeside
  generalize hmove : (search r).next? m = move at hnext
  unfold resolve
  split
  next w hwalk =>
    rw [hwalk] at hends
    cases hends with
    | finished hnone =>
        rw [hnone] at hnext
        cases hnext
        exact .finished hmove hw.steps_eq
  next stop hwalk =>
    rw [hwalk] at hends
    cases hends with
    | stopped herror =>
        rw [herror] at hnext
        cases hnext with
        | some halike =>
            cases halike
            exact .stopped hmove

end Resolver

/-- At every moment of a resolution the records of the resolver are consistent.  A name on the stack
has a place there, where a cycle is cut, and a frame with nothing left to take has the leaves of all
its requirements, when it is left.  The records are those of a moment of the walk, and the resolution
ends in the plan or the error of `resolve`. -/
theorem resolver_consistent (r : Registry) (roots : List TargetName) :
    (∀ m past, (Resolver.search r).Course ⟨.start, roots⟩ m past →
      m.state.Consistent r ∧
      (∀ n ∈ m.state.onStack, ∃ i, m.state.stack.idxOf? n = some i) ∧
      (∀ f rest, m.state.frames = f :: rest → f.pending = [] →
        ∀ n ∈ f.descriptor.requirements, n ∈ m.state.resolved) ∧
      ∃ w past', (Walk.search r).Course ⟨.start, roots⟩ ⟨w, m.roots⟩ past' ∧ m.state.Tracks w) ∧
    ∃ m past, (Resolver.search r).Course ⟨.start, roots⟩ m past ∧
      Resolver.Ends r m (resolve r roots) := by
  refine ⟨fun m past hcourse => ?_, Resolver.exists_course r roots⟩
  have hs := Resolver.consistent_of_course hcourse
  have hstart : Search.Beside (Resolver.Shadows r) ⟨.start, roots⟩ ⟨.start, roots⟩ :=
    ⟨Resolver.shadows_start r, rfl⟩
  obtain ⟨⟨w, ns⟩, past', hcourse', ⟨-, hw⟩, rfl⟩ := (Resolver.inStep r).exists_course hstart hcourse
  exact ⟨hs, fun n hn => hs.exists_idxOf? hn, fun f rest hf => hs.resolved_of_pending_nil hf,
    w, past', hcourse', hw⟩

/-- With `core` resolved, `shell` is to take `plugins`, which has its place on the stack above
`app`. -/
theorem resolver_consistent_tangled :
    ∃ m past, (Resolver.search Registry.tangled).Course ⟨.start, [⟨"core"⟩, ⟨"app"⟩]⟩ m past ∧
      m.state.stack = [⟨"app"⟩, ⟨"plugins"⟩, ⟨"shell"⟩] ∧ m.state.resolved.keys = [⟨"core"⟩] ∧
      m.state.plan = [⟨"core"⟩] ∧ m.state.Consistent Registry.tangled ∧
      ∃ i, m.state.stack.idxOf? ⟨"plugins"⟩ = some i := by
  let ending := (Resolver.search Registry.tangled).run 20 ⟨.start, [⟨"core"⟩, ⟨"app"⟩]⟩ []
  have hcourse : (Resolver.search Registry.tangled).Course ⟨.start, [⟨"core"⟩, ⟨"app"⟩]⟩
      ending.1 ending.2 := Search.Course.start.run 20
  have hstack : ending.1.state.stack = [⟨"app"⟩, ⟨"plugins"⟩, ⟨"shell"⟩] := by decide +kernel
  obtain ⟨hconsistent, hplace, -⟩ := (resolver_consistent _ _).1 _ _ hcourse
  refine ⟨_, _, hcourse, hstack, ?_, ?_, hconsistent, hplace _ ?_⟩
  · decide +kernel
  · decide +kernel
  · rw [hconsistent.mem_onStack, hstack]
    decide

end BuildPlan
