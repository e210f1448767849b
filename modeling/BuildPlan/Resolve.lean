import BuildPlan.Resolve.Walk

/-! # Resolution

`resolve r roots` expands the roots, in their order, into a plan of leaf targets: every leaf
that a root requires, directly or not, comes once and after all that it requires.  Resolution
is all or nothing: it fails with the first unknown name or cycle that the walk meets.

The plan has no repeated target because a walk keeps the marks of names, the open frames and
the steps apart (`Walk.Sound`). -/

namespace BuildPlan

namespace Walk

/-- Steps belong to names that are done, frames to names that are opened, neither repeats. -/
structure Sound (w : Walk) : Prop where
  done_of_mem_steps : ∀ s ∈ w.steps, ∃ ls, w.marks[s.target]? = some (.done ls)
  nodup_steps : (w.steps.map Step.target).Nodup
  opened_of_mem_frames : ∀ f ∈ w.frames, w.marks[f.name]? = some .opened
  nodup_frames : (w.frames.map Frame.name).Nodup

theorem sound_start : start.Sound := by
  constructor <;> simp [start]

theorem Sound.enter {r : Registry} {n : TargetName} {parent : Option TargetName} {w w' : Walk}
    (hw : w.Sound) (h : w.enter r n parent = .ok w') : w'.Sound := by
  unfold Walk.enter at h
  split at h
  · cases h; exact hw
  · cases h
  · next hm =>
      split at h
      · cases h
      · next d hd =>
          cases h
          obtain ⟨-, hname⟩ := Registry.get?_eq_some_iff.1 hd
          have hkeep : ∀ {x : TargetName} {m : Mark}, w.marks[x]? = some m →
              (w.marks.insert n .opened)[x]? = some m := by
            intro x m hx
            rw [Std.TreeMap.getElem?_insert, if_neg]
            · exact hx
            · intro e
              rw [← Std.compare_eq_iff_eq.1 e, hm] at hx
              cases hx
          constructor
          · intro s hs
            obtain ⟨ls, hls⟩ := hw.done_of_mem_steps s hs
            exact ⟨ls, hkeep hls⟩
          · exact hw.nodup_steps
          · intro f hf
            rcases List.mem_cons.1 hf with rfl | hf
            · simp [Frame.name, hname]
            · exact hkeep (hw.opened_of_mem_frames f hf)
          · refine List.nodup_cons.2 ⟨fun hmem => ?_, hw.nodup_frames⟩
            obtain ⟨f, hf, hfn⟩ := List.mem_map.1 hmem
            have := hw.opened_of_mem_frames f hf
            rw [hfn] at this
            simp only [Frame.name, hname] at this
            rw [hm] at this
            cases this

theorem Sound.leave {w : Walk} {f : Frame} {rest : List Frame} (hw : w.Sound)
    (hf : w.frames = f :: rest) : (w.leave f.descriptor rest).Sound := by
  have hopen : w.marks[f.name]? = some .opened :=
    hw.opened_of_mem_frames f (by simp [hf])
  have hnodup := hw.nodup_frames
  rw [hf, List.map_cons, List.nodup_cons] at hnodup
  have hrest : ∀ g ∈ rest, ∀ m, (w.marks.insert f.name m)[g.name]? = some .opened := by
    intro g hg m
    rw [Std.TreeMap.getElem?_insert, if_neg]
    · exact hw.opened_of_mem_frames g (by simp [hf, hg])
    · intro e
      exact hnodup.1 (List.mem_map.2 ⟨g, hg, (Std.compare_eq_iff_eq.1 e).symm⟩)
  have hsteps : ∀ s ∈ w.steps, ∀ m, ∃ ls,
      (w.marks.insert f.name m)[s.target]? = some (.done ls) := by
    intro s hs m
    obtain ⟨ls, hls⟩ := hw.done_of_mem_steps s hs
    refine ⟨ls, ?_⟩
    rw [Std.TreeMap.getElem?_insert, if_neg]
    · exact hls
    · intro e
      rw [← Std.compare_eq_iff_eq.1 e, hopen] at hls
      cases hls
  unfold Walk.leave
  split
  · next p hp =>
      have hname : f.name = p.name := by simp [Frame.name, hp, Descriptor.name]
      rw [hname] at hrest hsteps hopen
      constructor
      · intro s hs
        rcases List.mem_cons.1 hs with rfl | hs
        · exact ⟨[p.name], by simp⟩
        · exact hsteps s hs _
      · refine List.nodup_cons.2 ⟨fun hmem => ?_, hw.nodup_steps⟩
        obtain ⟨s, hs, hst⟩ := List.mem_map.1 hmem
        obtain ⟨ls, hls⟩ := hw.done_of_mem_steps s hs
        rw [hst, hopen] at hls
        cases hls
      · exact fun g hg => hrest g hg _
      · exact hnodup.2
  · next c hc =>
      have hname : f.name = c.name := by simp [Frame.name, hc, Descriptor.name]
      rw [hname] at hrest hsteps
      constructor
      · exact fun s hs => hsteps s hs _
      · exact hw.nodup_steps
      · exact fun g hg => hrest g hg _
      · exact hnodup.2

theorem Sound.advance {r : Registry} {w w' : Walk} {f : Frame} {rest : List Frame} (hw : w.Sound)
    (hf : w.frames = f :: rest) (h : w.advance r f rest = .ok w') : w'.Sound := by
  unfold Walk.advance at h
  split at h
  · cases h
    exact hw.leave hf
  · refine Sound.enter (w := { w with frames := _ }) ?_ h
    refine ⟨hw.done_of_mem_steps, hw.nodup_steps, fun g hg => ?_, ?_⟩
    · rcases List.mem_cons.1 hg with rfl | hg
      · exact hw.opened_of_mem_frames f (by simp [hf])
      · exact hw.opened_of_mem_frames g (by simp [hf, hg])
    · have := hw.nodup_frames
      rw [hf] at this
      simpa [Frame.name] using this

theorem Sound.run {r : Registry} {w w' : Walk} (hw : w.Sound) (h : w.run r = .ok w') :
    w'.Sound := by
  fun_induction Walk.run r w with
  | case1 => cases h; exact hw
  | case2 => cases h
  | case3 w f rest hf w1 hadv ih => exact ih (hw.advance hf hadv) h

theorem Sound.runRoots {r : Registry} {ns : List TargetName} {w w' : Walk} (hw : w.Sound)
    (h : w.runRoots r ns = .ok w') : w'.Sound := by
  induction ns generalizing w with
  | nil => cases h; exact hw
  | cons n ns ih =>
      unfold Walk.runRoots at h
      split at h
      · cases h
      · next w1 he =>
          cases hr : w1.run r with
          | error e => rw [hr] at h; cases h
          | ok w2 =>
              rw [hr] at h
              exact ih ((hw.enter he).run hr) h

end Walk

/-- The walk of resolving `roots`. -/
def resolveWalk (r : Registry) (roots : List TargetName) : Except Stop Walk :=
  Walk.start.runRoots r roots

theorem sound_of_resolveWalk {r : Registry} {roots : List TargetName} {w : Walk}
    (h : resolveWalk r roots = .ok w) : w.Sound :=
  Walk.sound_start.runRoots h

/-- The plan of a walk that has left every frame. -/
def Walk.plan (w : Walk) (hw : w.Sound) : Plan where
  steps := w.steps.reverse
  nodup_targets := by
    rw [List.map_reverse]
    exact (List.reverse_perm _).nodup_iff.2 hw.nodup_steps

/-- The plan of `roots`, or the first error met on the way. -/
def resolve (r : Registry) (roots : List TargetName) : Except PlanError Plan :=
  match h : resolveWalk r roots with
  | .ok w => .ok (w.plan (sound_of_resolveWalk h))
  | .error s => .error s.error

/-- The events of resolving `roots`. -/
def resolveEvents (r : Registry) (roots : List TargetName) : List Event :=
  match resolveWalk r roots with
  | .ok w => (.resolved w.steps.length :: w.events).reverse
  | .error s => s.walk.events.reverse

end BuildPlan
