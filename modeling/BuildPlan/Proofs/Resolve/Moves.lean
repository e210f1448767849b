import BuildPlan.Proofs.Resolve.Refinement

/-! # A resolution, move by move

A resolution visits its roots one after the other, and iterates on the innermost open frame as long
as there is one.  A `Search` is what such a resolution is made of, `Search.next?` is its next move,
and a `Search.Course` tells the moments that moves lead through.

For the walk of `resolve` every move lowers the work that is left, so no course is longer than this
work (`Search.Course.length_le`), and there is one at whose end nothing is left to do or an error
is met (`Search.Course.exists_end`).  It ends as the walk does (`Walk.exists_course`). -/

namespace BuildPlan

/-- A resolution between two moves: its state, and the roots that are still to be visited. -/
structure Moment (σ : Type) where
  state : σ
  roots : List TargetName

/-- What a depth-first resolution is made of: the open frames of a state, innermost first, the
visit of a root, and an iteration on the innermost of the open frames. -/
structure Search (σ : Type) where
  frames : σ → List Frame
  visit : TargetName → σ → Except PlanError σ
  advance : Frame → List Frame → σ → Except PlanError σ

namespace Search

variable {σ : Type} {p : Search σ} {start m m' : Moment σ} {past : List (Moment σ)}

/-- The next move; none is left when no frame is open and all roots are visited. -/
def next? (p : Search σ) (m : Moment σ) : Option (Except PlanError (Moment σ)) :=
  match p.frames m.state, m.roots with
  | f :: rest, ns => some ((p.advance f rest m.state).map (⟨·, ns⟩))
  | [], n :: ns => some ((p.visit n m.state).map (⟨·, ns⟩))
  | [], [] => none

theorem next?_of_cons {f : Frame} {rest : List Frame} (hf : p.frames m.state = f :: rest) :
    p.next? m = some ((p.advance f rest m.state).map (⟨·, m.roots⟩)) := by
  unfold next?
  rw [hf]

theorem next?_of_nil {n : TargetName} {ns : List TargetName} (hf : p.frames m.state = [])
    (hn : m.roots = n :: ns) : p.next? m = some ((p.visit n m.state).map (⟨·, ns⟩)) := by
  unfold next?
  rw [hf, hn]

theorem next?_eq_none_iff : p.next? m = none ↔ p.frames m.state = [] ∧ m.roots = [] := by
  unfold next?
  split
  next hf => simp [hf]
  next hf hn => simp [hn]
  next hf hn => simp [hf, hn]

theorem eq_ok_of_map {answer : Except PlanError σ} {ns : List TargetName}
    (h : answer.map (⟨·, ns⟩) = .ok m) : answer = .ok m.state ∧ m.roots = ns := by
  cases answer with
  | error e => cases h
  | ok s =>
      cases h
      exact ⟨rfl, rfl⟩

theorem eq_error_of_map {answer : Except PlanError σ} {ns : List TargetName} {e : PlanError}
    (h : answer.map (Moment.mk · ns) = .error e) : answer = .error e := by
  cases answer with
  | error e' =>
      cases h
      rfl
  | ok s => cases h

/-- A move is an iteration on the innermost frame or, where no frame is open, the visit of a
root. -/
theorem next?_eq_ok (h : p.next? m = some (.ok m')) :
    (∃ f rest, p.frames m.state = f :: rest ∧ p.advance f rest m.state = .ok m'.state ∧
      m'.roots = m.roots) ∨
    ∃ n, p.frames m.state = [] ∧ m.roots = n :: m'.roots ∧ p.visit n m.state = .ok m'.state := by
  cases hf : p.frames m.state with
  | cons f rest =>
      rw [next?_of_cons hf] at h
      obtain ⟨hadvance, hroots⟩ := eq_ok_of_map (Option.some.inj h)
      exact .inl ⟨f, rest, rfl, hadvance, hroots⟩
  | nil =>
      cases hn : m.roots with
      | nil =>
          rw [next?_eq_none_iff.2 ⟨hf, hn⟩] at h
          cases h
      | cons n ns =>
          rw [next?_of_nil hf hn] at h
          obtain ⟨hvisit, rfl⟩ := eq_ok_of_map (Option.some.inj h)
          exact .inr ⟨n, rfl, rfl, hvisit⟩

/-- What fails is an iteration or a visit. -/
theorem next?_eq_error {e : PlanError} (h : p.next? m = some (.error e)) :
    (∃ f rest, p.frames m.state = f :: rest ∧ p.advance f rest m.state = .error e) ∨
    ∃ n ns, p.frames m.state = [] ∧ m.roots = n :: ns ∧ p.visit n m.state = .error e := by
  cases hf : p.frames m.state with
  | cons f rest =>
      rw [next?_of_cons hf] at h
      exact .inl ⟨f, rest, rfl, eq_error_of_map (Option.some.inj h)⟩
  | nil =>
      cases hn : m.roots with
      | nil =>
          rw [next?_eq_none_iff.2 ⟨hf, hn⟩] at h
          cases h
      | cons n ns =>
          rw [next?_of_nil hf hn] at h
          exact .inr ⟨n, ns, rfl, rfl, eq_error_of_map (Option.some.inj h)⟩

/-! ### Courses -/

/-- Moves lead from `start` to a moment, by way of the moments of a list, latest first. -/
inductive Course (p : Search σ) (start : Moment σ) : Moment σ → List (Moment σ) → Prop
  | start : Course p start start []
  | move {m m' : Moment σ} {past : List (Moment σ)} : Course p start m past →
      p.next? m = some (.ok m') → Course p start m' (m :: past)

/-- The moment after `k` moves, or fewer where no more are left, and the moments before it. -/
def run (p : Search σ) : Nat → Moment σ → List (Moment σ) → Moment σ × List (Moment σ)
  | 0, m, past => (m, past)
  | k + 1, m, past =>
      match p.next? m with
      | some (.ok m') => p.run k m' (m :: past)
      | _ => (m, past)

theorem Course.run (h : p.Course start m past) (k : Nat) :
    p.Course start (p.run k m past).1 (p.run k m past).2 := by
  induction k generalizing m past with
  | zero => exact h
  | succ k ih =>
      unfold Search.run
      split
      next m' hm' => exact ih (h.move hm')
      next => exact h

section Measure

variable {left : Moment σ → Nat}
  (hleft : ∀ m m', p.next? m = some (.ok m') → left m' < left m)

include hleft

/-- Where every move lowers a measure, it bounds the number of moves. -/
theorem Course.length_le (h : p.Course start m past) : past.length + left m ≤ left start := by
  induction h with
  | start => simp
  | move _ hnext ih =>
      have hlt := hleft _ _ hnext
      rw [List.length_cons]
      omega

/-- Then a course goes on until no move is left or the next one fails. -/
theorem Course.exists_end (h : p.Course start m past) :
    ∃ m' past', p.Course start m' past' ∧
      (p.next? m' = none ∨ ∃ e, p.next? m' = some (.error e)) := by
  induction hk : left m using Nat.strongRecOn generalizing m past with
  | ind k ih =>
      cases hnext : p.next? m with
      | none => exact ⟨m, past, h, .inl hnext⟩
      | some answer =>
          cases answer with
          | error e => exact ⟨m, past, h, .inr ⟨e, hnext⟩⟩
          | ok m' =>
              have hlt := hleft _ _ hnext
              exact ih (left m') (hk ▸ hlt) (h.move hnext) rfl

end Measure

end Search

/-! ### The walk -/

namespace Walk

variable {r : Registry} {m m' : Moment Walk} {past : List (Moment Walk)}

/-- The moves of the walk of `resolve`. -/
def search (r : Registry) : Search Walk where
  frames := frames
  visit n w := w.enter r n none
  advance f rest w := w.advance r f rest

/-- What is left to do: the roots to come, and the iterations that may be needed. -/
def left (r : Registry) (m : Moment Walk) : Nat := m.roots.length + m.state.work r

theorem left_lt (h : (search r).next? m = some (.ok m')) : left r m' < left r m := by
  unfold left
  rcases Search.next?_eq_ok h with ⟨f, rest, hf, hadvance, hroots⟩ | ⟨n, -, hroots, hvisit⟩
  · have hlt := work_advance_lt hf hadvance
    rw [hroots]
    omega
  · have hle := work_enter_le hvisit
    rw [hroots, List.length_cons]
    omega

/-- What the walk of a moment comes to when it goes on through the roots that are left. -/
def outcome (r : Registry) (m : Moment Walk) : Except Stop Walk :=
  (m.state.run r).bind (runRoots r m.roots)

/-- How a resolution ends at a moment from which no move leads on. -/
inductive Ends (r : Registry) (m : Moment Walk) : Except Stop Walk → Prop
  | finished : (search r).next? m = none → Ends r m (.ok m.state)
  | stopped {e : PlanError} : (search r).next? m = some (.error e) →
      Ends r m (.error ⟨e, m.state⟩)

theorem outcome_of_nil (hf : m.state.frames = []) :
    outcome r m = m.state.runRoots r m.roots := by
  unfold outcome
  rw [run_of_frames_nil hf]
  rfl

theorem outcome_of_cons {f : Frame} {rest : List Frame} (hf : m.state.frames = f :: rest) :
    outcome r m = match m.state.advance r f rest with
      | .error e => .error ⟨e, m.state⟩
      | .ok w => outcome r ⟨w, m.roots⟩ := by
  unfold outcome
  rw [run_eq hf]
  cases m.state.advance r f rest <;> rfl

/-- A move leads on to what the walk comes to. -/
theorem outcome_eq_of_next? (h : (search r).next? m = some (.ok m')) :
    outcome r m' = outcome r m := by
  rcases Search.next?_eq_ok h with ⟨f, rest, hf, hadvance, hroots⟩ | ⟨n, hf, hroots, hvisit⟩
  · have hadvance : m.state.advance r f rest = .ok m'.state := hadvance
    rw [outcome_of_cons hf, hadvance, ← hroots]
  · rw [outcome_of_nil hf, hroots, runRoots_of_enter_ok hvisit]
    rfl

theorem ends_of_next?_eq_none (h : (search r).next? m = none) : Ends r m (outcome r m) := by
  obtain ⟨hf, hroots⟩ := Search.next?_eq_none_iff.1 h
  rw [outcome_of_nil hf, hroots]
  exact .finished h

theorem ends_of_next?_eq_error {e : PlanError} (h : (search r).next? m = some (.error e)) :
    Ends r m (outcome r m) := by
  have hstop : outcome r m = .error ⟨e, m.state⟩ := by
    rcases Search.next?_eq_error h with ⟨f, rest, hf, hadvance⟩ | ⟨n, ns, hf, hroots, hvisit⟩
    · have hadvance : m.state.advance r f rest = .error e := hadvance
      rw [outcome_of_cons hf, hadvance]
    · rw [outcome_of_nil hf, hroots, runRoots_of_enter_error hvisit]
  rw [hstop]
  exact .stopped h

variable {roots : List TargetName}

theorem outcome_start (r : Registry) (roots : List TargetName) :
    outcome r ⟨.start, roots⟩ = resolveWalk r roots :=
  outcome_of_nil rfl

theorem outcome_eq_of_course (h : (search r).Course ⟨.start, roots⟩ m past) :
    outcome r m = resolveWalk r roots := by
  induction h with
  | start => exact outcome_start r roots
  | move _ hnext ih => rw [outcome_eq_of_next? hnext, ih]

/-- Moves lead from the start to where the walk ends. -/
theorem exists_course (r : Registry) (roots : List TargetName) :
    ∃ m past, (search r).Course ⟨.start, roots⟩ m past ∧ Ends r m (resolveWalk r roots) := by
  have hstart : (search r).Course ⟨.start, roots⟩ ⟨.start, roots⟩ [] := .start
  obtain ⟨m, past, hcourse, hend⟩ := hstart.exists_end fun _ _ => left_lt
  refine ⟨m, past, hcourse, ?_⟩
  rw [← outcome_eq_of_course hcourse]
  rcases hend with hnone | ⟨e, herror⟩
  · exact ends_of_next?_eq_none hnone
  · exact ends_of_next?_eq_error herror

end Walk

end BuildPlan
