import BuildPlan.Plan
import BuildPlan.Registry

/-! # The depth-first walk of resolution

A walk expands target names into steps of a plan.  It keeps its own stack of frames, one for
each target whose requirements are being walked, so the depth of a requirement chain is not
bounded by a call stack.  Every name that was entered carries a mark: `opened` while its frame
is on the stack, then `done` with the leaves that the name stands for.

`Walk.run` ends because every iteration lowers `Walk.work`, which counts the pending
requirements of open frames and all requirements of targets that were never entered. -/

namespace BuildPlan

/-- What is known of a name that was entered. -/
inductive Mark where
  /-- Its requirements are being walked. -/
  | opened
  /-- It stands for these leaves, whose steps are all in the plan. -/
  | done (leaves : List TargetName)
deriving DecidableEq

/-- A target whose requirements are being walked, with those still to be taken. -/
structure Frame where
  descriptor : Descriptor
  pending : List TargetName
  depth : Nat

/-- The name of a frame's target. -/
def Frame.name (f : Frame) : TargetName := f.descriptor.name

/-- The state of a walk. -/
structure Walk where
  /-- The open frames, innermost first. -/
  frames : List Frame
  marks : Std.TreeMap TargetName Mark
  /-- The steps of the plan so far, newest first. -/
  steps : List Step
  /-- The events of the walk so far, newest first. -/
  events : List Event

/-- A walk that met an error, and its state at that moment. -/
structure Stop where
  error : PlanError
  walk : Walk

namespace Walk

/-- The walk that has entered nothing. -/
def start : Walk := ⟨[], ∅, [], []⟩

/-- The names on the stack, outermost first. -/
def stack (w : Walk) : List TargetName := (w.frames.map Frame.name).reverse

/-- The part of the stack from `n` on, closed by `n` itself. -/
def cycleTo (w : Walk) (n : TargetName) : List TargetName :=
  n :: ((w.frames.map Frame.name).takeWhile (· != n)).reverse ++ [n]

/-- The leaves behind a name that is done. -/
def leaves (w : Walk) (n : TargetName) : List TargetName :=
  match w.marks[n]? with
  | some (.done ls) => ls
  | _ => []

/-- The leaves behind several names, each at its first occurrence. -/
def leavesOf (w : Walk) (ns : List TargetName) : List TargetName := distinct (ns.flatMap w.leaves)

/-- Opens a frame for a name, unless the name is done; a name on the stack closes a cycle. -/
def enter (r : Registry) (n : TargetName) (requiredBy : Option TargetName) (w : Walk) :
    Except PlanError Walk :=
  match w.marks[n]? with
  | some (.done _) => .ok w
  | some .opened => .error (.cyclicDependency (w.cycleTo n))
  | none =>
      match r.get? n with
      | none => .error (.unknownTarget n requiredBy)
      | some d =>
          let depth := match w.frames with
            | [] => 0
            | f :: _ => f.depth + 1
          .ok {
            frames := ⟨d, d.requirements, depth⟩ :: w.frames
            marks := w.marks.insert n .opened
            steps := w.steps
            events := .visiting n d.kind depth :: w.events }

/-- Closes the innermost frame, all of whose requirements are done: a project becomes a step
and stands for itself, a composite stands for the leaves it groups. -/
def leave (d : Descriptor) (rest : List Frame) (w : Walk) : Walk :=
  let ls := w.leavesOf d.requirements
  match d with
  | .project p =>
      { w with
        frames := rest
        marks := w.marks.insert p.name (.done [p.name])
        steps := ⟨p.name, ls⟩ :: w.steps }
  | .composite c => { w with frames := rest, marks := w.marks.insert c.name (.done ls) }

/-- One iteration: the innermost frame `f` takes its next requirement, or is closed. -/
def advance (r : Registry) (f : Frame) (rest : List Frame) (w : Walk) : Except PlanError Walk :=
  match f.pending with
  | [] => .ok (w.leave f.descriptor rest)
  | n :: ns => { w with frames := { f with pending := ns } :: rest }.enter r n (some f.name)

/-! ### The measure -/

/-- What a list of descriptors adds to the work, those with a mark left out. -/
def unentered (marks : Std.TreeMap TargetName Mark) : List Descriptor → Nat
  | [] => 0
  | d :: ds =>
      (if marks.contains d.name then 0 else d.requirements.length + 2) + unentered marks ds

/-- The iterations that open frames still need. -/
def pendingWork : List Frame → Nat
  | [] => 0
  | f :: fs => f.pending.length + 1 + pendingWork fs

/-- A bound on the iterations to come. -/
def work (r : Registry) (w : Walk) : Nat := pendingWork w.frames + unentered w.marks r.toList

theorem unentered_insert_le (marks : Std.TreeMap TargetName Mark) (n : TargetName) (m : Mark)
    (ds : List Descriptor) : unentered (marks.insert n m) ds ≤ unentered marks ds := by
  induction ds with
  | nil => simp [unentered]
  | cons d ds ih =>
      unfold unentered
      rw [Std.TreeMap.contains_insert]
      cases compare n d.name == .eq <;> cases marks.contains d.name <;> simp <;> omega

theorem unentered_insert_lt {marks : Std.TreeMap TargetName Mark} {n : TargetName} {m : Mark}
    {d : Descriptor} {ds : List Descriptor} (hd : d ∈ ds) (hn : d.name = n)
    (hm : marks.contains n = false) :
    unentered (marks.insert n m) ds + (d.requirements.length + 2) ≤ unentered marks ds := by
  induction ds with
  | nil => cases hd
  | cons e ds ih =>
      unfold unentered
      rw [Std.TreeMap.contains_insert]
      rcases List.mem_cons.1 hd with rfl | hd
      · have := unentered_insert_le marks n m ds
        subst hn
        simp [hm]
        omega
      · have := ih hd
        cases compare n e.name == .eq <;> cases marks.contains e.name <;> simp <;> omega

theorem work_enter_le {r : Registry} {n : TargetName} {parent : Option TargetName} {w w' : Walk}
    (h : w.enter r n parent = .ok w') : w'.work r ≤ w.work r := by
  unfold enter at h
  split at h
  · cases h; exact Nat.le_refl _
  · cases h
  · next hm =>
      split at h
      · cases h
      · next d hd =>
          cases h
          obtain ⟨hmem, hname⟩ := Registry.get?_eq_some_iff.1 hd
          have hc : w.marks.contains n = false := by
            rw [Std.TreeMap.contains_eq_isSome_getElem?, hm]; rfl
          have := unentered_insert_lt (m := .opened) hmem hname hc
          simp only [work, pendingWork]
          omega

theorem work_leave_lt {r : Registry} {w : Walk} {f : Frame} {rest : List Frame}
    (hf : w.frames = f :: rest) : (w.leave f.descriptor rest).work r < w.work r := by
  have hp : pendingWork rest < pendingWork w.frames := by
    rw [hf, pendingWork]; omega
  unfold leave
  split
  · next p _ =>
      have := unentered_insert_le w.marks p.name (.done [p.name]) r.toList
      simp only [work]
      omega
  · next c _ =>
      have := unentered_insert_le w.marks c.name (.done (w.leavesOf f.descriptor.requirements))
        r.toList
      simp only [work]
      omega

/-- Every iteration lowers the work. -/
theorem work_advance_lt {r : Registry} {w w' : Walk} {f : Frame} {rest : List Frame}
    (hf : w.frames = f :: rest) (h : w.advance r f rest = .ok w') : w'.work r < w.work r := by
  unfold advance at h
  split at h
  · cases h; exact work_leave_lt hf
  · next n ns hp =>
      have := work_enter_le h
      refine Nat.lt_of_le_of_lt this ?_
      simp only [work, hf, pendingWork, hp, List.length_cons]
      omega

/-- Iterates until no frame is open. -/
def run (r : Registry) (w : Walk) : Except Stop Walk :=
  match _hf : w.frames with
  | [] => .ok w
  | f :: rest =>
      match _h : w.advance r f rest with
      | .error e => .error ⟨e, w⟩
      | .ok w' => w'.run r
termination_by w.work r
decreasing_by exact work_advance_lt _hf _h

/-- Walks several roots, one after the other. -/
def runRoots (r : Registry) : List TargetName → Walk → Except Stop Walk
  | [], w => .ok w
  | n :: ns, w =>
      match w.enter r n none with
      | .error e => .error ⟨e, w⟩
      | .ok w' => (w'.run r).bind (runRoots r ns)

end Walk

end BuildPlan
