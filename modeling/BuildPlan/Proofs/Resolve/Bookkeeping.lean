import Mathlib.Data.List.Chain
import BuildPlan.Proofs.Resolve.Moves

/-! # A resolution that keeps its records apart

The walk of `resolve` has one record of what is going on: the frames, and a mark for every name
that was entered.  A `Resolver` writes the same down several times over, in the frames, in a stack
of names and in a set of the names on it, and keeps the leaves of resolved names, the plan and the
dependencies in tables of their own.  It looks a cycle up in the stack and would cut it at the
bottom if the name were not there; it collects the leaves of requirements and would pass over one
that is not resolved.

`Resolver.Consistent` says that these records agree, and every move keeps it
(`Resolver.Consistent.advance`, `Resolver.Consistent.visit`).  So neither of the two ways out is
ever taken (`Resolver.Agree.exists_idxOf?`, `Resolver.Consistent.resolved_of_pending_nil`). -/

namespace BuildPlan

/-- The state of a resolution with a record of its own for everything that is asked of it. -/
structure Resolver where
  /-- The open frames, innermost first. -/
  frames : List Frame
  /-- The names on the stack, outermost first. -/
  stack : List TargetName
  /-- The set of the names on the stack. -/
  onStack : Std.TreeSet TargetName
  /-- The leaves behind every name that was left. -/
  resolved : Std.TreeMap TargetName (List TargetName)
  /-- The projects that were left, in this order. -/
  plan : List TargetName
  /-- The leaves that every one of them depends on. -/
  dependencies : Std.TreeMap TargetName (List TargetName)
  /-- The events so far, newest first. -/
  events : List Event

namespace Resolver

/-- The resolver that has entered nothing. -/
def start : Resolver := ⟨[], [], ∅, ∅, [], ∅, []⟩

/-- The stack from the place of `n` on, or from the bottom if it has none, closed by `n`. -/
def cycleTo (s : Resolver) (n : TargetName) : List TargetName :=
  s.stack.drop ((s.stack.idxOf? n).getD 0) ++ [n]

/-- The leaves behind the resolved ones of several names, each at its first occurrence. -/
def leavesOf (s : Resolver) (ns : List TargetName) : List TargetName :=
  distinct (ns.flatMap fun n => (s.resolved[n]?).getD [])

/-- Pushes a name on the stack and opens a frame for its descriptor. -/
def push (n : TargetName) (d : Descriptor) (s : Resolver) : Resolver :=
  { s with
    frames := ⟨d, d.requirements, s.stack.length⟩ :: s.frames
    stack := s.stack ++ [n]
    onStack := s.onStack.insert n
    events := .visiting n d.kind s.stack.length :: s.events }

/-- Pushes a name, unless it is resolved; a name on the stack closes a cycle. -/
def enter (r : Registry) (n : TargetName) (requiredBy : Option TargetName) (s : Resolver) :
    Except PlanError Resolver :=
  if n ∈ s.resolved then .ok s
  else if n ∈ s.onStack then .error (.cyclicDependency (s.cycleTo n))
  else
    match r.get? n with
    | none => .error (.unknownTarget n requiredBy)
    | some d => .ok (s.push n d)

/-- Pops a name whose requirements are all resolved, and records it. -/
def leave (d : Descriptor) (rest : List Frame) (s : Resolver) : Resolver :=
  let ls := s.leavesOf d.requirements
  let popped := { s with
    frames := rest
    stack := s.stack.dropLast
    onStack := s.onStack.erase d.name }
  match d with
  | .project p =>
      { popped with
        resolved := s.resolved.insert p.name [p.name]
        plan := s.plan ++ [p.name]
        dependencies := s.dependencies.insert p.name ls }
  | .composite c => { popped with resolved := s.resolved.insert c.name ls }

/-- The resolver whose innermost frame has still to take `ns`. -/
def withPending (s : Resolver) (f : Frame) (rest : List Frame) (ns : List TargetName) : Resolver :=
  { s with frames := { f with pending := ns } :: rest }

/-- One iteration: the innermost frame takes its next requirement, or is closed. -/
def advance (r : Registry) (f : Frame) (rest : List Frame) (s : Resolver) :
    Except PlanError Resolver :=
  match f.pending with
  | [] => .ok (s.leave f.descriptor rest)
  | n :: ns => (s.withPending f rest ns).enter r n (some f.name)

/-- The moves of a resolver. -/
def search (r : Registry) : Search Resolver where
  frames := frames
  visit n s := s.enter r n none
  advance f rest s := s.advance r f rest

variable {r : Registry} {s s' : Resolver} {f : Frame} {rest : List Frame} {n : TargetName}

theorem enter_eq_ok {parent : Option TargetName} (h : s.enter r n parent = .ok s') :
    n ∈ s.resolved ∧ s' = s ∨
      n ∉ s.resolved ∧ n ∉ s.onStack ∧ ∃ d, r.get? n = some d ∧ s' = s.push n d := by
  unfold enter at h
  split at h
  next hn =>
    cases h
    exact .inl ⟨hn, rfl⟩
  next hn =>
    split at h
    · cases h
    next hstack =>
      split at h
      · cases h
      next d hd =>
        cases h
        exact .inr ⟨hn, hstack, d, hd, rfl⟩

/-! ### What agrees -/

/-- Every requirement that a frame has taken is resolved or is `next`, the name above it on the
stack. -/
def Consumed (resolved : Std.TreeMap TargetName (List TargetName)) :
    Option TargetName → List Frame → Prop
  | _, [] => True
  | next, f :: rest =>
      (∃ taken, f.descriptor.requirements = taken ++ f.pending ∧
        ∀ n ∈ taken, n ∈ resolved ∨ next = some n) ∧
      Consumed resolved (some f.name) rest

/-- The records of a resolver agree. -/
structure Agree (r : Registry) (s : Resolver) : Prop where
  declared : ∀ f ∈ s.frames, r.get? f.name = some f.descriptor
  /-- The names of the frames, from the bottom to the top, are the stack. -/
  stack_eq : s.stack = (s.frames.map Frame.name).reverse
  nodup_stack : s.stack.Nodup
  mem_onStack : ∀ n, n ∈ s.onStack ↔ n ∈ s.stack
  /-- Every name on the stack lists the next one among its requirements. -/
  requires_next : s.stack.IsChain r.Requires
  not_resolved : ∀ n ∈ s.stack, n ∉ s.resolved
  nodup_plan : s.plan.Nodup
  /-- The plan holds the resolved projects. -/
  mem_plan : ∀ n, n ∈ s.plan ↔ n ∈ s.resolved ∧ ∃ p, r.get? n = some (.project p)
  mem_dependencies : ∀ n, n ∈ s.dependencies ↔ n ∈ s.plan

/-- The records agree, and all that was taken is resolved or on the stack. -/
structure Consistent (r : Registry) (s : Resolver) : Prop extends Agree r s where
  consumed : Consumed s.resolved none s.frames

theorem consistent_start (r : Registry) : Consistent r start where
  declared := by simp [start]
  stack_eq := rfl
  nodup_stack := .nil
  mem_onStack := by simp [start]
  requires_next := .nil
  not_resolved := by simp [start]
  nodup_plan := .nil
  mem_plan := by simp [start]
  mem_dependencies := by simp [start]
  consumed := trivial

/-! ### What frames have taken -/

section Consumed

variable {resolved resolved' : Std.TreeMap TargetName (List TargetName)} {fs : List Frame}
  {next : Option TargetName}

theorem Consumed.mono (h : Consumed resolved next fs) (hsub : ∀ n ∈ resolved, n ∈ resolved') :
    Consumed resolved' next fs := by
  induction fs generalizing next with
  | nil => trivial
  | cons f rest ih =>
      obtain ⟨⟨taken, hsplit, htaken⟩, hrest⟩ := h
      exact ⟨⟨taken, hsplit, fun n hn => (htaken n hn).imp_left (hsub n)⟩, ih hrest⟩

/-- What is taken next is in hand until it is entered. -/
theorem Consumed.take {ns : List TargetName} (h : Consumed resolved none (f :: rest))
    (hpending : f.pending = n :: ns) :
    Consumed resolved (some n) ({ f with pending := ns } :: rest) := by
  obtain ⟨⟨taken, hsplit, htaken⟩, hrest⟩ := h
  refine ⟨⟨taken ++ [n], by simp [hsplit, hpending], fun m hm => ?_⟩, hrest⟩
  rcases List.mem_append.1 hm with hm | hm
  · exact .inl ((htaken m hm).resolve_right (by simp))
  · rw [List.mem_singleton.1 hm]
    exact .inr rfl

theorem Consumed.of_mem (h : Consumed resolved (some n) fs) (hn : n ∈ resolved) :
    Consumed resolved none fs := by
  cases fs with
  | nil => trivial
  | cons f rest =>
      obtain ⟨⟨taken, hsplit, htaken⟩, hrest⟩ := h
      refine ⟨⟨taken, hsplit, fun m hm => ?_⟩, hrest⟩
      rcases htaken m hm with hm | hm
      · exact .inl hm
      · rw [← Option.some.inj hm]
        exact .inl hn

end Consumed

/-! ### Parts of a move -/

theorem Agree.withPending (hs : s.Agree r) (hf : s.frames = f :: rest) (ns : List TargetName) :
    (s.withPending f rest ns).Agree r where
  declared := by
    have hdeclared := hs.declared
    rw [hf, List.forall_mem_cons] at hdeclared
    exact List.forall_mem_cons.2 hdeclared
  stack_eq := by
    have hstack := hs.stack_eq
    rw [hf] at hstack
    exact hstack
  nodup_stack := hs.nodup_stack
  mem_onStack := hs.mem_onStack
  requires_next := hs.requires_next
  not_resolved := hs.not_resolved
  nodup_plan := hs.nodup_plan
  mem_plan := hs.mem_plan
  mem_dependencies := hs.mem_dependencies

/-- Pushing a new name keeps the records in agreement, if the top of the stack requires it. -/
theorem Agree.push {d : Descriptor} (hs : s.Agree r) (hresolved : n ∉ s.resolved)
    (hstack : n ∉ s.onStack) (hd : r.get? n = some d)
    (hn : ∀ m ∈ s.stack.getLast?, r.Requires m n) : (s.push n d).Agree r := by
  obtain rfl := Registry.name_of_get? hd
  have hnot : d.name ∉ s.stack := mt (hs.mem_onStack d.name).2 hstack
  constructor
  · exact List.forall_mem_cons.2 ⟨hd, hs.declared⟩
  · simp only [Resolver.push, hs.stack_eq, List.map_cons, List.reverse_cons]
    rfl
  · exact List.nodup_append.2 ⟨hs.nodup_stack, by simp, by
      rintro m hm k hk rfl
      exact hnot (List.mem_singleton.1 hk ▸ hm)⟩
  · intro m
    simp only [Resolver.push, Std.TreeSet.mem_insert, Std.compare_eq_iff_eq, hs.mem_onStack,
      List.mem_append, List.mem_singleton]
    tauto
  · refine List.isChain_append.2 ⟨hs.requires_next, List.isChain_singleton _, fun m hm k hk => ?_⟩
    obtain rfl : d.name = k := by simpa using hk
    exact hn m hm
  · intro m hm
    rcases List.mem_append.1 hm with hm | hm
    · exact hs.not_resolved m hm
    · exact List.mem_singleton.1 hm ▸ hresolved
  · exact hs.nodup_plan
  · exact hs.mem_plan
  · exact hs.mem_dependencies

/-- A name that is in hand is resolved or pushed, if the top of the stack requires it. -/
theorem Agree.enter (hs : s.Agree r) (hconsumed : Consumed s.resolved (some n) s.frames)
    (hn : ∀ m ∈ s.stack.getLast?, r.Requires m n) {parent : Option TargetName}
    (h : s.enter r n parent = .ok s') : s'.Consistent r := by
  rcases enter_eq_ok h with ⟨hresolved, rfl⟩ | ⟨hresolved, hstack, d, hd, rfl⟩
  · exact ⟨hs, hconsumed.of_mem hresolved⟩
  · refine ⟨hs.push hresolved hstack hd hn, ⟨[], rfl, by simp⟩, ?_⟩
    obtain rfl := Registry.name_of_get? hd
    exact hconsumed

theorem stack_eq_append (hs : s.Agree r) (hf : s.frames = f :: rest) :
    s.stack = (rest.map Frame.name).reverse ++ [f.name] := by
  rw [hs.stack_eq, hf, List.map_cons, List.reverse_cons]

/-! ### Leaving -/

@[simp] theorem leave_frames (s : Resolver) (d : Descriptor) (rest : List Frame) :
    (s.leave d rest).frames = rest := by
  cases d <;> rfl

@[simp] theorem leave_stack (s : Resolver) (d : Descriptor) (rest : List Frame) :
    (s.leave d rest).stack = s.stack.dropLast := by
  cases d <;> rfl

@[simp] theorem leave_onStack (s : Resolver) (d : Descriptor) (rest : List Frame) :
    (s.leave d rest).onStack = s.onStack.erase d.name := by
  cases d <;> rfl

theorem mem_leave_resolved {d : Descriptor} :
    n ∈ (s.leave d rest).resolved ↔ n = d.name ∨ n ∈ s.resolved := by
  rw [eq_comm]
  cases d <;> simp only [leave, Descriptor.name, Std.TreeMap.mem_insert, Std.compare_eq_iff_eq]

theorem mem_leave_plan {d : Descriptor} :
    n ∈ (s.leave d rest).plan ↔ (n = d.name ∧ ∃ p, d = .project p) ∨ n ∈ s.plan := by
  cases d <;> simp [leave, Descriptor.name, or_comm]

theorem mem_leave_dependencies {d : Descriptor} :
    n ∈ (s.leave d rest).dependencies ↔
      (n = d.name ∧ ∃ p, d = .project p) ∨ n ∈ s.dependencies := by
  rw [eq_comm]
  cases d <;> simp [leave, Descriptor.name]

theorem nodup_leave_plan {d : Descriptor} (hplan : s.plan.Nodup) (hd : d.name ∉ s.plan) :
    (s.leave d rest).plan.Nodup := by
  cases d with
  | project p =>
      refine List.nodup_append.2 ⟨hplan, by simp, fun n hn m hm => ?_⟩
      rw [List.mem_singleton.1 hm]
      exact ne_of_mem_of_not_mem hn hd
  | composite c => exact hplan

/-- Leaving the innermost frame resolves its name, which is taken off the stack, and plans it if it
is that of a project. -/
theorem Agree.leave (hs : s.Agree r) (hf : s.frames = f :: rest) :
    (s.leave f.descriptor rest).Agree r := by
  have hstack := stack_eq_append hs hf
  have hdeclared := hs.declared
  have hnodup := hs.nodup_stack
  have hrequires := hs.requires_next
  rw [hf, List.forall_mem_cons] at hdeclared
  rw [hstack, List.nodup_append] at hnodup
  rw [hstack, List.isChain_append] at hrequires
  have hdrop : s.stack.dropLast = (rest.map Frame.name).reverse := by
    rw [hstack, List.dropLast_concat]
  have hname : ∀ n ∈ (rest.map Frame.name).reverse, n ≠ f.name := fun n hn =>
    hnodup.2.2 n hn _ List.mem_cons_self
  have hresolved : f.name ∉ s.resolved := hs.not_resolved _ (by simp [hstack])
  constructor
  · rw [leave_frames]
    exact hdeclared.2
  · rw [leave_stack, leave_frames, hdrop]
  · rw [leave_stack, hdrop]
    exact hnodup.1
  · intro n
    rw [leave_onStack, leave_stack, Std.TreeSet.mem_erase, hs.mem_onStack, ne_eq,
      Std.compare_eq_iff_eq, hdrop, hstack, List.mem_append, List.mem_singleton]
    constructor
    · rintro ⟨hne, hn | rfl⟩
      · exact hn
      · exact absurd rfl hne
    · intro hn
      exact ⟨(hname n hn).symm, .inl hn⟩
  · rw [leave_stack, hdrop]
    exact hrequires.1
  · intro n hn
    rw [leave_stack, hdrop] at hn
    rw [mem_leave_resolved, not_or]
    exact ⟨hname n hn, hs.not_resolved n (by rw [hstack]; exact List.mem_append_left _ hn)⟩
  · exact nodup_leave_plan hs.nodup_plan fun hplan => hresolved ((hs.mem_plan _).1 hplan).1
  · intro n
    rw [mem_leave_plan, mem_leave_resolved, hs.mem_plan, or_and_right]
    refine or_congr_left (and_congr_right fun hn => ?_)
    have hd : r.get? f.descriptor.name = some f.descriptor := hdeclared.1
    simp only [hn, hd, Option.some.injEq]
  · intro n
    rw [mem_leave_dependencies, mem_leave_plan, hs.mem_dependencies]

theorem Consistent.leave (hs : s.Consistent r) (hf : s.frames = f :: rest) :
    (s.leave f.descriptor rest).Consistent r := by
  refine ⟨hs.toAgree.leave hf, ?_⟩
  have hconsumed := hs.consumed
  rw [hf] at hconsumed
  have hrest : Consumed (s.leave f.descriptor rest).resolved (some f.name) rest :=
    hconsumed.2.mono fun n hn => mem_leave_resolved.2 (.inr hn)
  rw [leave_frames]
  exact hrest.of_mem (mem_leave_resolved.2 (.inl rfl))

/-! ### Moves -/

theorem Consistent.visit (hs : s.Consistent r) (hf : s.frames = [])
    (h : s.enter r n none = .ok s') : s'.Consistent r := by
  refine hs.toAgree.enter ?_ ?_ h
  · rw [hf]
    trivial
  · rw [hs.stack_eq, hf]
    simp

/-- An iteration keeps the records consistent: a requirement that is taken is in hand until it
turns out to be resolved or is pushed on the stack, and a frame that has taken all of its own is
left. -/
theorem Consistent.advance (hs : s.Consistent r) (hf : s.frames = f :: rest)
    (h : s.advance r f rest = .ok s') : s'.Consistent r := by
  unfold Resolver.advance at h
  split at h
  next hpending =>
    cases h
    exact hs.leave hf
  next n ns hpending =>
    have hconsumed := hs.consumed
    rw [hf] at hconsumed
    refine (hs.toAgree.withPending hf ns).enter (hconsumed.take hpending) (fun m hm => ?_) h
    have hlast : (s.withPending f rest ns).stack.getLast? = some f.name := by
      rw [Resolver.withPending, stack_eq_append hs.toAgree hf, List.getLast?_concat]
    obtain rfl : f.name = m := Option.some.inj (hlast.symm.trans hm)
    obtain ⟨⟨taken, hsplit, -⟩, -⟩ := hconsumed
    refine ⟨f.descriptor, hs.declared f (by simp [hf]), ?_⟩
    rw [hsplit, hpending]
    simp

variable {roots : List TargetName} {m : Moment Resolver} {past : List (Moment Resolver)}

/-- The records are consistent at every moment of a resolution. -/
theorem consistent_of_course (h : (search r).Course ⟨.start, roots⟩ m past) :
    m.state.Consistent r := by
  induction h with
  | start => exact consistent_start r
  | move _ hnext ih =>
      rcases Search.next?_eq_ok hnext with ⟨f, rest, hf, hadvance, -⟩ | ⟨n, hf, -, hvisit⟩
      · exact ih.advance hf hadvance
      · exact ih.visit hf hvisit

/-! ### The ways out that are not taken -/

/-- A name on the stack has a place there. -/
theorem Agree.exists_idxOf? (hs : s.Agree r) (hn : n ∈ s.onStack) :
    ∃ i, s.stack.idxOf? n = some i := by
  rw [← Option.isSome_iff_exists, List.isSome_idxOf?]
  exact (hs.mem_onStack n).1 hn

/-- A frame with nothing left to take has all its requirements resolved. -/
theorem Consistent.resolved_of_pending_nil (hs : s.Consistent r) (hf : s.frames = f :: rest)
    (hpending : f.pending = []) : ∀ n ∈ f.descriptor.requirements, n ∈ s.resolved := by
  have hconsumed := hs.consumed
  rw [hf] at hconsumed
  obtain ⟨⟨taken, hsplit, htaken⟩, -⟩ := hconsumed
  intro n hn
  rw [hsplit, hpending, List.append_nil] at hn
  exact (htaken n hn).resolve_right (by simp)

end Resolver

end BuildPlan
