import Mathlib.Logic.Function.Basic
import BuildPlan.Proofs.Resolve.Dependence

/-! # Parallel drivers

A driver starts and finishes the targets of a plan, any number of them at a time, and starts a
target only when all its dependencies have finished (`Driver.MayStart`).  The dependencies that a
plan lists are direct, with composites flattened.  They are enough all the same: the closure of
the listed dependencies is the closure of requirements between projects
(`transGen_dependsOn_iff`), so whatever a started target requires has finished.  No driver gets
stuck either, since a plan is ordered: the first target that has not finished may start once
nothing is running.  The main statement is `driver_sound`. -/

namespace BuildPlan

open Relation (TransGen)

namespace Driver

/-- How far a driver has come with a target. -/
inductive Phase where
  | waiting
  | running
  | finished
deriving DecidableEq, Repr

/-- What a driver does with a target. -/
inductive Action where
  | start (n : TargetName)
  | finish (n : TargetName)
deriving DecidableEq, Repr

/-- The phase of every target. -/
abbrev State := TargetName → Phase

/-- The state in which nothing has started. -/
def idle : State := fun _ => .waiting

/-- A target of the plan may start when all its dependencies have finished. -/
structure MayStart (p : Plan) (s : State) (n : TargetName) : Prop where
  mem_targets : n ∈ p.targets
  waiting : s n = .waiting
  finished : ∀ d ∈ p.dependencies n, s d = .finished

instance (p : Plan) (s : State) (n : TargetName) : Decidable (MayStart p s n) :=
  decidable_of_iff (n ∈ p.targets ∧ s n = .waiting ∧ ∀ d ∈ p.dependencies n, s d = .finished)
    ⟨fun ⟨hn, hw, hd⟩ => ⟨hn, hw, hd⟩, fun h => ⟨h.mem_targets, h.waiting, h.finished⟩⟩

/-- One action: a target that may start is started, or a running one finishes. -/
inductive Moves (p : Plan) (s : State) : Action → State → Prop
  | start {n : TargetName} : MayStart p s n →
      Moves p s (.start n) (Function.update s n .running)
  | finish {n : TargetName} : s n = .running →
      Moves p s (.finish n) (Function.update s n .finished)

/-- The actions of a run, newest first, lead to a state. -/
inductive Reaches (p : Plan) : List Action → State → Prop
  | idle : Reaches p [] idle
  | move {past : List Action} {s t : State} {a : Action} :
      Reaches p past s → Moves p s a t → Reaches p (a :: past) t

variable {p : Plan} {s t : State} {a : Action} {m n : TargetName} {past : List Action}

/-- What an action does to the phase of a target. -/
theorem Moves.phase (h : Moves p s a t) (n : TargetName) :
    t n = s n ∨ (MayStart p s n ∧ t n = .running) ∨
      (s n = .running ∧ t n = .finished ∧ a = .finish n) := by
  cases h with
  | @start k hk =>
      by_cases hne : n = k
      · subst hne
        exact .inr (.inl ⟨hk, Function.update_self ..⟩)
      · exact .inl (Function.update_of_ne hne ..)
  | @finish k hk =>
      by_cases hne : n = k
      · subst hne
        exact .inr (.inr ⟨hk, Function.update_self .., rfl⟩)
      · exact .inl (Function.update_of_ne hne ..)

theorem Moves.finished_of_finished (h : Moves p s a t) (hn : s n = .finished) :
    t n = .finished := by
  rcases h.phase n with hsame | ⟨hmay, -⟩ | ⟨-, hfinished, -⟩
  · rw [hsame, hn]
  · have hwaiting := hmay.waiting
    rw [hn] at hwaiting
    cases hwaiting
  · exact hfinished

/-! ### What holds in every run -/

/-- The dependencies of all that has started have finished. -/
def Settled (p : Plan) (s : State) : Prop :=
  ∀ n, s n ≠ .waiting → ∀ d ∈ p.dependencies n, s d = .finished

theorem Settled.move (hs : Settled p s) (h : Moves p s a t) : Settled p t := by
  intro n hn d hd
  refine h.finished_of_finished ?_
  rcases h.phase n with hsame | ⟨hmay, -⟩ | ⟨hrunning, -, -⟩
  · exact hs n (hsame ▸ hn) d hd
  · exact hmay.finished d hd
  · exact hs n (by simp [hrunning]) d hd

theorem Reaches.settled (h : Reaches p past s) : Settled p s := by
  induction h with
  | idle => exact fun n hn => absurd rfl hn
  | move _ hmove ih => exact ih.move hmove

theorem Reaches.mem_of_finished (h : Reaches p past s) (hn : s n = .finished) :
    .finish n ∈ past := by
  induction h with
  | idle => cases hn
  | move _ hmove ih =>
      rcases hmove.phase n with hsame | ⟨-, hrunning⟩ | ⟨-, -, rfl⟩
      · exact List.mem_cons_of_mem _ (ih (hsame ▸ hn))
      · rw [hn] at hrunning
        cases hrunning
      · exact List.mem_cons_self

/-- A run starts with shorter runs. -/
theorem Reaches.of_append {later : List Action} (h : Reaches p (later ++ past) s) :
    ∃ t, Reaches p past t := by
  induction later generalizing s with
  | nil => exact ⟨s, h⟩
  | cons a later ih =>
      cases h with
      | move h _ => exact ih h

/-- In a settled state whatever dependencies lead to from a target that may start has finished. -/
theorem Settled.finished_of_transGen (hs : Settled p s) (hm : MayStart p s m)
    (hmn : TransGen p.DependsOn m n) : s n = .finished := by
  induction hmn with
  | single h => exact hm.finished _ h
  | tail _ h ih => exact hs _ (by rw [ih]; simp) _ h

/-- The first unfinished target may start when nothing is running. -/
theorem exists_mayStart (hp : p.Ordered) (hn : n ∈ p.targets) (hunfinished : s n ≠ .finished)
    (hrunning : ∀ m ∈ p.targets, s m ≠ .running) : ∃ m, MayStart p s m := by
  cases hfind : p.targets.find? fun m => s m ≠ .finished with
  | none =>
      have := List.find?_eq_none.1 hfind n hn
      simp [hunfinished] at this
  | some m =>
      obtain ⟨hm, before, after, hsplit, hbefore⟩ := List.find?_eq_some_iff_append.1 hfind
      have htarget : m ∈ p.targets := List.mem_of_find?_eq_some hfind
      have hwaiting : s m = .waiting := by
        have := hrunning m htarget
        cases hphase : s m <;> simp_all
      refine ⟨m, htarget, hwaiting, fun d hd => ?_⟩
      simpa using hbefore d (hp before m after hsplit d hd)

end Driver

open Driver in
/-- In every run of a parallel driver on a resolved plan, whatever project a target requires,
directly or not, has finished before the target starts.  Whenever a target is unfinished and
nothing is running, some target may start. -/
theorem driver_sound {r : Registry} {roots : List TargetName} {p : Plan} {past : List Action}
    {s : State} (hp : resolve r roots = .ok p) (hrun : Reaches p past s) :
    (∀ later n earlier, past = later ++ .start n :: earlier →
      ∀ m q, TransGen r.Requires n m → r.get? m = some (.project q) → .finish m ∈ earlier) ∧
    ((∃ n ∈ p.targets, s n ≠ .finished) → (∀ n ∈ p.targets, s n ≠ .running) →
      ∃ n, MayStart p s n) := by
  constructor
  · rintro later n earlier rfl m q hnm hm
    obtain ⟨t, ht⟩ := hrun.of_append
    cases ht with
    | move hbefore hmove =>
        cases hmove with
        | start hmay =>
            have hdeps := (transGen_dependsOn_iff hp hmay.mem_targets).2 ⟨hnm, q, hm⟩
            exact hbefore.mem_of_finished (hbefore.settled.finished_of_transGen hmay hdeps)
  · rintro ⟨n, hn, hunfinished⟩ hrunning
    exact exists_mayStart (ordered_of_resolve hp) hn hunfinished hrunning

open Driver in
/-- Two targets run at the same time, and `net` starts while `util` is still running.  At the end
only `app` is left. -/
theorem driver_sound_workspace :
    ∃ p s, resolve Registry.workspace [⟨"app"⟩] = .ok p ∧
      Reaches p [.finish ⟨"net"⟩, .finish ⟨"util"⟩, .start ⟨"net"⟩, .finish ⟨"core"⟩,
        .start ⟨"util"⟩, .start ⟨"core"⟩] s ∧
      Action.finish ⟨"core"⟩ ∈ [.finish ⟨"core"⟩, .start ⟨"util"⟩, .start ⟨"core"⟩] ∧
      ∃ n, MayStart p s n := by
  let p := (resolve Registry.workspace [⟨"app"⟩]).toOption.getD .empty
  have hp : resolve Registry.workspace [⟨"app"⟩] = .ok p := by decide +kernel
  have hrun := Reaches.idle (p := p)
    |>.move (.start (n := ⟨"core"⟩) (by decide +kernel))
    |>.move (.start (n := ⟨"util"⟩) (by decide +kernel))
    |>.move (.finish (n := ⟨"core"⟩) (by decide +kernel))
    |>.move (.start (n := ⟨"net"⟩) (by decide +kernel))
    |>.move (.finish (n := ⟨"util"⟩) (by decide +kernel))
    |>.move (.finish (n := ⟨"net"⟩) (by decide +kernel))
  obtain ⟨hsafe, hprogress⟩ := driver_sound hp hrun
  refine ⟨p, _, hp, hrun, ?_, hprogress ⟨⟨"app"⟩, by decide +kernel, by decide +kernel⟩ ?_⟩
  · have hrequires : Registry.workspace.Requires ⟨"net"⟩ ⟨"core"⟩ := by decide +kernel
    have hproject : Registry.workspace.get? ⟨"core"⟩ = some (.project (.leaf ⟨"core"⟩)) := by
      decide +kernel
    exact hsafe [.finish ⟨"net"⟩, .finish ⟨"util"⟩] ⟨"net"⟩ _ rfl _ _ (.single hrequires) hproject
  · decide +kernel

end BuildPlan
