import Mathlib.Logic.Relation
import BuildPlan.Registry

/-! # The requirement relation of a registry

`Registry.Requires` says that a declared target lists another name, and `Registry.Reachable`
that a chain of requirements leads from one of several roots to a name.  Chains are those of
`Relation.ReflTransGen` (any length) and `Relation.TransGen` (at least one requirement), so a
target that requires itself, directly or not, is one with `Relation.TransGen r.Requires n n`.

Recursions along requirements end because `Registry.outside`, the number of declared names off
the path from the root, shrinks with every declared name that the path takes in
(`Registry.outside_cons_lt`). -/

namespace BuildPlan.Registry

open Relation (ReflTransGen TransGen)

variable {r : Registry}

/-- The target `m` lists `n` among its requirements. -/
def Requires (r : Registry) (m n : TargetName) : Prop :=
  ∃ d, r.get? m = some d ∧ n ∈ d.requirements

instance (m n : TargetName) : Decidable (r.Requires m n) :=
  decidable_of_iff (((r.get? m).any fun d => decide (n ∈ d.requirements)) = true) (by
    simp [Requires, Option.any_eq_true])

/-- A chain of requirements leads from one of `roots` to `n`. -/
def Reachable (r : Registry) (roots : List TargetName) (n : TargetName) : Prop :=
  ∃ m ∈ roots, ReflTransGen r.Requires m n

theorem mem_names_iff {n : TargetName} : n ∈ r.names ↔ ∃ d, r.get? n = some d := by
  constructor
  · intro h
    cases hn : r.get? n with
    | none => exact absurd h (get?_eq_none_iff.1 hn)
    | some d => exact ⟨d, rfl⟩
  · rintro ⟨d, hd⟩
    obtain ⟨hmem, rfl⟩ := get?_eq_some_iff.1 hd
    exact List.mem_map_of_mem hmem

theorem mem_names_of_requires {m n : TargetName} (h : r.Requires m n) : m ∈ r.names := by
  obtain ⟨d, hd, _⟩ := h
  exact mem_names_iff.2 ⟨d, hd⟩

theorem name_of_get? {n : TargetName} {d : Descriptor} (h : r.get? n = some d) : d.name = n :=
  (get?_eq_some_iff.1 h).2

theorem Reachable.of_mem {roots : List TargetName} {n : TargetName} (h : n ∈ roots) :
    r.Reachable roots n :=
  ⟨n, h, .refl⟩

theorem Reachable.mono {roots roots' : List TargetName} {n : TargetName}
    (h : r.Reachable roots n) (hsub : roots ⊆ roots') : r.Reachable roots' n := by
  obtain ⟨m, hm, hmn⟩ := h
  exact ⟨m, hsub hm, hmn⟩

theorem Reachable.tail {roots : List TargetName} {m n : TargetName} (h : r.Reachable roots m)
    (hmn : r.Requires m n) : r.Reachable roots n := by
  obtain ⟨k, hk, hkm⟩ := h
  exact ⟨k, hk, hkm.tail hmn⟩

/-- What the requirements of a name lead to, the name leads to. -/
theorem Reachable.of_requirements {roots : List TargetName} {m n : TargetName} {d : Descriptor}
    (hm : m ∈ roots) (hd : r.get? m = some d) (h : r.Reachable d.requirements n) :
    r.Reachable roots n := by
  obtain ⟨k, hk, hkn⟩ := h
  exact ⟨m, hm, hkn.head ⟨d, hd, hk⟩⟩

/-- Names that hold the roots and all that they require hold everything in reach. -/
theorem Reachable.mem_of_closed {roots s : List TargetName} {n : TargetName}
    (h : r.Reachable roots n) (hroots : roots ⊆ s)
    (hs : ∀ m ∈ s, ∀ d ∈ r.get? m, d.requirements ⊆ s) : n ∈ s := by
  obtain ⟨m, hm, hmn⟩ := h
  induction hmn with
  | refl => exact hroots hm
  | tail _ hstep ih =>
      obtain ⟨d, hd, hn⟩ := hstep
      exact hs _ ih d hd hn

/-! ### Declared names off a path -/

/-- The number of declared names that are not on a path. -/
def outside (r : Registry) (path : List TargetName) : Nat :=
  (r.names.filter fun n => decide (n ∉ path)).length

theorem outside_cons_lt {path : List TargetName} {n : TargetName} {d : Descriptor}
    (hn : r.get? n = some d) (hp : n ∉ path) : r.outside (n :: path) < r.outside path := by
  have hmem : n ∈ r.names := mem_names_iff.2 ⟨d, hn⟩
  have hsub : (r.names.filter fun m => decide (m ∉ n :: path)) =
      (r.names.filter fun m => decide (m ∉ path)).filter fun m => decide (m ≠ n) := by
    rw [List.filter_filter]
    congr 1
    funext m
    simp [List.mem_cons, not_or]
  unfold outside
  rw [hsub]
  refine List.length_filter_lt_length_iff_exists.2 ⟨n, ?_, by simp⟩
  rw [List.mem_filter]
  exact ⟨hmem, by simpa using hp⟩

/-! ### A workspace -/

/-- A small registry in which every declaration precedes what it requires, groups overlap and
`core` is required along several chains. -/
def workspace : Registry :=
  let declarations : Except PlanError Registry := do
    let r ← Registry.empty.compose ⟨"all"⟩ [⟨"app"⟩, ⟨"tool"⟩]
    let r ← r.register (.project ((Project.leaf ⟨"app"⟩).withRequires [⟨"net"⟩, ⟨"libs"⟩]))
    let r ← r.register (.project ((Project.leaf ⟨"tool"⟩).withRequires [⟨"base"⟩]))
    let r ← r.compose ⟨"libs"⟩ [⟨"util"⟩, ⟨"base"⟩, ⟨"net"⟩]
    let r ← r.compose ⟨"base"⟩ [⟨"core"⟩, ⟨"util"⟩]
    let r ← r.register (.project ((Project.leaf ⟨"net"⟩).withRequires [⟨"core"⟩]))
    let r ← r.register (.project (.leaf ⟨"util"⟩))
    r.register (.project (.leaf ⟨"core"⟩))
  declarations.toOption.getD .empty

end BuildPlan.Registry
