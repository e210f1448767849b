import Mathlib.Data.List.Chain
import Mathlib.Data.List.Nodup
import BuildPlan.Proofs.Resolve.Refinement

/-! # Why there is no plan

An error of `resolve` tells a fault that is there, in reach of the roots: names that require one
another in a circle (`Registry.IsCycle`), or a name that a root or a declared target asks for and
that no one declared (`Registry.Explains`).  The main statement is `explains_of_resolve_error`.

The names on the path of an expansion are a chain of requirements from a root to whatever is
expanded next (`Registry.IsPath`), so a name that is met on the path again closes a cycle.  As
faults of this kind are in no resolved name, an expansion succeeds exactly when everything in
reach is declared and free of cycles (`Registry.exists_postorder_iff`). -/

namespace BuildPlan

namespace Registry

open Relation (TransGen)

/-! ### What an error says -/

/-- Names that require one another in a circle; the last is the first again. -/
structure IsCycle (r : Registry) (cycle : List TargetName) : Prop where
  two_le_length : 2 ≤ cycle.length
  head_eq_last : cycle.head? = cycle.getLast?
  nodup : cycle.dropLast.Nodup
  declared : ∀ n ∈ cycle, n ∈ r.names
  requires : cycle.IsChain r.Requires

/-- What an error says of a registry and of roots that have no plan in it. -/
def Explains (r : Registry) (roots : List TargetName) : PlanError → Prop
  | .cyclicDependency cycle => r.IsCycle cycle ∧ ∃ n ∈ cycle.head?, r.Reachable roots n
  | .unknownTarget n (some m) =>
      n ∉ r.names ∧ m ∈ r.names ∧ r.Reachable roots m ∧ r.Requires m n
  | .unknownTarget n none => n ∈ roots ∧ n ∉ r.names
  | .duplicateTarget _ => False
  | .emptyComposite _ => False

variable {r : Registry} {roots path : List TargetName} {n : TargetName}

/-- The first name of a cycle requires itself. -/
theorem IsCycle.transGen {cycle : List TargetName} (h : r.IsCycle cycle) (hn : n ∈ cycle.head?) :
    TransGen r.Requires n n := by
  obtain ⟨hlength, hends, -, -, hchain⟩ := h
  match cycle with
  | m :: k :: rest =>
      obtain rfl : m = n := Option.some.inj hn
      obtain ⟨hmk, hchain⟩ := List.isChain_cons_cons.1 hchain
      have hlast : (k :: rest).getLast (List.cons_ne_nil k rest) = m := by
        rw [List.head?_cons, List.getLast?_cons_cons,
          List.getLast?_eq_some_getLast (List.cons_ne_nil k rest)] at hends
        exact (Option.some.inj hends).symm
      exact .head' hmk (List.relationReflTransGen_of_exists_isChain_cons rest hchain hlast)

/-- An explained error comes from a name in reach that is not declared or requires itself. -/
theorem Explains.exists_bad {e : PlanError} (h : r.Explains roots e) :
    ∃ n, r.Reachable roots n ∧ (n ∉ r.names ∨ TransGen r.Requires n n) := by
  match e with
  | .cyclicDependency cycle =>
      obtain ⟨hcycle, n, hn, hreach⟩ := h
      exact ⟨n, hreach, .inr (hcycle.transGen hn)⟩
  | .unknownTarget n (some m) =>
      obtain ⟨hnot, -, hreach, hmn⟩ := h
      exact ⟨n, hreach.tail hmn, .inl hnot⟩
  | .unknownTarget n none =>
      obtain ⟨hroot, hnot⟩ := h
      exact ⟨n, .of_mem hroot, .inl hnot⟩

/-! ### The path of an expansion -/

/-- The names that are being expanded, innermost first. -/
structure IsPath (r : Registry) (roots path : List TargetName) : Prop where
  nodup : path.Nodup
  declared : ∀ a ∈ path, a ∈ r.names
  reachable : ∀ a ∈ path, r.Reachable roots a
  requires : path.IsChain fun a b => r.Requires b a

/-- A name is listed by the innermost name of a path or, on the empty path, as a root. -/
def Lists (r : Registry) (roots : List TargetName) : Option TargetName → TargetName → Prop
  | none, n => n ∈ roots
  | some m, n => r.Requires m n

theorem isPath_nil : r.IsPath roots [] := by
  constructor <;> simp

theorem IsPath.reachable_of_lists (hpath : r.IsPath roots path)
    (hn : r.Lists roots path.head? n) : r.Reachable roots n := by
  cases path with
  | nil => exact .of_mem hn
  | cons m path => exact (hpath.reachable m List.mem_cons_self).tail hn

theorem IsPath.cons (hpath : r.IsPath roots path) (hn : r.Lists roots path.head? n)
    (hnot : n ∉ path) {d : Descriptor} (hd : r.get? n = some d) : r.IsPath roots (n :: path) := by
  have hdeclared : n ∈ r.names := mem_names_iff.2 ⟨d, hd⟩
  refine ⟨List.nodup_cons.2 ⟨hnot, hpath.nodup⟩,
    List.forall_mem_cons.2 ⟨hdeclared, hpath.declared⟩,
    List.forall_mem_cons.2 ⟨hpath.reachable_of_lists hn, hpath.reachable⟩,
    List.isChain_cons.2 ⟨fun m hm => ?_, hpath.requires⟩⟩
  rw [Option.mem_def.1 hm] at hn
  exact hn

/-- The cycle that closes at a name on the path. -/
theorem IsPath.exists_split (hpath : r.IsPath roots path) (hmem : n ∈ path) :
    ∃ inner outer, path = inner ++ n :: outer ∧ n ∉ inner ∧ inner.Nodup ∧
      cycleAt path n = n :: inner.reverse ++ [n] := by
  obtain ⟨inner, outer, rfl⟩ := List.append_of_mem hmem
  obtain ⟨hinner, houter, hdisjoint⟩ := List.nodup_append.1 hpath.nodup
  exact ⟨inner, outer, rfl, fun h => hdisjoint n h n List.mem_cons_self rfl, hinner,
    cycleAt_append (List.nodup_cons.1 houter).1⟩

theorem IsPath.isChain_cycleAt (hpath : r.IsPath roots path) (hn : r.Lists roots path.head? n)
    (hmem : n ∈ path) : (cycleAt path n).IsChain r.Requires := by
  obtain ⟨inner, outer, rfl, -, -, hcycle⟩ := hpath.exists_split hmem
  have hinner : (inner ++ [n]).IsChain fun a b => r.Requires b a :=
    hpath.requires.prefix (by simp)
  have hchain : (n :: inner.reverse).IsChain r.Requires := by
    rw [← List.isChain_reverse, List.reverse_concat] at hinner
    exact hinner
  rw [hcycle]
  -- The innermost name of the path requires `n`, which closes the circle.
  refine List.isChain_append.2 ⟨hchain, List.isChain_singleton n, fun m hm k hk => ?_⟩
  have hhead : (inner ++ n :: outer).head? = some m := by
    rw [← List.reverse_concat, List.getLast?_reverse] at hm
    cases inner <;> simpa using hm
  obtain rfl : n = k := by simpa using hk
  rw [hhead] at hn
  exact hn

/-- A listed name that is on the path closes a cycle. -/
theorem IsPath.isCycle (hpath : r.IsPath roots path) (hn : r.Lists roots path.head? n)
    (hmem : n ∈ path) : r.IsCycle (cycleAt path n) := by
  have hchain := hpath.isChain_cycleAt hn hmem
  obtain ⟨inner, outer, rfl, hninner, hinner, hcycle⟩ := hpath.exists_split hmem
  rw [hcycle] at hchain ⊢
  refine ⟨by simp, ?_, ?_, fun m hm => hpath.declared m ?_, hchain⟩
  · rw [List.getLast?_concat]
    rfl
  · rw [List.dropLast_concat, List.nodup_cons, List.mem_reverse, List.nodup_reverse]
    exact ⟨hninner, hinner⟩
  · simp only [List.mem_append, List.mem_cons, List.mem_reverse] at hm ⊢
    tauto

theorem IsPath.explains_cycle (hpath : r.IsPath roots path) (hn : r.Lists roots path.head? n)
    (hmem : n ∈ path) : r.Explains roots (.cyclicDependency (cycleAt path n)) := by
  refine ⟨hpath.isCycle hn hmem, n, ?_, hpath.reachable n hmem⟩
  obtain ⟨inner, outer, -, -, -, hcycle⟩ := hpath.exists_split hmem
  rw [hcycle]
  rfl

theorem IsPath.explains_unknown (hpath : r.IsPath roots path) (hn : r.Lists roots path.head? n)
    (hd : r.get? n = none) : r.Explains roots (.unknownTarget n path.head?) := by
  have hnot : n ∉ r.names := get?_eq_none_iff.1 hd
  cases path with
  | nil => exact ⟨hn, hnot⟩
  | cons m path =>
      exact ⟨hnot, hpath.declared m List.mem_cons_self,
        hpath.reachable m List.mem_cons_self, hn⟩

/-! ### Expansions that fail -/

theorem IsPath.explains_of_postorder_error {ns resolved : List TargetName} {e : PlanError}
    (hpath : r.IsPath roots path) (hns : ∀ n ∈ ns, r.Lists roots path.head? n)
    (h : r.postorder path ns resolved = .error e) : r.Explains roots e := by
  fun_induction Registry.postorder r path ns resolved generalizing e with
  | case1 => cases h
  | case2 path n ns resolved hmem ih => exact ih hpath (List.forall_mem_cons.1 hns).2 h
  | case3 path n ns resolved hmem hp =>
      cases h
      exact hpath.explains_cycle (hns n List.mem_cons_self) hp
  | case4 path n ns resolved hmem hp hd =>
      cases h
      exact hpath.explains_unknown (hns n List.mem_cons_self) hd
  | case5 path n ns resolved hmem hp d hd e' he ih =>
      cases h
      -- The requirements of `n` are expanded on the path that `n` heads.
      have hcons := hpath.cons (hns n List.mem_cons_self) hp hd
      exact ih hcons (fun m hm => ⟨d, hd, hm⟩) he
  | case6 path n ns resolved hmem hp d hd between hbetween ih1 ih2 =>
      exact ih2 hpath (List.forall_mem_cons.1 hns).2 h

theorem explains_of_postorder_error {e : PlanError} (h : r.postorder [] roots [] = .error e) :
    r.Explains roots e :=
  isPath_nil.explains_of_postorder_error (fun _ hn => hn) h

theorem exists_postorder_iff :
    (∃ resolved, r.postorder [] roots [] = .ok resolved) ↔
      ∀ n, r.Reachable roots n → n ∈ r.names ∧ ¬ TransGen r.Requires n n := by
  constructor
  · rintro ⟨resolved, h⟩ n hn
    have hpost := postordered_of_postorder h
    have hmem : n ∈ resolved := (mem_postorder_iff h).2 hn
    exact ⟨mem_names_iff.2 (hpost.declared hmem), hpost.not_requires_self hmem⟩
  · intro hgood
    cases h : r.postorder [] roots [] with
    | ok resolved => exact ⟨resolved, rfl⟩
    | error e =>
        obtain ⟨n, hn, hbad⟩ := (explains_of_postorder_error h).exists_bad
        obtain ⟨hdeclared, hacyclic⟩ := hgood n hn
        rcases hbad with hbad | hbad
        · exact absurd hdeclared hbad
        · exact absurd hbad hacyclic

end Registry

variable {r : Registry} {roots : List TargetName} {e : PlanError}

/-- An error of resolution is true: its cycle is a cycle of declared names that a root leads to,
its unknown name is not declared and is a root or is required by the declared target that the
error names, which a root leads to.  No other error is met. -/
theorem explains_of_resolve_error (h : resolve r roots = .error e) : r.Explains roots e :=
  Registry.explains_of_postorder_error (resolve_eq_error_iff.1 h)

/-- A registry in which a composite lists a plugin that requires the composite again, and another
plugin requires a name that is not declared. -/
def Registry.tangled : Registry :=
  let declarations : Except PlanError Registry := do
    let r ← Registry.empty.register (.project ((Project.leaf ⟨"app"⟩).withRequires [⟨"plugins"⟩]))
    let r ← r.compose ⟨"plugins"⟩ [⟨"core"⟩, ⟨"shell"⟩]
    let r ← r.register (.project (.leaf ⟨"core"⟩))
    let r ← r.register (.project ((Project.leaf ⟨"shell"⟩).withRequires [⟨"core"⟩, ⟨"plugins"⟩]))
    r.register (.project ((Project.leaf ⟨"tools"⟩).withRequires [⟨"ghost"⟩]))
  declarations.toOption.getD .empty

theorem explains_of_resolve_error_tangled :
    resolve Registry.tangled [⟨"app"⟩] =
        .error (.cyclicDependency [⟨"plugins"⟩, ⟨"shell"⟩, ⟨"plugins"⟩]) ∧
      Registry.tangled.IsCycle [⟨"plugins"⟩, ⟨"shell"⟩, ⟨"plugins"⟩] ∧
      Registry.tangled.Reachable [⟨"app"⟩] ⟨"plugins"⟩ ∧
      resolve Registry.tangled [⟨"core"⟩, ⟨"tools"⟩] =
        .error (.unknownTarget ⟨"ghost"⟩ (some ⟨"tools"⟩)) ∧
      Registry.tangled.Requires ⟨"tools"⟩ ⟨"ghost"⟩ := by
  have hcycle : resolve Registry.tangled [⟨"app"⟩] =
      .error (.cyclicDependency [⟨"plugins"⟩, ⟨"shell"⟩, ⟨"plugins"⟩]) := by decide +kernel
  have hunknown : resolve Registry.tangled [⟨"core"⟩, ⟨"tools"⟩] =
      .error (.unknownTarget ⟨"ghost"⟩ (some ⟨"tools"⟩)) := by decide +kernel
  obtain ⟨hcircle, n, hn, hreachable⟩ := explains_of_resolve_error hcycle
  obtain ⟨-, -, -, hrequires⟩ := explains_of_resolve_error hunknown
  obtain rfl : ⟨"plugins"⟩ = n := Option.some.inj hn
  exact ⟨hcycle, hcircle, hreachable, hunknown, hrequires⟩

end BuildPlan
