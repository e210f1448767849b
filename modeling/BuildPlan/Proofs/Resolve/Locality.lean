import BuildPlan.Proofs.Resolve.Refinement

/-! # Resolution is local

Resolution looks up names in reach of the roots and no others.  Two registries that have the same
descriptor, or none, under every such name (`Registry.Agree`) therefore have the same plan or the
same error, whatever else they declare and in whichever order (`resolve_local`).

The recursion is followed in both registries at once: the names that it still has to expand keep
agreeing when it goes on to the next name (`Agree.tail`) or down to requirements
(`Agree.requirements`), and the leaves of a name that is in reach are found in reach too. -/

namespace BuildPlan

namespace Registry

/-- The registries have the same descriptor, or none, under every name that `roots` lead to in the
first one. -/
def Agree (a b : Registry) (roots : List TargetName) : Prop :=
  ∀ n, a.Reachable roots n → a.get? n = b.get? n

variable {a b : Registry} {roots ns path resolved : List TargetName} {n : TargetName}

namespace Agree

theorem get?_eq (h : Agree a b ns) (hn : n ∈ ns) : b.get? n = a.get? n :=
  (h n (.of_mem hn)).symm

theorem tail (h : Agree a b (n :: ns)) : Agree a b ns :=
  fun m hm => h m (hm.mono (List.subset_cons_self n ns))

theorem requirements {d : Descriptor} (h : Agree a b ns) (hn : n ∈ ns) (hd : a.get? n = some d) :
    Agree a b d.requirements :=
  fun m hm => h m (.of_requirements hn hd hm)

/-- Any names in reach agree with all that they lead to. -/
theorem of_reachable (h : Agree a b roots) (hns : ∀ n ∈ ns, a.Reachable roots n) :
    Agree a b ns := by
  rintro m ⟨k, hk, hkm⟩
  obtain ⟨j, hj, hjk⟩ := hns k hk
  exact h m ⟨j, hj, hjk.trans hkm⟩

/-! ### The recursion in both registries -/

theorem postorder_eq (h : Agree a b ns) :
    b.postorder path ns resolved = a.postorder path ns resolved := by
  fun_induction Registry.postorder a path ns resolved with
  | case1 => rw [postorder]
  | case2 path n ns resolved hn ih =>
      rw [postorder_of_mem hn]
      exact ih h.tail
  | case3 path n ns resolved hn hp => rw [postorder, if_neg hn, dif_pos hp]
  | case4 path n ns resolved hn hp hd =>
      have hd' : b.get? n = none := (h.get?_eq List.mem_cons_self).trans hd
      rw [postorder_of_get?_eq_none hn hp hd']
  | case5 path n ns resolved hn hp d hd e he ih =>
      have hd' : b.get? n = some d := (h.get?_eq List.mem_cons_self).trans hd
      rw [postorder_of_get? hn hp hd', ih (h.requirements List.mem_cons_self hd), he]
      rfl
  | case6 path n ns resolved hn hp d hd between hbetween ih1 ih2 =>
      have hd' : b.get? n = some d := (h.get?_eq List.mem_cons_self).trans hd
      rw [postorder_of_get? hn hp hd', ih1 (h.requirements List.mem_cons_self hd), hbetween]
      exact ih2 h.tail

theorem leavesOff_eq (h : Agree a b ns) (hn : n ∈ ns) :
    b.leavesOff path n = a.leavesOff path n := by
  fun_induction Registry.leavesOff a path n generalizing ns with
  | case1 path n hd => rw [leavesOff_of_get?_eq_none ((h.get?_eq hn).trans hd)]
  | case2 path n p hd => rw [leavesOff_project ((h.get?_eq hn).trans hd)]
  | case3 path n c hd hp => rw [leavesOff_of_mem ((h.get?_eq hn).trans hd) hp]
  | case4 path n c hd hp ih =>
      have hreq : ∀ m ∈ c.required, b.leavesOff (n :: path) m = a.leavesOff (n :: path) m :=
        fun m hm => ih m (h.requirements hn hd) hm
      rw [leavesOff_composite ((h.get?_eq hn).trans hd) hp, List.flatMap_congr hreq]

theorem leavesOf_eq (h : Agree a b ns) : b.leavesOf ns = a.leavesOf ns := by
  have hleaves : ∀ n ∈ ns, b.leaves n = a.leaves n := fun n hn => h.leavesOff_eq hn
  unfold leavesOf
  rw [List.flatMap_congr hleaves]

theorem step?_eq (h : Agree a b ns) (hn : n ∈ ns) : b.step? n = a.step? n := by
  unfold step?
  rw [h.get?_eq hn]
  cases hd : a.get? n with
  | none => rfl
  | some d =>
      have hreq : b.leavesOf d.requirements = a.leavesOf d.requirements :=
        (h.requirements hn hd).leavesOf_eq
      cases d with
      | project p => exact congrArg (fun ls => some (Step.mk n ls)) hreq
      | composite c => rfl

theorem stepsOf_eq (h : Agree a b ns) : b.stepsOf ns = a.stepsOf ns := by
  unfold stepsOf
  rw [List.filterMap_congr fun n hn => h.step?_eq hn]

/-- The steps come from resolved names, which are in reach. -/
theorem expand_eq (h : Agree a b roots) : b.expand roots = a.expand roots := by
  unfold expand
  rw [h.postorder_eq]
  cases hpost : a.postorder [] roots [] with
  | error e => rfl
  | ok resolved =>
      have hresolved : Agree a b resolved :=
        h.of_reachable fun n hn => (mem_postorder_iff hpost).1 hn
      exact congrArg Except.ok hresolved.stepsOf_eq

end Agree

theorem mem_toList_iff {r : Registry} {d : Descriptor} :
    d ∈ r.toList ↔ r.get? d.name = some d := by
  rw [get?_eq_some_iff, and_iff_left rfl]

/-- Registries agree if they declare the same targets in reach, in any order. -/
theorem agree_iff :
    Agree a b roots ↔ ∀ d, a.Reachable roots d.name → (d ∈ a.toList ↔ d ∈ b.toList) := by
  constructor
  · intro h d hd
    rw [mem_toList_iff, mem_toList_iff, h d.name hd]
  · intro h n hn
    refine Option.ext fun d => ?_
    rw [get?_eq_some_iff, get?_eq_some_iff]
    constructor
    · rintro ⟨hd, rfl⟩
      exact ⟨(h d hn).1 hd, rfl⟩
    · rintro ⟨hd, rfl⟩
      exact ⟨(h d hn).2 hd, rfl⟩

end Registry

/-- Registries that have the same descriptor, or none, under every name in reach of the roots have
the same plan, or the same error.  So it does not matter which targets out of reach are declared,
nor in which order any are. -/
theorem resolve_local {a b : Registry} {roots : List TargetName} :
    ((∀ n, a.Reachable roots n → a.get? n = b.get? n) → resolve a roots = resolve b roots) ∧
    ((∀ d, a.Reachable roots d.name → (d ∈ a.toList ↔ d ∈ b.toList)) →
      resolve a roots = resolve b roots) := by
  have hagree : Registry.Agree a b roots → resolve a roots = resolve b roots :=
    fun h => (resolve_eq_of_expand_eq h.expand_eq).symm
  exact ⟨hagree, fun h => hagree (Registry.agree_iff.2 h)⟩

/-- A registry that has `base` and what it leads to from the workspace, in another order and among
targets that require themselves or what no one declared. -/
def Registry.excerpt : Registry :=
  let declarations : Except PlanError Registry := do
    let r ← Registry.empty.register (.project (.leaf ⟨"core"⟩))
    let r ← r.register (.project ((Project.leaf ⟨"net"⟩).withRequires [⟨"ghost"⟩]))
    let r ← r.compose ⟨"all"⟩ [⟨"libs"⟩, ⟨"base"⟩]
    let r ← r.compose ⟨"libs"⟩ [⟨"all"⟩]
    let r ← r.compose ⟨"base"⟩ [⟨"core"⟩, ⟨"util"⟩]
    r.register (.project (.leaf ⟨"util"⟩))
  declarations.toOption.getD .empty

/-- Neither registry declares `ghost`, and in only one of them `all` requires itself. -/
theorem resolve_local_excerpt :
    resolve Registry.workspace [⟨"base"⟩] = resolve Registry.excerpt [⟨"base"⟩] ∧
      resolve Registry.workspace [⟨"base"⟩, ⟨"ghost"⟩] =
        resolve Registry.excerpt [⟨"base"⟩, ⟨"ghost"⟩] ∧
      resolve Registry.workspace [⟨"all"⟩] ≠ resolve Registry.excerpt [⟨"all"⟩] := by
  have hget : ∀ n ∈ [⟨"base"⟩, ⟨"core"⟩, ⟨"util"⟩, ⟨"ghost"⟩],
      Registry.workspace.get? n = Registry.excerpt.get? n := by decide +kernel
  have hclosed : ∀ m ∈ [⟨"base"⟩, ⟨"core"⟩, ⟨"util"⟩, ⟨"ghost"⟩],
      ∀ d ∈ Registry.workspace.get? m,
        d.requirements ⊆ [⟨"base"⟩, ⟨"core"⟩, ⟨"util"⟩, ⟨"ghost"⟩] := by decide +kernel
  have hbase : Registry.Agree .workspace .excerpt [⟨"base"⟩] :=
    fun n hn => hget n (hn.mem_of_closed (by decide) hclosed)
  have hghost : Registry.Agree .workspace .excerpt [⟨"base"⟩, ⟨"ghost"⟩] :=
    fun n hn => hget n (hn.mem_of_closed (by decide) hclosed)
  exact ⟨resolve_local.1 hbase, resolve_local.2 (Registry.agree_iff.1 hghost), by decide +kernel⟩

end BuildPlan
