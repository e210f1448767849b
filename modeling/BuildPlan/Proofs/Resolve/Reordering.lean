import BuildPlan.Proofs.Registry
import BuildPlan.Proofs.Resolve.Locality
import BuildPlan.Proofs.Resolve.TopLevel

/-! # Declarations in another order

Declarations are all accepted by a registry exactly if each of them has a descriptor, and no two
of these descriptors, those that are declared already among them, have one name and differ
(`Registry.exists_declareAll_iff`).  The registry then holds just these descriptors
(`Registry.mem_toList_of_declareAll`).  Neither depends on the order of the declarations, and
resolution looks up names only, so the order has no part in what is declared or resolved
(`Registry.declareAll_perm`). -/

namespace BuildPlan

/-- Descriptors that can stand in one registry: those with the same name are the same. -/
def Agreeing (ds : List Descriptor) : Prop := ∀ d ∈ ds, ∀ e ∈ ds, d.name = e.name → d = e

/-- Only which descriptors there are matters. -/
theorem agreeing_congr {ds es : List Descriptor} (h : ∀ d, d ∈ ds ↔ d ∈ es) :
    Agreeing ds ↔ Agreeing es := by
  unfold Agreeing
  simp only [h]

namespace Registry

variable {r r' : Registry} {c : Declaration} {cs cs' : List Declaration} {d e : Descriptor}

/-- The registry after declarations, unless one of them fails. -/
def declareAll (r : Registry) (cs : List Declaration) : Except PlanError Registry :=
  cs.foldlM Declaration.apply r

theorem agreeing_toList (r : Registry) : Agreeing r.toList := by
  intro d hd e he hname
  have hget : r.get? d.name = some d := get?_eq_some_iff.2 ⟨hd, rfl⟩
  have hget' : r.get? d.name = some e := get?_eq_some_iff.2 ⟨he, hname.symm⟩
  exact Option.some.inj (hget.symm.trans hget')

/-! ### One declaration -/

/-- An accepted declaration has a descriptor, and the registry now holds it. -/
theorem mem_toList_of_apply (h : c.apply r = .ok r') :
    ∃ d, c.descriptor = .ok d ∧ ∀ e, e ∈ r'.toList ↔ e ∈ r.toList ∨ e = d := by
  have heffect := r.effect_after c
  rw [after_of_ok h] at heffect
  cases heffect with
  | refused hrefused _ =>
      rw [h] at hrefused
      cases hrefused
  | @repeated d _ hc hd =>
      refine ⟨d, hc, fun e => ⟨.inl, ?_⟩⟩
      rintro (he | rfl)
      · exact he
      · exact hd
  | @added d _ _ hc _ hlist =>
      refine ⟨d, hc, fun e => ?_⟩
      rw [hlist, List.mem_append, List.mem_singleton]

/-- A declaration is accepted if its descriptor agrees with all that are declared. -/
theorem exists_apply_of_agreeing (hc : c.descriptor = .ok d) (h : Agreeing (d :: r.toList)) :
    ∃ r', c.apply r = .ok r' := by
  have happly : c.apply r = r.register d := by rw [c.apply_eq_bind, hc]; rfl
  rw [happly]
  cases hget : r.get? d.name with
  | none => exact ⟨_, register_of_get?_eq_none hget⟩
  | some e =>
      obtain ⟨he, hname⟩ := get?_eq_some_iff.1 hget
      have hsame : e = d := h e (List.mem_cons_of_mem d he) d List.mem_cons_self hname
      exact ⟨r, by rw [register_of_get?_eq_some hget, if_pos hsame]⟩

/-! ### All declarations -/

theorem declareAll_cons (r : Registry) (c : Declaration) (cs : List Declaration) :
    r.declareAll (c :: cs) = (c.apply r).bind fun r' => r'.declareAll cs :=
  List.foldlM_cons

theorem declareAll_cons_eq_ok_iff :
    r.declareAll (c :: cs) = .ok r' ↔ ∃ r₁, c.apply r = .ok r₁ ∧ r₁.declareAll cs = .ok r' := by
  rw [declareAll_cons]
  cases c.apply r with
  | error e => simp [Except.bind]
  | ok r₁ => simp [Except.bind]

/-- What is accepted first stands in the registry instead of in the declarations that are left. -/
theorem mem_append_descriptors_iff {r₁ : Registry} (hc : c.descriptor = .ok d)
    (hmem : ∀ e, e ∈ r₁.toList ↔ e ∈ r.toList ∨ e = d) (cs : List Declaration) (e : Descriptor) :
    e ∈ r₁.toList ++ Declaration.descriptors cs ↔
      e ∈ r.toList ++ Declaration.descriptors (c :: cs) := by
  rw [Declaration.descriptors_cons_of_ok hc, List.mem_append, List.mem_append, List.mem_cons,
    hmem e, or_assoc]

/-- A registry holds what it held before and what was declared. -/
theorem mem_toList_of_declareAll (h : r.declareAll cs = .ok r') (e : Descriptor) :
    e ∈ r'.toList ↔ e ∈ r.toList ++ Declaration.descriptors cs := by
  induction cs generalizing r with
  | nil =>
      obtain rfl : r = r' := Except.ok.inj h
      simp [Declaration.descriptors]
  | cons c cs ih =>
      obtain ⟨r₁, happly, hrest⟩ := declareAll_cons_eq_ok_iff.1 h
      obtain ⟨d, hc, hmem⟩ := mem_toList_of_apply happly
      rw [ih hrest, mem_append_descriptors_iff hc hmem]

/-- Declarations are all accepted exactly if all have descriptors, which agree with each other and
with those that are declared already. -/
theorem exists_declareAll_iff (r : Registry) (cs : List Declaration) :
    (∃ r', r.declareAll cs = .ok r') ↔
      (∀ c ∈ cs, ∃ d, c.descriptor = .ok d) ∧
        Agreeing (r.toList ++ Declaration.descriptors cs) := by
  induction cs generalizing r with
  | nil =>
      have hagree : Agreeing (r.toList ++ Declaration.descriptors []) := by
        rw [Declaration.descriptors, List.filterMap_nil, List.append_nil]
        exact agreeing_toList r
      exact ⟨fun _ => ⟨fun c hc => absurd hc List.not_mem_nil, hagree⟩, fun _ => ⟨r, rfl⟩⟩
  | cons c cs ih =>
      constructor
      · rintro ⟨r', h⟩
        obtain ⟨r₁, happly, hrest⟩ := declareAll_cons_eq_ok_iff.1 h
        obtain ⟨d, hc, hmem⟩ := mem_toList_of_apply happly
        obtain ⟨hdescribed, hagree⟩ := (ih r₁).1 ⟨r', hrest⟩
        refine ⟨?_, (agreeing_congr (mem_append_descriptors_iff hc hmem cs)).1 hagree⟩
        intro c' hc'
        rcases List.mem_cons.1 hc' with rfl | hc'
        · exact ⟨d, hc⟩
        · exact hdescribed c' hc'
      · rintro ⟨hdescribed, hagree⟩
        obtain ⟨d, hc⟩ := hdescribed c List.mem_cons_self
        have hfirst : Agreeing (d :: r.toList) := by
          have hsub : ∀ e ∈ d :: r.toList, e ∈ r.toList ++ Declaration.descriptors (c :: cs) := by
            intro e he
            rw [Declaration.descriptors_cons_of_ok hc]
            rcases List.mem_cons.1 he with rfl | he
            · simp
            · exact List.mem_append_left _ he
          exact fun e he e' he' => hagree e (hsub e he) e' (hsub e' he')
        obtain ⟨r₁, happly⟩ := exists_apply_of_agreeing hc hfirst
        obtain ⟨d', hc', hmem⟩ := mem_toList_of_apply happly
        obtain rfl : d = d' := Except.ok.inj (hc.symm.trans hc')
        have hrest : ∃ r', r₁.declareAll cs = .ok r' := by
          refine (ih r₁).2 ⟨fun c' hc' => hdescribed c' (List.mem_cons_of_mem c hc'), ?_⟩
          exact (agreeing_congr (mem_append_descriptors_iff hc hmem cs)).2 hagree
        obtain ⟨r', hrest⟩ := hrest
        exact ⟨r', declareAll_cons_eq_ok_iff.2 ⟨r₁, happly, hrest⟩⟩

/-! ### Registries with the same descriptors -/

section

variable {a b : Registry} (h : ∀ d, d ∈ a.toList ↔ d ∈ b.toList)

include h

theorem get?_eq_of_mem_iff (n : TargetName) : a.get? n = b.get? n := by
  refine Option.ext fun d => ?_
  rw [get?_eq_some_iff, get?_eq_some_iff, h d]

theorem perm_topLevel_of_mem_iff : a.topLevel.Perm b.topLevel := by
  have hget := get?_eq_of_mem_iff h
  have hnodup : ∀ r : Registry, r.topLevel.Nodup := fun r => r.nodup_names.filter _
  refine (List.perm_ext_iff_of_nodup (hnodup a) (hnodup b)).2 fun n => ?_
  simp only [mem_topLevel_iff, mem_names_iff, Requires, hget]

end

/-- Declarations in another order are all accepted if they were so before.  The registry then has
the same descriptor, or none, under every name, the same plan or error for all roots, and the same
top-level targets in some order. -/
theorem declareAll_perm (h : cs.Perm cs') (r : Registry) :
    ((∃ a, r.declareAll cs = .ok a) ↔ ∃ b, r.declareAll cs' = .ok b) ∧
      ∀ a b, r.declareAll cs = .ok a → r.declareAll cs' = .ok b →
        (∀ n, a.get? n = b.get? n) ∧ (∀ roots, resolve a roots = resolve b roots) ∧
          a.topLevel.Perm b.topLevel := by
  have hdescriptors : ∀ d, d ∈ r.toList ++ Declaration.descriptors cs ↔
      d ∈ r.toList ++ Declaration.descriptors cs' :=
    fun d => ((h.filterMap _).append_left r.toList).mem_iff
  constructor
  · rw [exists_declareAll_iff, exists_declareAll_iff, agreeing_congr hdescriptors]
    simp only [h.mem_iff]
  · intro a b ha hb
    have hmem : ∀ d, d ∈ a.toList ↔ d ∈ b.toList := by
      intro d
      rw [mem_toList_of_declareAll ha, mem_toList_of_declareAll hb, hdescriptors d]
    have hget : ∀ n, a.get? n = b.get? n := get?_eq_of_mem_iff hmem
    refine ⟨hget, fun roots => ?_, perm_topLevel_of_mem_iff hmem⟩
    have hagree : Agree a b roots := fun n _ => hget n
    exact (resolve_eq_of_expand_eq hagree.expand_eq).symm

/-- Declarations of which two repeat others, with requirements and groups listed differently. -/
def scattered : List Declaration :=
  [.compose ⟨"all"⟩ [⟨"app"⟩, ⟨"core"⟩, ⟨"app"⟩],
    .register (.project ((Project.leaf ⟨"app"⟩).withRequires [⟨"net"⟩, ⟨"core"⟩])),
    .compose ⟨"all"⟩ [⟨"app"⟩, ⟨"core"⟩, ⟨"core"⟩],
    .register (.project (.leaf ⟨"core"⟩)),
    .register (.project ((Project.leaf ⟨"app"⟩).withRequires [⟨"core"⟩, ⟨"net"⟩])),
    .register (.project (.leaf ⟨"tool"⟩))]

theorem declareAll_perm_scattered :
    ∃ a b, empty.declareAll scattered = .ok a ∧ empty.declareAll scattered.reverse = .ok b ∧
      a.names = [⟨"all"⟩, ⟨"app"⟩, ⟨"core"⟩, ⟨"tool"⟩] ∧
      b.names = [⟨"tool"⟩, ⟨"app"⟩, ⟨"core"⟩, ⟨"all"⟩] ∧
      resolve a [⟨"all"⟩] = resolve b [⟨"all"⟩] ∧ a.topLevel.Perm b.topLevel := by
  obtain ⟨hiff, hsame⟩ := declareAll_perm scattered.reverse_perm.symm empty
  have hnames : (empty.declareAll scattered).map names =
      .ok [⟨"all"⟩, ⟨"app"⟩, ⟨"core"⟩, ⟨"tool"⟩] := by decide +kernel
  have hnames' : (empty.declareAll scattered.reverse).map names =
      .ok [⟨"tool"⟩, ⟨"app"⟩, ⟨"core"⟩, ⟨"all"⟩] := by decide +kernel
  cases ha : empty.declareAll scattered with
  | error e =>
      rw [ha] at hnames
      cases hnames
  | ok a =>
      obtain ⟨b, hb⟩ := hiff.1 ⟨a, ha⟩
      obtain ⟨-, hresolve, htop⟩ := hsame a b ha hb
      rw [ha] at hnames
      rw [hb] at hnames'
      exact ⟨a, b, rfl, hb, Except.ok.inj hnames, Except.ok.inj hnames', hresolve _, htop⟩

end Registry

end BuildPlan
