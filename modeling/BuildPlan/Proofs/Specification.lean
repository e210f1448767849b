import BuildPlan.Proofs.Registry
import BuildPlan.Proofs.Session.Outcome
import BuildPlan.Text.Utf8.Exact

/-! # What scripts declare

A specification that a script gives is a declaration like any other (`Specification.declaration`).
Its list of names holds nothing but texts (`Specification.readEntries_eq_ok_iff`).  Its name is not
blank (`Specification.not_isBlank_of_read`), so no target with a blank name gets into the registry
by a script, and there are two ways in which it is refused (`Registry.declare_eq_error`). -/

namespace BuildPlan

namespace Specification

variable {kind : Kind} {spec : Specification} {d : Descriptor}

/-- The declaration of a target of a kind. -/
def declaration (kind : Kind) (spec : Specification) : Declaration :=
  match kind with
  | .project => .register (.project
      ((Project.leaf ⟨spec.name⟩).withRequires (spec.requirements.map TargetName.mk)))
  | .composite => .compose ⟨spec.name⟩ (spec.requirements.map TargetName.mk)

/-- A target is declared under the name that is specified. -/
theorem name_of_descriptor (h : (declaration kind spec).descriptor = .ok d) :
    d.name = ⟨spec.name⟩ := by
  cases kind with
  | project =>
      obtain rfl := Except.ok.inj h
      rfl
  | composite =>
      rcases Declaration.eq_of_descriptor_eq_ok h with hregister | ⟨c, ns, rfl, hcompose, -⟩
      · cases hregister
      · exact (Declaration.compose.inj hcompose).1.symm

theorem not_isBlank_of_readName {s : Session} {t : Table} {name : String}
    (h : readName kind s t = .ok name) : ¬isBlank name := by
  unfold readName at h
  split at h
  · cases h
  · split at h
    · cases h
    · split at h
      · cases h
      · split at h
        · cases h
        next hblank =>
          obtain rfl := Except.ok.inj h
          exact hblank

/-- A list of names is read exactly if its entries are their texts. -/
theorem readEntries_eq_ok_iff {target : String} {names : List String} {s : Session}
    {vs : List Value} :
    readEntries kind target s vs = .ok names ↔ vs = names.map .text := by
  constructor
  · intro h
    fun_induction readEntries kind target s vs generalizing names with
    | case1 =>
        obtain rfl := Except.ok.inj h
        rfl
    | case2 v vs i htake => cases h
    | case3 v vs bytes htake e hdecode => cases h
    | case4 v vs bytes htake first hdecode ih =>
        cases hrest : readEntries kind target s vs with
        | error e =>
            rw [hrest] at h
            cases h
        | ok rest =>
            rw [hrest] at h
            obtain rfl := Except.ok.inj h
            rw [List.map_cons, ← ih hrest, Session.eq_of_take s htake nofun,
              Utf8.decode_eq_ok_iff.1 hdecode]
            rfl
    | case5 v vs v' hv' htake => cases h
  · rintro rfl
    induction names with
    | nil => rfl
    | cons name names ih =>
        have htake : s.take (.text name) = .ok (.string (Utf8.encode name)) := rfl
        rw [List.map_cons, readEntries, htake]
        dsimp only
        rw [Utf8.decode_encode]
        dsimp only
        rw [ih]
        rfl

/-- What arguments say is read from a table. -/
theorem exists_of_read {s : Session} {arguments : List Value}
    (h : read kind s arguments = .ok spec) :
    ∃ r, arguments.headD .nil = .table r ∧ readName kind s (s.heap.get r) = .ok spec.name ∧
      readRequirements kind spec.name s (s.heap.get r) = .ok spec.requirements := by
  unfold read at h
  simp only [bind, Except.bind, pure, Except.pure] at h
  split at h
  · cases h
  next r hr =>
    split at h
    · cases h
    next name hname =>
      split at h
      · cases h
      next requirements hrequirements =>
        obtain rfl := Except.ok.inj h
        exact ⟨r, Session.takeTable_eq_ok_iff.1 hr, hname, hrequirements⟩

/-- What is read has a name that is not blank. -/
theorem not_isBlank_of_read {s : Session} {arguments : List Value}
    (h : read kind s arguments = .ok spec) : ¬isBlank spec.name := by
  obtain ⟨r, -, hname, -⟩ := exists_of_read h
  exact not_isBlank_of_readName hname

end Specification

namespace Registry

variable {r r' : Registry} {kind : Kind} {spec : Specification} {e : PlanError}

theorem declare_eq_apply (r : Registry) (kind : Kind) (spec : Specification) :
    r.declare kind spec = (spec.declaration kind).apply r := by
  cases kind <;> rfl

/-- A target that is accepted is declared already, or stands behind all that are. -/
theorem declare_eq_ok (h : r.declare kind spec = .ok r') :
    ∃ d, d.name = ⟨spec.name⟩ ∧ (spec.declaration kind).descriptor = .ok d ∧
      (r' = r ∧ d ∈ r.toList ∨ d.name ∉ r.names ∧ r'.toList = r.toList ++ [d]) := by
  rw [declare_eq_apply] at h
  have heffect := r.effect_after (spec.declaration kind)
  rw [after_of_ok h] at heffect
  cases heffect with
  | refused hrefused _ =>
      rw [h] at hrefused
      cases hrefused
  | @repeated d _ hc hd => exact ⟨d, Specification.name_of_descriptor hc, hc, .inl ⟨rfl, hd⟩⟩
  | @added d _ _ hc hd hlist => exact ⟨d, Specification.name_of_descriptor hc, hc, .inr ⟨hd, hlist⟩⟩

/-- A target that is declared already is accepted and changes nothing. -/
theorem declare_eq_self {d : Descriptor} (h : (spec.declaration kind).descriptor = .ok d)
    (hd : d ∈ r.toList) : r.declare kind spec = .ok r := by
  have hget : r.get? d.name = some d := get?_eq_some_iff.2 ⟨hd, rfl⟩
  rw [declare_eq_apply, Declaration.apply_eq_bind, h]
  change r.register d = .ok r
  rw [register_of_get?_eq_some hget, if_pos rfl]

end Registry

end BuildPlan
