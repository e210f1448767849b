import Std.Data.TreeMap
import BuildPlan.Event

/-! # The registry of targets

A registry lists the declared targets in the order of their first declaration and finds them
by name.  A target may be declared again with the same definition, which changes nothing, and
never with another one (`Registry.register`).  Composites may be declared before the targets
they group: names are looked up when a plan is resolved. -/

namespace BuildPlan

/-- The declared targets, in declaration order, with an index by name. -/
structure Registry where
  declared : Array Descriptor
  index : Std.TreeMap TargetName Descriptor
  index_eq_some_iff : ∀ n d, index[n]? = some d ↔ d ∈ declared ∧ d.name = n
  nodup_names : (declared.toList.map Descriptor.name).Nodup

namespace Registry

/-- The registry without targets. -/
def empty : Registry where
  declared := #[]
  index := ∅
  index_eq_some_iff := by simp
  nodup_names := by simp

instance : Inhabited Registry := ⟨empty⟩

/-- The descriptor declared under a name. -/
def get? (r : Registry) (n : TargetName) : Option Descriptor := r.index[n]?

/-- Whether a name is declared. -/
def contains (r : Registry) (n : TargetName) : Bool := r.index.contains n

/-- The number of declared targets. -/
def size (r : Registry) : Nat := r.declared.size

/-- The declared targets in declaration order. -/
def toList (r : Registry) : List Descriptor := r.declared.toList

/-- The declared names in declaration order. -/
def names (r : Registry) : List TargetName := r.toList.map Descriptor.name

/-- The declared composites in declaration order. -/
def composites (r : Registry) : List Composite := r.toList.filterMap Descriptor.composite?

/-- The descriptor declared under a name, or the error that names it. -/
def lookup (r : Registry) (n : TargetName) : Except PlanError Descriptor :=
  match r.get? n with
  | some d => .ok d
  | none => .error (.unknownTarget n none)

theorem get?_eq_some_iff {r : Registry} {n : TargetName} {d : Descriptor} :
    r.get? n = some d ↔ d ∈ r.toList ∧ d.name = n := by
  simpa [get?, toList] using r.index_eq_some_iff n d

theorem get?_eq_none_iff {r : Registry} {n : TargetName} :
    r.get? n = none ↔ n ∉ r.names := by
  constructor
  · intro h hn
    obtain ⟨d, hd, rfl⟩ := List.mem_map.1 hn
    rw [get?_eq_some_iff.2 ⟨hd, rfl⟩] at h
    cases h
  · intro h
    cases hg : r.get? n with
    | none => rfl
    | some d =>
        obtain ⟨hd, rfl⟩ := get?_eq_some_iff.1 hg
        exact absurd (List.mem_map_of_mem hd) h

/-- The registry with one more target, whose name is new. -/
def push (r : Registry) (d : Descriptor) (hd : r.get? d.name = none) : Registry where
  declared := r.declared.push d
  index := r.index.insert d.name d
  index_eq_some_iff := by
    intro n e
    have hnone : ∀ x, x ∈ r.declared → x.name ≠ d.name := fun x hx hxn =>
      get?_eq_none_iff.1 hd (List.mem_map.2 ⟨x, by simpa [toList] using hx, hxn⟩)
    rw [Std.TreeMap.getElem?_insert, Array.mem_push]
    by_cases hn : d.name = n
    · subst hn
      simp only [Std.compare_self, if_true, Option.some.injEq]
      constructor
      · rintro rfl
        exact ⟨.inr rfl, rfl⟩
      · rintro ⟨he | rfl, hen⟩
        · exact absurd hen (hnone e he)
        · rfl
    · rw [if_neg (by simpa using hn), r.index_eq_some_iff]
      constructor
      · rintro ⟨he, hen⟩
        exact ⟨.inl he, hen⟩
      · rintro ⟨he | rfl, hen⟩
        · exact ⟨he, hen⟩
        · exact absurd hen hn
  nodup_names := by
    rw [Array.toList_push, List.map_append, List.nodup_append]
    refine ⟨r.nodup_names, by simp, fun a ha b hb => ?_⟩
    rw [List.map_singleton, List.mem_singleton] at hb
    subst hb
    rintro rfl
    exact get?_eq_none_iff.1 hd ha

/-- Declares a target under its own name. -/
def register (r : Registry) (d : Descriptor) : Except PlanError Registry :=
  match h : r.get? d.name with
  | none => .ok (r.push d h)
  | some e => if e = d then .ok r else .error (.duplicateTarget d.name)

/-- Declares the composite of the listed targets. -/
def compose (r : Registry) (name : TargetName) (required : List TargetName) :
    Except PlanError Registry :=
  (Composite.ofList name required).bind fun c => r.register (.composite c)

/-- The events of declaring a target. -/
def registerEvents (r : Registry) (d : Descriptor) : List Event :=
  match r.get? d.name with
  | none => [.registered d.name d.kind]
  | some e => if e = d then [.redeclared d.name] else []

/-- The events of declaring the composite of the listed targets. -/
def composeEvents (r : Registry) (name : TargetName) (required : List TargetName) : List Event :=
  (repeats required).map (.repeatDropped name ·) ++
    match Composite.ofList name required with
    | .ok c => .composed name c.required.length :: r.registerEvents (.composite c)
    | .error _ => []

/-- The names of all requirements of declared targets. -/
def requiredNames (r : Registry) : Std.TreeSet TargetName :=
  r.toList.foldl (fun s d => s.insertMany d.requirements) ∅

/-- The declared targets that no declared target requires, in declaration order. -/
def topLevel (r : Registry) : List TargetName :=
  let required := r.requiredNames
  r.names.filter fun n => !required.contains n

end Registry

end BuildPlan
