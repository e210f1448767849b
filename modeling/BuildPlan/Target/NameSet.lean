import BuildPlan.Target.Name

/-! # Sets of target names

A set of names is its strictly ascending list, so two sets are equal exactly when they have
the same members (`NameSet.ext_mem`) and listing a set means reading it off. -/

namespace BuildPlan

/-- A finite set of target names, listed in ascending order. -/
structure NameSet where
  names : List TargetName
  ascending : names.Pairwise (· < ·)
deriving DecidableEq

namespace NameSet

/-- The set without members. -/
def empty : NameSet := ⟨[], .nil⟩

instance : Inhabited NameSet := ⟨empty⟩

instance : Membership TargetName NameSet := ⟨fun s n => n ∈ s.names⟩

/-- Puts a name at its place in an ascending list, unless it is there. -/
def insertSorted (n : TargetName) : List TargetName → List TargetName
  | [] => [n]
  | m :: ms =>
      if n < m then n :: m :: ms
      else if n = m then m :: ms
      else m :: insertSorted n ms

theorem mem_insertSorted {x n : TargetName} {ms : List TargetName} :
    x ∈ insertSorted n ms ↔ x = n ∨ x ∈ ms := by
  induction ms with
  | nil => simp [insertSorted]
  | cons m ms ih =>
      unfold insertSorted
      split
      · simp
      · split
        · next h => subst h; simp
        · rw [List.mem_cons, ih, List.mem_cons]
          constructor
          · rintro (h | h | h) <;> simp [h]
          · rintro (h | h | h) <;> simp [h]

theorem pairwise_insertSorted {n : TargetName} {ms : List TargetName}
    (h : ms.Pairwise (· < ·)) : (insertSorted n ms).Pairwise (· < ·) := by
  induction ms with
  | nil => simp [insertSorted]
  | cons m ms ih =>
      obtain ⟨hm, hms⟩ := List.pairwise_cons.1 h
      unfold insertSorted
      split
      · next hlt =>
          refine List.pairwise_cons.2 ⟨fun x hx => ?_, h⟩
          rcases List.mem_cons.1 hx with rfl | hx
          · exact hlt
          · exact TargetName.lt_trans hlt (hm x hx)
      · split
        · exact h
        · next hlt hne =>
            refine List.pairwise_cons.2 ⟨fun x hx => ?_, ih hms⟩
            rcases mem_insertSorted.1 hx with rfl | hx
            · exact TargetName.lt_of_not_lt hlt hne
            · exact hm x hx

/-- The set with one more member. -/
def insert (n : TargetName) (s : NameSet) : NameSet :=
  ⟨insertSorted n s.names, pairwise_insertSorted s.ascending⟩

/-- The set with all of `ns` as further members. -/
def insertAll (s : NameSet) (ns : List TargetName) : NameSet :=
  ns.foldl (fun s n => s.insert n) s

/-- The set of the names of a list. -/
def ofList (ns : List TargetName) : NameSet := empty.insertAll ns

@[simp]
theorem mem_insert {x n : TargetName} {s : NameSet} : x ∈ s.insert n ↔ x = n ∨ x ∈ s :=
  mem_insertSorted

@[simp]
theorem mem_insertAll {x : TargetName} {s : NameSet} {ns : List TargetName} :
    x ∈ s.insertAll ns ↔ x ∈ ns ∨ x ∈ s := by
  induction ns generalizing s with
  | nil => simp [insertAll]
  | cons n ns ih =>
      have : x ∈ (s.insert n).insertAll ns ↔ x ∈ ns ∨ x ∈ s.insert n := ih
      simp only [insertAll, List.foldl_cons] at this ⊢
      rw [this, mem_insert, List.mem_cons]
      constructor
      · rintro (h | h | h) <;> simp [h]
      · rintro ((h | h) | h) <;> simp [h]

@[simp]
theorem not_mem_empty (x : TargetName) : ¬ x ∈ empty := List.not_mem_nil

@[simp]
theorem mem_ofList {x : TargetName} {ns : List TargetName} : x ∈ ofList ns ↔ x ∈ ns := by
  simp [ofList]

/-- Ascending lists with the same members are equal. -/
theorem eq_of_mem_iff {as bs : List TargetName} (ha : as.Pairwise (· < ·))
    (hb : bs.Pairwise (· < ·)) (h : ∀ x, x ∈ as ↔ x ∈ bs) : as = bs := by
  induction as generalizing bs with
  | nil =>
      cases bs with
      | nil => rfl
      | cons b bs => exact absurd ((h b).2 (by simp)) (by simp)
  | cons a as ih =>
      cases bs with
      | nil => exact absurd ((h a).1 (by simp)) (by simp)
      | cons b bs =>
          obtain ⟨ha1, ha2⟩ := List.pairwise_cons.1 ha
          obtain ⟨hb1, hb2⟩ := List.pairwise_cons.1 hb
          have hab : a = b := by
            rcases List.mem_cons.1 ((h a).1 (by simp)) with e | hmem
            · exact e
            · rcases List.mem_cons.1 ((h b).2 (by simp)) with e | hmem'
              · exact e.symm
              · exact absurd (TargetName.lt_trans (hb1 a hmem) (ha1 b hmem'))
                  (TargetName.lt_irrefl b)
          subst hab
          congr 1
          refine ih ha2 hb2 fun x => ⟨fun hx => ?_, fun hx => ?_⟩
          · rcases List.mem_cons.1 ((h x).1 (List.mem_cons_of_mem _ hx)) with rfl | hx'
            · exact absurd (ha1 x hx) (TargetName.lt_irrefl x)
            · exact hx'
          · rcases List.mem_cons.1 ((h x).2 (List.mem_cons_of_mem _ hx)) with rfl | hx'
            · exact absurd (hb1 x hx) (TargetName.lt_irrefl x)
            · exact hx'

/-- Sets with the same members are equal. -/
theorem ext_mem {s t : NameSet} (h : ∀ x, x ∈ s ↔ x ∈ t) : s = t := by
  cases s with
  | mk as ha =>
      cases t with
      | mk bs hb =>
          have : as = bs := eq_of_mem_iff ha hb h
          subst this
          rfl

end NameSet

end BuildPlan
