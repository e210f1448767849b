import Std.Data.TreeSet

/-! # First occurrences

`distinct xs` keeps the first occurrence of every entry of `xs`, in order, and `repeats xs`
lists the occurrences that it drops.  Each is one pass with a search tree of the entries met so
far.  The main statements: `distinct` has the same members (`mem_distinct`), no repeats
(`nodup_distinct`), is empty only for the empty list (`distinct_eq_nil_iff`) and agrees with
the removal of repeats that compares every two entries (`distinct_eq_eraseDups`). -/

namespace BuildPlan

variable {α : Type} [Ord α]

/-- The entries outside `seen`, each at its first occurrence. -/
def distinctFrom (seen : Std.TreeSet α) : List α → List α
  | [] => []
  | x :: xs =>
      if seen.contains x then distinctFrom seen xs
      else x :: distinctFrom (seen.insert x) xs

/-- The first occurrence of every entry, in order. -/
def distinct (xs : List α) : List α := distinctFrom ∅ xs

/-- The occurrences of entries of `seen` or of earlier entries. -/
def repeatsFrom (seen : Std.TreeSet α) : List α → List α
  | [] => []
  | x :: xs =>
      if seen.contains x then x :: repeatsFrom seen xs
      else repeatsFrom (seen.insert x) xs

/-- The occurrences that `distinct` drops, in order. -/
def repeats (xs : List α) : List α := repeatsFrom ∅ xs

section lemmas

variable [Std.TransOrd α] [Std.LawfulEqOrd α]

theorem mem_distinctFrom {x : α} {xs : List α} {seen : Std.TreeSet α} :
    x ∈ distinctFrom seen xs ↔ x ∈ xs ∧ seen.contains x = false := by
  induction xs generalizing seen with
  | nil => simp [distinctFrom]
  | cons y ys ih =>
      unfold distinctFrom
      split
      · rw [ih, List.mem_cons]
        constructor
        · rintro ⟨h, hs⟩
          exact ⟨.inr h, hs⟩
        · rintro ⟨rfl | h, hs⟩
          · simp_all
          · exact ⟨h, hs⟩
      · next hy =>
          rw [List.mem_cons, ih, List.mem_cons, Std.TreeSet.contains_insert]
          by_cases h : x = y
          · subst h
            simp [eq_false_of_ne_true hy]
          · simp [h, Ne.symm h]

theorem nodup_distinctFrom (xs : List α) (seen : Std.TreeSet α) : (distinctFrom seen xs).Nodup := by
  induction xs generalizing seen with
  | nil => simp [distinctFrom]
  | cons y ys ih =>
      unfold distinctFrom
      split
      · exact ih seen
      · exact List.nodup_cons.2 ⟨by simp [mem_distinctFrom], ih _⟩

@[simp]
theorem mem_distinct {x : α} {xs : List α} : x ∈ distinct xs ↔ x ∈ xs := by
  simp [distinct, mem_distinctFrom]

theorem nodup_distinct (xs : List α) : (distinct xs).Nodup := nodup_distinctFrom xs ∅

omit [Std.TransOrd α] [Std.LawfulEqOrd α] in
theorem distinct_eq_nil_iff {xs : List α} : distinct xs = [] ↔ xs = [] := by
  cases xs with
  | nil => simp [distinct, distinctFrom]
  | cons x xs => simp [distinct, distinctFrom]

theorem distinctFrom_eq_eraseDups [BEq α] [LawfulBEq α] (xs : List α) (seen : Std.TreeSet α) :
    distinctFrom seen xs = (xs.filter fun x => !seen.contains x).eraseDups := by
  induction xs generalizing seen with
  | nil => simp [distinctFrom]
  | cons x xs ih =>
      unfold distinctFrom
      split
      · next hx => rw [ih, List.filter_cons_of_neg (by simp [hx])]
      · next hx =>
          rw [ih, List.filter_cons_of_pos (by simp [hx]), List.eraseDups_cons, List.filter_filter]
          congr 3
          funext y
          have hxy : (compare x y == .eq) = (y == x) := by
            rw [Bool.eq_iff_iff, beq_iff_eq, beq_iff_eq, Std.compare_eq_iff_eq, eq_comm]
          rw [Std.TreeSet.contains_insert, hxy, Bool.not_or]

/-- The pass with a search tree finds what comparing every two entries finds. -/
theorem distinct_eq_eraseDups [BEq α] [LawfulBEq α] (xs : List α) : distinct xs = xs.eraseDups := by
  unfold distinct
  rw [distinctFrom_eq_eraseDups, List.filter_eq_self.2 (by simp)]

end lemmas

end BuildPlan
