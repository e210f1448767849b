/-! # Target names

A target is known by its name, any text.  Names are ordered as texts, code point by code
point, which is also the order of their UTF-8 bytes.  The order is lawful, so names are keys of
search trees. -/

namespace BuildPlan

/-- The name that identifies a target within a registry. -/
structure TargetName where
  text : String
deriving DecidableEq, Repr, Inhabited

namespace TargetName

instance : ToString TargetName := ⟨text⟩

instance : LT TargetName := ⟨fun a b => a.text < b.text⟩

instance (a b : TargetName) : Decidable (a < b) := inferInstanceAs (Decidable (a.text < b.text))

theorem lt_irrefl (a : TargetName) : ¬ a < a := String.lt_irrefl a.text

theorem lt_trans {a b c : TargetName} (hab : a < b) (hbc : b < c) : a < c :=
  String.lt_trans hab hbc

/-- Of two different names one comes first. -/
theorem lt_of_not_lt {a b : TargetName} (hlt : ¬ a < b) (hne : a ≠ b) : b < a := by
  have hle : b.text ≤ a.text := String.not_lt.1 hlt
  refine Classical.byContradiction fun h => hne ?_
  have : a.text = b.text := String.le_antisymm (String.not_lt.1 h) hle
  cases a; cases b; simp_all

instance : Ord TargetName := ⟨compareOn text⟩

instance : Std.TransOrd TargetName := inferInstanceAs (Std.TransCmp (compareOn text))

instance : Std.LawfulEqOrd TargetName where
  eq_of_compare {a b} h := by
    cases a; cases b
    exact congrArg mk (Std.compare_eq_iff_eq.1 h)

/-- Whether `a` comes before `b` or equals it. -/
def le (a b : TargetName) : Bool := !decide (b < a)

@[simp]
theorem le_iff {a b : TargetName} : a.le b = true ↔ ¬ b < a := by simp [le]

theorem le_trans {a b c : TargetName} (hab : a.le b = true) (hbc : b.le c = true) :
    a.le c = true := by
  rw [le_iff] at hab hbc ⊢
  intro hca
  by_cases h : b = a
  · subst h
    exact hbc hca
  · exact hbc (lt_trans hca (lt_of_not_lt hab h))

theorem le_total (a b : TargetName) : (a.le b || b.le a) = true := by
  rw [Bool.or_eq_true, le_iff, le_iff]
  by_cases h : b < a
  · exact .inr fun hab => lt_irrefl a (lt_trans hab h)
  · exact .inl h

/-- The texts of several names, with `separator` between them. -/
def join (separator : String) (names : List TargetName) : String :=
  separator.intercalate (names.map text)

end TargetName

end BuildPlan
