import Mathlib.Data.List.Perm.Subperm
import Mathlib.Data.List.Nodup
import Mathlib.Tactic.ByContra
import BuildPlan.Session.Evaluate

/-! # Lists in tables

A table has finitely many fields, so the values at 1, 2, ... end somewhere, and reading them finds
all of them up to the first nil (`Table.sequence_eq_iff`).  A table that is made of a list of
values, none of them nil, holds the list at 1, 2, ... (`Table.sequence_setFrom`) and nothing behind
it (`Table.tight_setFrom`), whether the values are stored at once or in batches as a table is made
from the text of a script (`Making.Holds`). -/

namespace BuildPlan

namespace Table

variable {t : Table} {start : Nat} {vs : List Value}

theorem setFrom_append (t : Table) (start : Nat) (vs ws : List Value) :
    t.setFrom start (vs ++ ws) = (t.setFrom start vs).setFrom (start + vs.length) ws := by
  induction vs generalizing t start with
  | nil => rfl
  | cons v vs ih =>
      simp only [List.cons_append, setFrom, List.length_cons]
      rw [ih]
      congr 1
      omega

theorem get_setFrom_of_outside {i : Nat} (h : i < start ∨ start + vs.length ≤ i) :
    (t.setFrom start vs).get (.integer i) = t.get (.integer i) := by
  induction vs generalizing t start with
  | nil => rfl
  | cons v vs ih =>
      rw [List.length_cons] at h
      have hne : (Value.integer i).key ≠ (Value.integer start).key := by
        intro hkey
        have hi : (i : Int) = start := Value.integer.inj hkey
        omega
      rw [setFrom, ih (by omega), get_set_of_ne t v hne]

theorem get_setFrom {i : Nat} (h : i < vs.length) :
    (t.setFrom start vs).get (.integer (start + i : Nat)) = vs[i] := by
  induction vs generalizing t start i with
  | nil => exact absurd h (Nat.not_lt_zero i)
  | cons v vs ih =>
      rw [setFrom]
      cases i with
      | zero =>
          change ((t.set (.integer start) v).setFrom (start + 1) vs).get (.integer start) = v
          rw [get_setFrom_of_outside (.inl (Nat.lt_add_one start)), get_set_self]
      | succ i =>
          have hi : i < vs.length := Nat.lt_of_succ_lt_succ h
          have hrest : ((t.set (.integer start) v).setFrom (start + 1) vs).get
              (.integer (start + 1 + i : Nat)) = vs[i] := ih hi
          rw [show start + 1 + i = start + (i + 1) by omega] at hrest
          exact hrest

/-- The fields of a table before it is given values from `start` on. -/
def Below (t : Table) (start : Nat) : Prop :=
  ∀ field ∈ t.fields, ∃ i : Nat, i < start ∧ field.1 = .integer i

theorem Below.erase_eq (h : t.Below start) : t.erase (.integer start) = t := by
  unfold erase
  congr 1
  refine List.filter_eq_self.2 fun field hfield => ?_
  obtain ⟨i, hi, hkey⟩ := h field hfield
  have hne : (i : Int) ≠ start := by omega
  simpa [hkey, Value.key] using hne

theorem length_fields_setFrom (h : t.Below start) (hvs : Value.nil ∉ vs) :
    (t.setFrom start vs).fields.length = t.fields.length + vs.length := by
  induction vs generalizing t start with
  | nil => rfl
  | cons v vs ih =>
      have hv : v ≠ .nil := fun hv => hvs (hv ▸ List.mem_cons_self)
      have hset : t.set (.integer start) v = ⟨(.integer start, v) :: t.fields⟩ := by
        unfold set
        rw [if_neg hv, h.erase_eq]
        rfl
      have hbelow : (t.set (.integer start) v).Below (start + 1) := by
        intro field hfield
        rw [hset] at hfield
        rcases List.mem_cons.1 hfield with rfl | hfield
        · exact ⟨start, Nat.lt_succ_self start, rfl⟩
        · obtain ⟨i, hi, hkey⟩ := h field hfield
          exact ⟨i, Nat.lt_succ_of_lt hi, hkey⟩
      rw [setFrom, ih hbelow fun hmem => hvs (List.mem_cons_of_mem _ hmem), hset]
      simp only [List.length_cons]
      omega

theorem valuesFrom_eq (h : ∀ i (hi : i < vs.length), t.get (.integer (start + i : Nat)) = vs[i])
    (hvs : Value.nil ∉ vs) : t.valuesFrom start vs.length = vs := by
  induction vs generalizing start with
  | nil => rfl
  | cons v vs ih =>
      have hfirst : t.get (.integer start) = v := h 0 (Nat.zero_lt_succ _)
      have hrest : t.valuesFrom (start + 1) vs.length = vs := by
        refine ih (fun i hi => ?_) fun hmem => hvs (List.mem_cons_of_mem _ hmem)
        have hi' := h (i + 1) (Nat.succ_lt_succ hi)
        rw [show start + (i + 1) = start + 1 + i by omega] at hi'
        exact hi'
      rw [List.length_cons, valuesFrom, hfirst]
      split
      · exact absurd List.mem_cons_self hvs
      · rw [hrest]

theorem below_empty : empty.Below 1 := fun _ hfield => absurd hfield List.not_mem_nil

/-- A table made of a list of values holds the list. -/
theorem sequence_setFrom (hvs : Value.nil ∉ vs) : (empty.setFrom 1 vs).sequence = vs := by
  have hlength : (empty.setFrom 1 vs).fields.length = vs.length := by
    rw [length_fields_setFrom below_empty hvs]
    exact Nat.zero_add _
  rw [sequence, hlength]
  exact valuesFrom_eq (fun i hi => get_setFrom hi) hvs

/-- However a table is laid out, it is found to be no longer than it has fields. -/
def Tight (t : Table) : Prop := ∀ b, t.IsBorder b → b ≤ t.fields.length

/-- A table made of a list of values has no hole behind which something stands. -/
theorem tight_setFrom (hvs : Value.nil ∉ vs) : (empty.setFrom 1 vs).Tight := by
  intro b hb
  rw [length_fields_setFrom below_empty hvs]
  rcases hb.present with rfl | hpresent
  · exact Nat.zero_le _
  · by_contra hlt
    refine hpresent ?_
    have hbehind : 1 + vs.length ≤ b := by
      simp [empty] at hlt
      omega
    rw [get_setFrom_of_outside (.inr hbehind)]
    rfl

/-! ### Up to the first nil -/

/-- The values from `start` on are those of a list, and behind them there is nil. -/
structure ListsFrom (t : Table) (start : Nat) (vs : List Value) : Prop where
  ne_nil : Value.nil ∉ vs
  get : ∀ i (hi : i < vs.length), t.get (.integer (start + i : Nat)) = vs[i]
  get_end : t.get (.integer (start + vs.length : Nat)) = .nil

/-- The values at 1, 2, ... up to the first nil are those of a list. -/
abbrev Lists (t : Table) (vs : List Value) : Prop := t.ListsFrom 1 vs

theorem listsFrom_nil_iff : t.ListsFrom start [] ↔ t.get (.integer start) = .nil :=
  ⟨fun h => h.get_end, fun h => ⟨List.not_mem_nil, fun _ hi => absurd hi (Nat.not_lt_zero _), h⟩⟩

theorem listsFrom_cons_iff {v : Value} :
    t.ListsFrom start (v :: vs) ↔
      v ≠ .nil ∧ t.get (.integer start) = v ∧ t.ListsFrom (start + 1) vs := by
  constructor
  · rintro ⟨hne, hget, hend⟩
    rw [List.mem_cons, not_or] at hne
    refine ⟨Ne.symm hne.1, hget 0 (Nat.zero_lt_succ _), hne.2, fun i hi => ?_, ?_⟩
    · rw [Nat.add_assoc, Nat.add_comm 1]
      exact hget (i + 1) (Nat.succ_lt_succ hi)
    · rw [Nat.add_assoc, Nat.add_comm 1]
      exact hend
  · rintro ⟨hv, hfirst, hne, hget, hend⟩
    refine ⟨?_, fun i hi => ?_, ?_⟩
    · rw [List.mem_cons, not_or]
      exact ⟨Ne.symm hv, hne⟩
    · cases i with
      | zero => exact hfirst
      | succ i =>
          rw [← Nat.add_assoc, Nat.add_right_comm]
          exact hget i (Nat.lt_of_succ_lt_succ hi)
    · rw [List.length_cons, ← Nat.add_assoc, Nat.add_right_comm]
      exact hend

/-- There is one list of values up to the first nil. -/
theorem ListsFrom.unique {ws : List Value} (h : t.ListsFrom start vs) (h' : t.ListsFrom start ws) :
    vs = ws := by
  induction vs generalizing start ws with
  | nil =>
      cases ws with
      | nil => rfl
      | cons w ws =>
          obtain ⟨hw, hfirst, -⟩ := listsFrom_cons_iff.1 h'
          exact absurd (hfirst.symm.trans (listsFrom_nil_iff.1 h)) hw
  | cons v vs ih =>
      obtain ⟨hv, hfirst, hrest⟩ := listsFrom_cons_iff.1 h
      cases ws with
      | nil => exact absurd (hfirst.symm.trans (listsFrom_nil_iff.1 h')) hv
      | cons w ws =>
          obtain ⟨-, hfirst', hrest'⟩ := listsFrom_cons_iff.1 h'
          rw [hfirst.symm.trans hfirst', ih hrest hrest']

/-- As there are finitely many fields, one of the values at 1, 2, ... is nil. -/
theorem exists_get_eq_nil (t : Table) :
    ∃ j ≤ t.fields.length, t.get (.integer (1 + j : Nat)) = .nil := by
  by_contra! hne
  let keys := (List.range (t.fields.length + 1)).map fun i : Nat => Value.integer (1 + i : Nat)
  have hnodup : keys.Nodup := by
    refine List.Nodup.map_on (fun i _ j _ hij => ?_) List.nodup_range
    have : ((1 + i : Nat) : Int) = (1 + j : Nat) := Value.integer.inj hij
    omega
  have hsubset : keys ⊆ t.fields.map Prod.fst := by
    intro k hk
    obtain ⟨i, hi, rfl⟩ := List.mem_map.1 hk
    by_contra hkey
    refine hne i (Nat.le_of_lt_succ (List.mem_range.1 hi)) ?_
    have hnone : t.fields.lookup (Value.integer (1 + i : Nat)).key = none :=
      List.lookup_eq_none_iff.2 fun field hfield => bne_iff_ne.2 fun heq =>
        hkey (List.mem_map.2 ⟨field, hfield, heq.symm⟩)
    rw [Table.get, hnone]
    rfl
  have hlength := (hnodup.subperm hsubset).length_le
  simp only [keys, List.length_map, List.length_range] at hlength
  omega

/-- Reading values stops at the first nil if there is one within the limit. -/
theorem listsFrom_valuesFrom {limit j : Nat} (hj : j ≤ limit)
    (hnil : t.get (.integer (start + j : Nat)) = .nil) :
    t.ListsFrom start (t.valuesFrom start limit) := by
  induction limit generalizing start j with
  | zero =>
      obtain rfl := Nat.le_zero.1 hj
      exact listsFrom_nil_iff.2 hnil
  | succ limit ih =>
      rw [valuesFrom]
      split
      next hfirst => exact listsFrom_nil_iff.2 hfirst
      next hfirst =>
        cases j with
        | zero => exact absurd hnil hfirst
        | succ j =>
            rw [← Nat.add_assoc, Nat.add_right_comm] at hnil
            exact listsFrom_cons_iff.2 ⟨hfirst, rfl, ih (Nat.le_of_succ_le_succ hj) hnil⟩

theorem sequence_eq_iff : t.sequence = vs ↔ t.Lists vs := by
  obtain ⟨j, hj, hnil⟩ := t.exists_get_eq_nil
  have hlists : t.Lists t.sequence := listsFrom_valuesFrom hj hnil
  constructor
  · rintro rfl
    exact hlists
  · exact hlists.unique

end Table

namespace Making

variable {m : Making} {vs ws : List Value}

/-- A table that is being made of items holds those that were stored and those that wait. -/
def Holds (m : Making) (vs : List Value) : Prop :=
  ∃ stored, m.table = Table.empty.setFrom 1 stored ∧ m.stored = stored.length ∧
    vs = stored ++ m.pending.reverse

theorem holds_start : start.Holds [] := ⟨[], rfl, rfl, rfl⟩

theorem Holds.flush (h : m.Holds vs) : m.flush.Holds vs := by
  obtain ⟨stored, htable, hcount, rfl⟩ := h
  refine ⟨stored ++ m.pending.reverse, ?_, ?_, ?_⟩
  · rw [Table.setFrom_append, Making.flush, htable, hcount, Nat.add_comm 1]
  · simp [Making.flush, hcount]
  · simp [Making.flush]

theorem Holds.prepare (h : m.Holds vs) : m.prepare.Holds vs := by
  unfold Making.prepare
  split
  · exact h.flush
  · exact h

theorem Holds.add (h : m.Holds vs) (ws : List Value) : (m.add ws).Holds (vs ++ ws) := by
  obtain ⟨stored, htable, hcount, rfl⟩ := h
  exact ⟨stored, htable, hcount, by simp [Making.add]⟩

theorem Holds.table_flush (h : m.Holds vs) : m.flush.table = Table.empty.setFrom 1 vs := by
  obtain ⟨stored, htable, hcount, rfl⟩ := h
  rw [Table.setFrom_append, Making.flush, htable, hcount, Nat.add_comm 1]

end Making

end BuildPlan
