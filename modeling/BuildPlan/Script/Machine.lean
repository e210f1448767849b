import BuildPlan.Script.Value

/-! # What lies below a run

A run depends on what scripts cannot see into: where tables and functions lie, which shows in
their texts, how far the program has come when a fault is made, and how a table is laid out, which
decides about its length if it has holes.  A `Machine` says all of that; other runs of the same
scripts can have another one. -/

namespace BuildPlan

namespace Table

/-- The last index that a list can have. -/
def lastIndex : Nat := 0x7fffffffffffffff

/-- A number can be taken for the length of a table: something stands at this index, and nothing
at the next one.  A table whose values stand at 1, 2, ... without a hole has one such number. -/
structure IsBorder (t : Table) (b : Nat) : Prop where
  present : b = 0 ∨ t.get (.integer b) ≠ .nil
  absent : b = lastIndex ∨ t.get (.integer (b + 1 : Nat)) = .nil

/-- Halves the distance between an index at which something stands and one at which nothing does,
at most `steps` times. -/
def between (t : Table) : Nat → Nat → Nat → Nat
  | 0, low, _ => low
  | steps + 1, low, high =>
      if high ≤ low + 1 then low
      else
        let middle := (low + high) / 2
        if t.get (.integer middle) = .nil then t.between steps low middle
        else t.between steps middle high

/-- Doubles an index at which something stands until nothing does, at most `steps` times, and goes
back to a border from there. -/
def climb (t : Table) : Nat → Nat → Nat
  | 0, low => low
  | steps + 1, low =>
      let high := if low ≤ lastIndex / 2 then 2 * low else lastIndex
      if t.get (.integer high) = .nil then t.between 64 low high
      else if high = lastIndex then lastIndex
      else t.climb steps high

/-- A border of a table without a part that is laid out as a list. -/
def border (t : Table) : Nat := if t.get (.integer (1 : Nat)) = .nil then 0 else t.climb 64 1

variable {t : Table} {low high steps : Nat}

theorem isBorder_between (hlow : t.get (.integer low) ≠ .nil) (hhigh : t.get (.integer high) = .nil)
    (hlt : low < high) (hsteps : high - low ≤ Nat.pow 2 steps) :
    t.IsBorder (t.between steps low high) := by
  have hnext : ∀ {low high : Nat}, t.get (.integer low) ≠ .nil → t.get (.integer high) = .nil →
      low < high → high ≤ low + 1 → t.IsBorder low := by
    intro low high hlow hhigh hlt hle
    obtain rfl : high = low + 1 := by omega
    exact ⟨.inr hlow, .inr hhigh⟩
  induction steps generalizing low high with
  | zero => exact hnext hlow hhigh hlt (Nat.sub_le_iff_le_add'.1 hsteps)
  | succ steps ih =>
      have hpow : Nat.pow 2 (steps + 1) = Nat.pow 2 steps * 2 := rfl
      unfold between
      split
      next hle => exact hnext hlow hhigh hlt hle
      next hfar =>
        dsimp only
        split
        next hmiddle => exact ih hlow hmiddle (by omega) (by omega)
        next hmiddle => exact ih hmiddle hhigh (by omega) (by omega)

theorem isBorder_climb (hlow : t.get (.integer low) ≠ .nil) (hpos : low ≤ lastIndex)
    (hsteps : lastIndex < low * Nat.pow 2 steps) : t.IsBorder (t.climb steps low) := by
  induction steps generalizing low with
  | zero =>
      have hpow : low * Nat.pow 2 0 = low := Nat.mul_one low
      omega
  | succ steps ih =>
      unfold climb
      dsimp only
      generalize hhigh : (if low ≤ lastIndex / 2 then 2 * low else lastIndex) = high
      split
      next habsent =>
        have hne : low ≠ high := fun h => hlow (h ▸ habsent)
        have hle : low ≤ high ∧ high ≤ lastIndex := by
          split at hhigh <;> omega
        have hdistance : high - low ≤ Nat.pow 2 64 := Nat.le_trans (Nat.sub_le _ _)
          (Nat.le_trans hle.2 (by decide))
        exact isBorder_between hlow habsent (by omega) hdistance
      next hpresent =>
        split
        next hlast =>
          subst hlast
          exact ⟨.inr hpresent, .inl rfl⟩
        next hnotLast =>
          split at hhigh
          next hhalf =>
            subst hhigh
            have hpow : low * Nat.pow 2 (steps + 1) = 2 * low * Nat.pow 2 steps := by
              rw [Nat.mul_comm 2 low, Nat.mul_assoc, Nat.mul_comm 2]
              rfl
            exact ih hpresent (by omega) (hpow ▸ hsteps)
          next => exact absurd hhigh.symm hnotLast

theorem isBorder_border (t : Table) : t.IsBorder t.border := by
  unfold border
  split
  next habsent => exact ⟨.inl rfl, .inr habsent⟩
  next hpresent => exact isBorder_climb hpresent (by decide) (by decide)

end Table

/-- What a run meets of the machine that carries it out. -/
structure Machine where
  tableText : Ref → Bytes
  functionText : Builtin → Bytes
  /-- What the text of a fault says behind its sentence, of where it was made. -/
  trace : Nat → Bytes
  /-- The length of a table that lies at a place, at some moment. -/
  length : Nat → Ref → Table → Nat
  isBorder_length : ∀ (moment : Nat) (r : Ref) (t : Table), t.IsBorder (length moment r t)

/-- A machine that numbers tables and calls all functions alike. -/
def Machine.plain : Machine where
  tableText r := Utf8.encode ("table: " ++ toString r.index)
  functionText _ := Utf8.encode "function: builtin"
  trace _ := []
  length _ _ t := t.border
  isBorder_length _ _ t := t.isBorder_border

namespace Value

/-- How a value is told to a user. -/
def describe (m : Machine) : Value → Bytes
  | .nil => Utf8.encode "nil"
  | .boolean b => Utf8.encode (if b then "true" else "false")
  | .integer i => Utf8.encode (toString i)
  | .number x => Utf8.encode x.text
  | .string bytes => bytes
  | .table r => m.tableText r
  | .function f => m.functionText f
  | .fault n f => Utf8.encode f.describe ++ m.trace n
  | .panic _ => Utf8.encode "capacity overflow"

/-- The fault that a raised value ends a run with: a fault stays what it is, and any other value
but a panic becomes a text, which a NUL ends. -/
def toFault (m : Machine) : Value → Fault
  | .fault _ f => f
  | .panic _ => .resumed
  | v => .raised (Utf8.lossy ((v.describe m).takeWhile (· ≠ 0)))

end Value

end BuildPlan
