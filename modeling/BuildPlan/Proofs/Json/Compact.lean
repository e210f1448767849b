import BuildPlan.Json
import BuildPlan.Proofs.Json.Quoted

/-! # Compact texts are unambiguous

The text of a value tells where it ends: a quoted text ends at its closing quote, arrays and
objects at their closing brackets, and what separates items and members begins no value.  So two
values whose texts begin the same row of characters are equal, and so is what follows them
(`write_append_inj`).  The main statement is `compact_inj`. -/

namespace BuildPlan.Json

/-- No value begins with the bracket that closes an array. -/
theorem write_append_ne (v : Json) (rest rest' : List Char) : write v ++ rest ≠ ']' :: rest' := by
  cases v <;> simp [write, Quoted.encode]

mutual

/-- Values whose texts begin the same row of characters are equal, and so is what follows. -/
theorem write_append_inj : ∀ {v w : Json} {rest rest' : List Char},
    write v ++ rest = write w ++ rest' → v = w ∧ rest = rest'
  | .text s, .text t, rest, rest', h => by
      rw [write, write] at h
      obtain ⟨hst, hrest⟩ := Quoted.encode_append_inj h
      exact ⟨congrArg Json.text (String.toList_inj.1 hst), hrest⟩
  | .array vs, .array ws, rest, rest', h => by
      simp only [write, List.cons_append, List.append_assoc, List.nil_append] at h
      obtain ⟨hvs, hrest⟩ := writeItems_append_inj (List.cons.inj h).2
      exact ⟨congrArg Json.array hvs, hrest⟩
  | .object ms, .object ns, rest, rest', h => by
      simp only [write, List.cons_append, List.append_assoc, List.nil_append] at h
      obtain ⟨hms, hrest⟩ := writeMembers_append_inj (List.cons.inj h).2
      exact ⟨congrArg Json.object hms, hrest⟩
  | .text _, .array _, _, _, h => by simp [write, Quoted.encode] at h
  | .text _, .object _, _, _, h => by simp [write, Quoted.encode] at h
  | .array _, .text _, _, _, h => by simp [write, Quoted.encode] at h
  | .array _, .object _, _, _, h => by simp [write] at h
  | .object _, .text _, _, _, h => by simp [write, Quoted.encode] at h
  | .object _, .array _, _, _, h => by simp [write] at h

theorem writeItems_append_inj : ∀ {vs ws : List Json} {rest rest' : List Char},
    writeItems vs ++ ']' :: rest = writeItems ws ++ ']' :: rest' → vs = ws ∧ rest = rest'
  | [], [], _, _, h => ⟨rfl, (List.cons.inj h).2⟩
  | [], w :: ws, _, _, h => by
      rw [writeItems, writeItems, List.append_assoc] at h
      exact absurd h.symm (write_append_ne w _ _)
  | v :: vs, [], _, _, h => by
      rw [writeItems, writeItems, List.append_assoc] at h
      exact absurd h (write_append_ne v _ _)
  | v :: vs, w :: ws, _, _, h => by
      rw [writeItems, writeItems, List.append_assoc, List.append_assoc] at h
      obtain ⟨rfl, hmore⟩ := write_append_inj h
      obtain ⟨rfl, hrest⟩ := writeMoreItems_append_inj hmore
      exact ⟨rfl, hrest⟩

theorem writeMoreItems_append_inj : ∀ {vs ws : List Json} {rest rest' : List Char},
    writeMoreItems vs ++ ']' :: rest = writeMoreItems ws ++ ']' :: rest' → vs = ws ∧ rest = rest'
  | [], [], _, _, h => ⟨rfl, (List.cons.inj h).2⟩
  | [], _ :: _, _, _, h => by simp [writeMoreItems] at h
  | _ :: _, [], _, _, h => by simp [writeMoreItems] at h
  | v :: vs, w :: ws, _, _, h => by
      simp only [writeMoreItems, List.cons_append, List.append_assoc] at h
      obtain ⟨rfl, hmore⟩ := write_append_inj (List.cons.inj h).2
      obtain ⟨rfl, hrest⟩ := writeMoreItems_append_inj hmore
      exact ⟨rfl, hrest⟩

theorem writeMembers_append_inj : ∀ {ms ns : List (String × Json)} {rest rest' : List Char},
    writeMembers ms ++ '\x7d' :: rest = writeMembers ns ++ '\x7d' :: rest' →
      ms = ns ∧ rest = rest'
  | [], [], _, _, h => ⟨rfl, (List.cons.inj h).2⟩
  | [], (_, _) :: _, _, _, h => by simp [writeMembers, Quoted.encode] at h
  | (_, _) :: _, [], _, _, h => by simp [writeMembers, Quoted.encode] at h
  | (k, v) :: ms, (l, w) :: ns, _, _, h => by
      simp only [writeMembers, List.cons_append, List.append_assoc] at h
      obtain ⟨hkl, hvalue⟩ := Quoted.encode_append_inj h
      obtain rfl := String.toList_inj.1 hkl
      obtain ⟨rfl, hmore⟩ := write_append_inj (List.cons.inj hvalue).2
      obtain ⟨rfl, hrest⟩ := writeMoreMembers_append_inj hmore
      exact ⟨rfl, hrest⟩

theorem writeMoreMembers_append_inj : ∀ {ms ns : List (String × Json)} {rest rest' : List Char},
    writeMoreMembers ms ++ '\x7d' :: rest = writeMoreMembers ns ++ '\x7d' :: rest' →
      ms = ns ∧ rest = rest'
  | [], [], _, _, h => ⟨rfl, (List.cons.inj h).2⟩
  | [], (_, _) :: _, _, _, h => by simp [writeMoreMembers] at h
  | (_, _) :: _, [], _, _, h => by simp [writeMoreMembers] at h
  | (k, v) :: ms, (l, w) :: ns, _, _, h => by
      simp only [writeMoreMembers, List.cons_append, List.append_assoc] at h
      obtain ⟨hkl, hvalue⟩ := Quoted.encode_append_inj (List.cons.inj h).2
      obtain rfl := String.toList_inj.1 hkl
      obtain ⟨rfl, hmore⟩ := write_append_inj (List.cons.inj hvalue).2
      obtain ⟨rfl, hrest⟩ := writeMoreMembers_append_inj hmore
      exact ⟨rfl, hrest⟩

end

/-- Values have the same compact text only if they are equal. -/
theorem compact_inj {v w : Json} : v.compact = w.compact ↔ v = w := by
  constructor
  · intro h
    have hwrite : write v ++ [] = write w ++ [] := by
      rw [List.append_nil, List.append_nil]
      exact String.ofList_inj.1 h
    exact (write_append_inj hwrite).1
  · rintro rfl
    rfl

end BuildPlan.Json
