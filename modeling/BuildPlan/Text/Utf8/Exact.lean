import Mathlib.Algebra.Ring.Nat
import BuildPlan.Text.Utf8.RoundTrip

/-! # Only texts are read

Bytes that are read as a text are the bytes of that text, so every text is written in one way only
(`decode_eq_ok_iff`).  A character that is read in part was begun by bytes that every character
starts with which it can still become (`Open.Begins`); what is not the start of a character leaves
a malformed part behind, which is never mended (`suffix_foldl_collect`). -/

namespace BuildPlan.Utf8

/-! ### Characters by their numbers -/

theorem toNat_val_ofNat {v : Nat} (hv : v.isValidChar) : (Char.ofNat v).val.toNat = v := by
  unfold Char.ofNat
  rw [dif_pos hv]
  rfl

/-- The last `n` bytes of a character that has more of them, by its number. -/
def lastBytes : Nat → Nat → Bytes
  | 0, _ => []
  | n + 1, v => .ofNat (v / 64 ^ n % 64 + 128) :: lastBytes n v

theorem encodeChar_of_two {v : Nat} (h : 128 ≤ v) (h' : v < 2048) :
    String.utf8EncodeChar (.ofNat v) = .ofNat (v / 64 + 192) :: lastBytes 1 v := by
  have hv : v.isValidChar := .inl (by omega)
  have hfirst : v / 64 % 32 = v / 64 := by omega
  unfold String.utf8EncodeChar
  rw [toNat_val_ofNat hv]
  dsimp only
  rw [if_neg (by omega), if_pos (by omega), hfirst]
  simp [lastBytes]

theorem encodeChar_of_three {v : Nat} (h : 2048 ≤ v) (h' : v < 65536)
    (hv : v < 55296 ∨ 57343 < v) :
    String.utf8EncodeChar (.ofNat v) = .ofNat (v / 4096 + 224) :: lastBytes 2 v := by
  have hv : v.isValidChar := hv.imp_right fun hv => ⟨hv, by omega⟩
  have hfirst : v / 4096 % 16 = v / 4096 := by omega
  unfold String.utf8EncodeChar
  rw [toNat_val_ofNat hv]
  dsimp only
  rw [if_neg (by omega), if_neg (by omega), if_pos (by omega), hfirst]
  simp [lastBytes]

theorem encodeChar_of_four {v : Nat} (h : 65536 ≤ v) (h' : v < 1114112) :
    String.utf8EncodeChar (.ofNat v) = .ofNat (v / 262144 + 240) :: lastBytes 3 v := by
  have hv : v.isValidChar := .inr ⟨by omega, h'⟩
  have hfirst : v / 262144 % 8 = v / 262144 := by omega
  unfold String.utf8EncodeChar
  rw [toNat_val_ofNat hv]
  dsimp only
  rw [if_neg (by omega), if_neg (by omega), if_neg (by omega), hfirst]
  simp [lastBytes]

/-! ### Characters that are read in part -/

/-- The bytes with which a character was begun: whatever follows in the ranges that are asked for,
the character is written with these bytes first. -/
structure Open.Begins (o : Open) (bytes : Bytes) : Prop where
  later_eq : ∀ r ∈ o.later, r = .continuation
  next_le : 128 ≤ o.next.first ∧ o.next.last ≤ 191
  encodes : ∀ v, v / 64 ^ (o.later.length + 1) = o.value →
    o.next.first ≤ v / 64 ^ o.later.length % 64 + 128 →
    v / 64 ^ o.later.length % 64 + 128 ≤ o.next.last →
    String.utf8EncodeChar (.ofNat v) = bytes ++ lastBytes (o.later.length + 1) v

theorem begins_two {b : UInt8} (h : 194 ≤ b.toNat) (h' : b.toNat < 224) :
    (⟨b.toNat % 32, 1, .continuation, []⟩ : Open).Begins [b] where
  later_eq := by simp
  next_le := ⟨Nat.le_refl _, Nat.le_refl _⟩
  encodes v hv _ _ := by
    have hvalue : v / 64 = b.toNat % 32 := by simpa using hv
    have hb : v / 64 + 192 = b.toNat := by omega
    rw [encodeChar_of_two (by omega) (by omega), hb, UInt8.ofNat_toNat]
    rfl

/-- A range for the second byte of three leaves out overlong forms and halves of pairs. -/
theorem begins_three {b : UInt8} {value first last : Nat}
    (hb : 224 ≤ b.toNat ∧ b.toNat < 240 ∧ b.toNat % 16 = value)
    (hrange : 128 ≤ first ∧ last ≤ 191)
    (hsecond : 32 ≤ value * 64 + (first - 128) ∧
      (value * 64 + (last - 128) < 864 ∨ 896 ≤ value * 64 + (first - 128))) :
    (⟨value, 1, ⟨first, last⟩, [.continuation]⟩ : Open).Begins [b] where
  later_eq := by simp
  next_le := hrange
  encodes v hv hfirst hlast := by
    have hvalue : v / 4096 = value := by simpa using hv
    have hfirst : first ≤ v / 64 % 64 + 128 := by simpa using hfirst
    have hlast : v / 64 % 64 + 128 ≤ last := by simpa using hlast
    have hbyte : v / 4096 + 224 = b.toNat := by omega
    rw [encodeChar_of_three (by omega) (by omega) (by omega), hbyte, UInt8.ofNat_toNat]
    rfl

/-- A range for the second byte of four leaves out overlong forms and what is no character. -/
theorem begins_four {b : UInt8} {value first last : Nat}
    (hb : 240 ≤ b.toNat ∧ b.toNat < 248 ∧ b.toNat % 8 = value)
    (hrange : 128 ≤ first ∧ last ≤ 191)
    (hsecond : 16 ≤ value * 64 + (first - 128) ∧ value * 64 + (last - 128) < 272) :
    (⟨value, 1, ⟨first, last⟩, [.continuation, .continuation]⟩ : Open).Begins [b] where
  later_eq := by simp
  next_le := hrange
  encodes v hv hfirst hlast := by
    have hvalue : v / 262144 = value := by simpa using hv
    have hfirst : first ≤ v / 4096 % 64 + 128 := by simpa using hfirst
    have hlast : v / 4096 % 64 + 128 ≤ last := by simpa using hlast
    have hbyte : v / 262144 + 240 = b.toNat := by omega
    rw [encodeChar_of_four (by omega) (by omega), hbyte, UInt8.ofNat_toNat]
    rfl

/-- A byte in the range that is asked for goes on with what was begun. -/
theorem Open.Begins.later {o : Open} {bytes : Bytes} {b : UInt8} {next : Range}
    {later : List Range} (ho : o.Begins bytes) (hb : o.next.contains b = true)
    (hl : o.later = next :: later) :
    (⟨o.value * 64 + b.toNat % 64, o.length + 1, next, later⟩ : Open).Begins (bytes ++ [b]) := by
  obtain ⟨hlater, hrange, hencodes⟩ := ho
  rw [hl] at hlater hencodes
  obtain ⟨rfl, hrest⟩ := List.forall_mem_cons.1 hlater
  simp only [Range.contains, Bool.and_eq_true, decide_eq_true_eq] at hb
  refine ⟨hrest, ⟨Nat.le_refl _, Nat.le_refl _⟩, fun v hv _ _ => ?_⟩
  dsimp only at hv
  rw [List.length_cons] at hencodes
  have hvalue : v / 64 ^ (later.length + 1 + 1) = o.value := by
    rw [Nat.pow_succ, ← Nat.div_div_eq_div_mul, hv]
    omega
  have hbyte : v / 64 ^ (later.length + 1) % 64 + 128 = b.toNat := by
    rw [hv]
    omega
  have hencode := hencodes v hvalue (by omega) (by omega)
  rw [lastBytes, hbyte, UInt8.ofNat_toNat] at hencode
  rw [hencode, List.append_assoc]
  rfl

/-- The last byte of a character completes what was begun. -/
theorem Open.Begins.last {o : Open} {bytes : Bytes} {b : UInt8} (ho : o.Begins bytes)
    (hb : o.next.contains b = true) (hl : o.later = []) :
    String.utf8EncodeChar (.ofNat (o.value * 64 + b.toNat % 64)) = bytes ++ [b] := by
  obtain ⟨-, hrange, hencodes⟩ := ho
  simp only [Range.contains, Bool.and_eq_true, decide_eq_true_eq] at hb
  rw [hl] at hencodes
  have hencode := hencodes (o.value * 64 + b.toNat % 64)
  simp only [List.length_nil, Nat.pow_zero, Nat.pow_one, Nat.div_one, Nat.zero_add] at hencode
  have hbyte : (o.value * 64 + b.toNat % 64) % 64 + 128 = b.toNat := by omega
  rw [hbyte] at hencode
  rw [hencode (by omega) hb.1 hb.2, lastBytes, lastBytes, Nat.pow_zero, Nat.div_one, hbyte,
    UInt8.ofNat_toNat]

/-! ### One more byte -/

/-- The bytes of the character that is read in part, if there is one. -/
def Holding : Option Open → Bytes → Prop
  | none, bytes => bytes = []
  | some o, bytes => o.Begins bytes

/-- What bytes were read into: a malformed part, or characters and the start of one. -/
def Reads (read : List Piece × Option Open) (bytes : Bytes) : Prop :=
  (∃ p ∈ read.1, p.char? = none) ∨
    ∃ (cs : List Char) (held : Bytes), read.1 = cs.map .char ∧ Holding read.2 held ∧
      bytes = cs.flatMap String.utf8EncodeChar ++ held

theorem reads_of_begins {o : Open} {bytes : Bytes} (h : o.Begins bytes) :
    Reads ([], some o) bytes :=
  .inr ⟨[], bytes, rfl, h, rfl⟩

theorem reads_of_encodeChar {c : Char} {bytes : Bytes} (h : String.utf8EncodeChar c = bytes) :
    Reads ([.char c], none) bytes :=
  .inr ⟨[c], [], rfl, rfl, by simp [h]⟩

theorem reads_openWith (b : UInt8) : Reads (openWith b) [b] := by
  have hb : b.toNat < 256 := b.toNat_lt
  unfold openWith
  dsimp only
  split
  next h =>
    have hv : b.toNat.isValidChar := .inl (by omega)
    refine reads_of_encodeChar ?_
    unfold String.utf8EncodeChar
    rw [toNat_val_ofNat hv]
    dsimp only
    rw [if_pos (by omega), UInt8.ofNat_toNat]
  split
  next => exact .inl ⟨_, List.mem_singleton_self _, rfl⟩
  split
  next => exact reads_of_begins (begins_two (by omega) (by omega))
  -- In each of the other cases the range that is asked for bounds the number of the character.
  split
  next => exact reads_of_begins (begins_three (by omega) (by omega) (by omega))
  split
  next => exact reads_of_begins (begins_three (by omega) (by omega) (by omega))
  split
  next => exact reads_of_begins (begins_three (by omega) (by omega) (by omega))
  split
  next => exact reads_of_begins (begins_four (by omega) (by omega) (by omega))
  split
  next => exact reads_of_begins (begins_four (by omega) (by omega) (by omega))
  split
  next => exact reads_of_begins (begins_four (by omega) (by omega) (by omega))
  next => exact .inl ⟨_, List.mem_singleton_self _, rfl⟩

theorem reads_advance {state : Option Open} {held : Bytes} (h : Holding state held) (b : UInt8) :
    Reads (advance state b) (held ++ [b]) := by
  cases state with
  | none =>
      obtain rfl : held = [] := h
      exact reads_openWith b
  | some o =>
      unfold advance
      by_cases hb : o.next.contains b = true
      · simp only [hb, if_true]
        split
        next hl => exact reads_of_encodeChar (Open.Begins.last h hb hl)
        next hl => exact reads_of_begins (Open.Begins.later h hb hl)
      · simp only [hb]
        exact .inl ⟨_, List.mem_cons_self, rfl⟩

/-! ### All bytes -/

/-- The pieces that are found stay found. -/
theorem suffix_foldl_collect (bytes : Bytes) (found : List Piece × Option Open) :
    found.1 <:+ (bytes.foldl collect found).1 := by
  induction bytes generalizing found with
  | nil => exact List.suffix_refl _
  | cons b bytes ih => exact (List.suffix_append _ _).trans (ih (collect found b))

/-- Bytes after a start of a character are read into characters and maybe another start. -/
theorem reads_foldl_collect {state : Option Open} {held : Bytes} (h : Holding state held)
    (found : List Piece) (bytes : Bytes) :
    ∃ more, (bytes.foldl collect (found, state)).1 = more.reverse ++ found ∧
      Reads (more, (bytes.foldl collect (found, state)).2) (held ++ bytes) := by
  induction bytes generalizing found state held with
  | nil => exact ⟨[], rfl, .inr ⟨[], held, rfl, h, by simp⟩⟩
  | cons b bytes ih =>
      have hcollect : collect (found, state) b =
          ((advance state b).1.reverse ++ found, (advance state b).2) := rfl
      rw [List.foldl_cons, hcollect]
      rcases reads_advance h b with ⟨p, hp, hbad⟩ | ⟨cs, held', hcs, hheld, hbytes⟩
      · -- A malformed part is found, and stays.
        obtain ⟨more, hmore⟩ := suffix_foldl_collect bytes
          ((advance state b).1.reverse ++ found, (advance state b).2)
        refine ⟨(advance state b).1 ++ more.reverse, ?_, .inl ⟨p, List.mem_append_left _ hp, hbad⟩⟩
        rw [← hmore]
        simp
      · obtain ⟨more, hmore, hreads⟩ := ih hheld ((advance state b).1.reverse ++ found)
        refine ⟨(advance state b).1 ++ more, by rw [hmore]; simp, ?_⟩
        rcases hreads with ⟨p, hp, hbad⟩ | ⟨cs', held'', hcs', hheld', hbytes'⟩
        · exact .inl ⟨p, List.mem_append_right _ hp, hbad⟩
        · refine .inr ⟨cs ++ cs', held'', ?_, hheld', ?_⟩
          · rw [List.map_append, ← hcs, ← hcs']
          · rw [List.append_cons, hbytes, List.append_assoc, hbytes', List.flatMap_append,
              List.append_assoc]

/-- Without a malformed part all pieces are characters. -/
theorem char?_ne_none_of_malformed? {start : Nat} {found : List Piece}
    (h : malformed? start found = none) : ∀ p ∈ found, p.char? ≠ none := by
  induction found generalizing start with
  | nil => simp
  | cons p found ih =>
      cases p with
      | char c => exact List.forall_mem_cons.2 ⟨by simp [Piece.char?], ih h⟩
      | bad length => cases h
      | cut length => cases h

theorem eq_encode_of_malformed? {bytes : Bytes} (h : malformed? 0 (pieces bytes) = none) :
    bytes = encode (String.ofList ((pieces bytes).filterMap Piece.char?)) := by
  have hgood := char?_ne_none_of_malformed? h
  have hstart : Holding none [] := rfl
  obtain ⟨more, hmore, hreads⟩ := reads_foldl_collect hstart [] bytes
  rw [List.append_nil] at hmore
  unfold pieces at hgood ⊢
  generalize bytes.foldl collect ([], none) = read at hgood hmore hreads
  obtain ⟨found, state⟩ := read
  obtain rfl : found = more.reverse := hmore
  cases state with
  | some o => exact absurd rfl (hgood (.cut o.length) (by simp))
  | none =>
      rcases hreads with ⟨p, hp, hbad⟩ | ⟨cs, held, hcs, hheld, hbytes⟩
      · exact absurd hbad (hgood p (by simpa using hp))
      · obtain rfl : held = [] := hheld
        obtain rfl : more = cs.map .char := hcs
        have hchars : (cs.map Piece.char).filterMap Piece.char? = cs := by
          rw [List.filterMap_map]
          exact List.filterMap_some
        simp only [List.reverse_reverse, hchars, encode, String.toList_ofList]
        simpa using hbytes

/-- Bytes are read as a text exactly if they are the bytes of the text. -/
theorem decode_eq_ok_iff {bytes : Bytes} {s : String} :
    decode bytes = .ok s ↔ bytes = encode s := by
  constructor
  · intro h
    unfold decode at h
    dsimp only at h
    split at h
    next hgood =>
      obtain rfl := Except.ok.inj h
      exact eq_encode_of_malformed? hgood
    next => cases h
  · rintro rfl
    exact decode_encode s

end BuildPlan.Utf8
