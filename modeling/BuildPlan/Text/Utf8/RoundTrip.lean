import BuildPlan.Text.Utf8

/-! # Reading back what was written

The bytes of every character form one piece (`foldl_collect_encodeChar`), so the bytes of a text
are read as that text (`decode_encode`). -/

namespace BuildPlan.Utf8

theorem toNat_ofNat {n : Nat} (h : n < 256) : (UInt8.ofNat n).toNat = n := by
  rw [UInt8.toNat_ofNat']
  exact Nat.mod_eq_of_lt h

theorem collect_eq {found more : List Piece} {state next : Option Open} {b : UInt8}
    (h : advance state b = (more, next)) :
    collect (found, state) b = (more.reverse ++ found, next) := by
  simp only [collect, h]

/-- A byte in the range that is asked for goes on with an open character. -/
theorem advance_later {o : Open} {n : Nat} {next : Range} {later : List Range} (hn : n < 256)
    (hfirst : o.next.first ≤ n) (hlast : n ≤ o.next.last) (hl : o.later = next :: later) :
    advance (some o) (.ofNat n)
      = ([], some ⟨o.value * 64 + n % 64, o.length + 1, next, later⟩) := by
  simp [advance, Range.contains, toNat_ofNat hn, hfirst, hlast, hl]

/-- The last byte of an open character completes it. -/
theorem advance_last {o : Open} {n : Nat} (hn : n < 256) (hfirst : o.next.first ≤ n)
    (hlast : n ≤ o.next.last) (hl : o.later = []) :
    advance (some o) (.ofNat n) = ([.char (Char.ofNat (o.value * 64 + n % 64))], none) := by
  simp [advance, Range.contains, toNat_ofNat hn, hfirst, hlast, hl]

/-! ### First bytes -/

theorem advance_one {v : Nat} (h : v ≤ 127) :
    advance none (.ofNat v) = ([.char (Char.ofNat v)], none) := by
  simp [advance, openWith, toNat_ofNat (show v < 256 by omega), show v < 128 by omega]

theorem advance_two {v : Nat} (h : 127 < v) (h' : v ≤ 2047) :
    advance none (.ofNat (v / 64 % 32 + 192)) = ([], some ⟨v / 64, 1, .continuation, []⟩) := by
  have hn : v / 64 % 32 + 192 < 256 := by omega
  have h1 : ¬v / 64 % 32 + 192 < 128 := by omega
  have h2 : ¬v / 64 % 32 + 192 < 194 := by omega
  have h3 : v / 64 % 32 + 192 < 224 := by omega
  have hm : (v / 64 % 32 + 192) % 32 = v / 64 := by omega
  simp only [advance, openWith, toNat_ofNat hn, if_neg h1, if_neg h2, if_pos h3, hm]

/-- The first byte of three opens a character whose second byte is in the range asked for. -/
theorem advance_three {v : Nat} (h : 2047 < v) (h' : v ≤ 65535) (hv : v < 55296 ∨ 57343 < v) :
    ∃ r : Range, r.first ≤ v / 64 % 64 + 128 ∧ v / 64 % 64 + 128 ≤ r.last ∧
      advance none (.ofNat (v / 4096 % 16 + 224))
        = ([], some ⟨v / 4096, 1, r, [.continuation]⟩) := by
  have hn : v / 4096 % 16 + 224 < 256 := by omega
  have h1 : ¬v / 4096 % 16 + 224 < 128 := by omega
  have h2 : ¬v / 4096 % 16 + 224 < 194 := by omega
  have h3 : ¬v / 4096 % 16 + 224 < 224 := by omega
  have h6 : v / 4096 % 16 + 224 < 240 := by omega
  have hm : (v / 4096 % 16 + 224) % 16 = v / 4096 := by omega
  by_cases h4 : v / 4096 % 16 + 224 = 224
  · refine ⟨⟨0xA0, 0xBF⟩, ?_, ?_, ?_⟩
    · show 160 ≤ _
      omega
    · show _ ≤ 191
      omega
    · have h0 : v / 4096 = 0 := by omega
      simp only [advance, openWith, toNat_ofNat hn, if_neg h1, if_neg h2, if_neg h3, if_pos h4]
      rw [h0]
  by_cases h5 : v / 4096 % 16 + 224 = 237
  · refine ⟨⟨0x80, 0x9F⟩, ?_, ?_, ?_⟩
    · show 128 ≤ _
      omega
    · show _ ≤ 159
      omega
    · have h0 : v / 4096 = 13 := by omega
      simp only [advance, openWith, toNat_ofNat hn, if_neg h1, if_neg h2, if_neg h3, if_neg h4,
        if_pos h5]
      rw [h0]
  · refine ⟨.continuation, ?_, ?_, ?_⟩
    · show 128 ≤ _
      omega
    · show _ ≤ 191
      omega
    · simp only [advance, openWith, toNat_ofNat hn, if_neg h1, if_neg h2, if_neg h3, if_neg h4,
        if_neg h5, if_pos h6, hm]

/-- The first byte of four opens a character whose second byte is in the range asked for. -/
theorem advance_four {v : Nat} (h : 65535 < v) (h' : v < 1114112) :
    ∃ r : Range, r.first ≤ v / 4096 % 64 + 128 ∧ v / 4096 % 64 + 128 ≤ r.last ∧
      advance none (.ofNat (v / 262144 % 8 + 240))
        = ([], some ⟨v / 262144, 1, r, [.continuation, .continuation]⟩) := by
  have hn : v / 262144 % 8 + 240 < 256 := by omega
  have h1 : ¬v / 262144 % 8 + 240 < 128 := by omega
  have h2 : ¬v / 262144 % 8 + 240 < 194 := by omega
  have h3 : ¬v / 262144 % 8 + 240 < 224 := by omega
  have h4 : ¬v / 262144 % 8 + 240 = 224 := by omega
  have h5 : ¬v / 262144 % 8 + 240 = 237 := by omega
  have h6 : ¬v / 262144 % 8 + 240 < 240 := by omega
  have hm : (v / 262144 % 8 + 240) % 8 = v / 262144 := by omega
  by_cases h7 : v / 262144 % 8 + 240 = 240
  · refine ⟨⟨0x90, 0xBF⟩, ?_, ?_, ?_⟩
    · show 144 ≤ _
      omega
    · show _ ≤ 191
      omega
    · have h0 : v / 262144 = 0 := by omega
      simp only [advance, openWith, toNat_ofNat hn, if_neg h1, if_neg h2, if_neg h3, if_neg h4,
        if_neg h5, if_neg h6, if_pos h7]
      rw [h0]
  by_cases h8 : v / 262144 % 8 + 240 < 244
  · refine ⟨.continuation, ?_, ?_, ?_⟩
    · show 128 ≤ _
      omega
    · show _ ≤ 191
      omega
    · simp only [advance, openWith, toNat_ofNat hn, if_neg h1, if_neg h2, if_neg h3, if_neg h4,
        if_neg h5, if_neg h6, if_neg h7, if_pos h8, hm]
  · have h9 : v / 262144 % 8 + 240 = 244 := by omega
    refine ⟨⟨0x80, 0x8F⟩, ?_, ?_, ?_⟩
    · show 128 ≤ _
      omega
    · show _ ≤ 143
      omega
    · have h0 : v / 262144 = 4 := by omega
      simp only [advance, openWith, toNat_ofNat hn, if_neg h1, if_neg h2, if_neg h3, if_neg h4,
        if_neg h5, if_neg h6, if_neg h7, if_neg h8, if_pos h9]
      rw [h0]

/-! ### Whole texts -/

/-- The bytes of a character are one piece. -/
theorem foldl_collect_encodeChar (c : Char) (found : List Piece) :
    (String.utf8EncodeChar c).foldl collect (found, none) = (.char c :: found, none) := by
  have hv : c.val.toNat < 55296 ∨ 57343 < c.val.toNat ∧ c.val.toNat < 1114112 := c.valid
  have hc : Char.ofNat c.val.toNat = c := c.ofNat_toNat
  unfold String.utf8EncodeChar
  generalize c.val.toNat = v at hv hc
  dsimp only
  have hcont : ∀ m, Range.continuation.first ≤ m % 64 + 128 ∧
      m % 64 + 128 ≤ Range.continuation.last := by
    intro m
    show 128 ≤ _ ∧ _ ≤ 191
    omega
  split
  next h1 => rw [List.foldl_cons, collect_eq (advance_one h1), hc]; rfl
  next h1 =>
  split
  next h2 =>
    rw [List.foldl_cons, collect_eq (advance_two (by omega) h2), List.foldl_cons,
      collect_eq (advance_last (by omega) (hcont v).1 (hcont v).2 rfl)]
    rw [show v / 64 * 64 + (v % 64 + 128) % 64 = v by omega, hc]
    rfl
  next h2 =>
  split
  next h3 =>
    obtain ⟨r, hfirst, hlast, hopen⟩ := advance_three (v := v) (by omega) h3 (by omega)
    rw [List.foldl_cons, collect_eq hopen, List.foldl_cons,
      collect_eq (advance_later (by omega) hfirst hlast rfl), List.foldl_cons,
      collect_eq (advance_last (by omega) (hcont v).1 (hcont v).2 rfl)]
    rw [show (v / 4096 * 64 + (v / 64 % 64 + 128) % 64) * 64 + (v % 64 + 128) % 64 = v by omega, hc]
    rfl
  next h3 =>
    obtain ⟨r, hfirst, hlast, hopen⟩ := advance_four (v := v) (by omega) (by omega)
    rw [List.foldl_cons, collect_eq hopen, List.foldl_cons,
      collect_eq (advance_later (by omega) hfirst hlast rfl), List.foldl_cons,
      collect_eq (advance_later (by omega) (hcont (v / 64)).1 (hcont (v / 64)).2 rfl),
      List.foldl_cons, collect_eq (advance_last (by omega) (hcont v).1 (hcont v).2 rfl)]
    rw [show ((v / 262144 * 64 + (v / 4096 % 64 + 128) % 64) * 64 + (v / 64 % 64 + 128) % 64) * 64
      + (v % 64 + 128) % 64 = v by omega, hc]
    rfl

theorem foldl_collect_encode (cs : List Char) (found : List Piece) :
    (cs.flatMap String.utf8EncodeChar).foldl collect (found, none)
      = ((cs.map Piece.char).reverse ++ found, none) := by
  induction cs generalizing found with
  | nil => rfl
  | cons c cs ih =>
      rw [List.flatMap_cons, List.foldl_append, foldl_collect_encodeChar, ih]
      simp

theorem pieces_encode (s : String) : pieces (encode s) = s.toList.map .char := by
  rw [pieces, encode, foldl_collect_encode]
  simp

theorem malformed?_chars (start : Nat) (cs : List Char) :
    malformed? start (cs.map .char) = none := by
  induction cs generalizing start with
  | nil => rfl
  | cons c cs ih => exact ih _

/-- Reading the bytes of a text gives the text back. -/
theorem decode_encode (s : String) : decode (encode s) = .ok s := by
  have hchars : (s.toList.map Piece.char).filterMap Piece.char? = s.toList := by
    rw [List.filterMap_map]
    exact List.filterMap_some
  simp only [decode, pieces_encode, malformed?_chars, hchars, String.ofList_toList]

/-- Different texts have different bytes. -/
theorem encode_injective {s s' : String} (h : encode s = encode s') : s = s' := by
  have hdecode := congrArg decode h
  rw [decode_encode, decode_encode] at hdecode
  exact Except.ok.inj hdecode

end BuildPlan.Utf8
