import BuildPlan.Json.Quoted
import BuildPlan.Text.Utf8.Exact

/-! # The spellings of a text

Between quotes a character may stand for itself, behind a backslash by a letter, or by the
hexadecimal numbers of its one or two UTF-16 units (`Spelling`).  A JSON text that is one string
spells every character of its text in one of these ways, with white space around the quotes
(`Spells`).  The reader accepts these texts and no others: it takes every spelling of a text for
this text (`decode?_eq_some_iff`). -/

namespace BuildPlan.Json.Quoted

variable {a c : Char} {m n : Nat} {w v body text rest source before after : List Char}

/-! ### Hexadecimal digits of either case -/

/-- A hexadecimal digit of either case, with its value. -/
def HexDigit (c : Char) (n : Nat) : Prop :=
  "0123456789abcdef".toList[n]? = some c ∨ "0123456789ABCDEF".toList[n]? = some c

instance : Decidable (HexDigit c n) := inferInstanceAs (Decidable (_ ∨ _))

theorem HexDigit.lt (h : HexDigit c n) : n < 16 := by
  rcases h with h | h <;> exact (List.getElem?_eq_some_iff.1 h).1

theorem toNat_lt_of_digitValue? (h : digitValue? c = some n) : c.toNat < 128 := by
  have hle : ∀ {d : Char}, c ≤ d → c.toNat ≤ d.toNat := fun hcd => hcd
  unfold digitValue? at h
  split at h
  next hc => exact Nat.lt_of_le_of_lt (hle hc.2) (by decide)
  split at h
  next hc => exact Nat.lt_of_le_of_lt (hle hc.2) (by decide)
  split at h
  next hc => exact Nat.lt_of_le_of_lt (hle hc.2) (by decide)
  next => cases h

theorem digitValue?_eq_some_iff : digitValue? c = some n ↔ HexDigit c n := by
  constructor
  · intro h
    -- Digits are among the first 128 characters, and these can be gone through.
    have hascii : ∀ k < 128, ∀ n ∈ digitValue? (Char.ofNat k), HexDigit (Char.ofNat k) n := by
      decide
    have hc := hascii c.toNat (toNat_lt_of_digitValue? h)
    rw [Char.ofNat_toNat] at hc
    exact hc n h
  · intro h
    have hdigits : ∀ n < 16, "0123456789abcdef".toList[n]?.bind digitValue? = some n ∧
        "0123456789ABCDEF".toList[n]?.bind digitValue? = some n := by
      decide
    obtain ⟨hlower, hupper⟩ := hdigits n h.lt
    rcases h with h | h
    · rwa [h] at hlower
    · rwa [h] at hupper

/-- Four hexadecimal digits, with their number. -/
inductive HexUnit : List Char → Nat → Prop
  | intro {a b c d : Char} {i j k l : Nat} : HexDigit a i → HexDigit b j → HexDigit c k →
      HexDigit d l → HexUnit [a, b, c, d] (i * 4096 + j * 256 + k * 16 + l)

theorem HexUnit.lt (h : HexUnit w n) : n < 0x10000 := by
  obtain ⟨ha, hb, hc, hd⟩ := h
  have ha := ha.lt
  have hb := hb.lt
  have hc := hc.lt
  have hd := hd.lt
  omega

theorem hexUnit_iff : HexUnit w n ↔ ∃ a b c d, w = [a, b, c, d] ∧ hexValue4? a b c d = some n := by
  constructor
  · rintro ⟨ha, hb, hc, hd⟩
    refine ⟨_, _, _, _, rfl, ?_⟩
    rw [← digitValue?_eq_some_iff] at ha hb hc hd
    simp only [hexValue4?, ha, hb, hc, hd, Option.some.injEq]
    omega
  · rintro ⟨a, b, c, d, rfl, h⟩
    unfold hexValue4? at h
    split at h
    next i j k l ha hb hc hd =>
      rw [digitValue?_eq_some_iff] at ha hb hc hd
      have hn : n = i * 4096 + j * 256 + k * 16 + l := by
        have := Option.some.inj h
        omega
      rw [hn]
      exact .intro ha hb hc hd
    next => cases h

/-! ### The ways of writing a character -/

/-- The letters of the short escapes, with the characters they stand for. -/
def shortEscapes : List (Char × Char) :=
  [('\x22', '\x22'), ('\\', '\\'), ('/', '/'), ('b', '\x08'), ('f', '\x0c'), ('n', '\n'),
    ('r', '\r'), ('t', '\t')]

theorem shortEscape?_eq_some_iff : shortEscape? a = some c ↔ (a, c) ∈ shortEscapes := by
  constructor
  · intro h
    unfold shortEscape? at h
    repeat' split at h
    all_goals cases h <;> subst_vars <;> decide
  · intro h
    have hread : ∀ p ∈ shortEscapes, shortEscape? p.1 = some p.2 := by decide
    exact hread (a, c) h

/-- The ways of writing a character between quotes: as it is, by the letter of a short escape, by
its number, or, beyond the numbers of four digits, by the two halves of a surrogate pair. -/
inductive Spelling : List Char → Char → Prop
  | plain {c : Char} : c ≠ '\x22' → c ≠ '\\' → 0x20 ≤ c.toNat → Spelling [c] c
  | short {a c : Char} : (a, c) ∈ shortEscapes → Spelling ['\\', a] c
  | unit {w : List Char} {c : Char} : HexUnit w c.toNat → Spelling ('\\' :: 'u' :: w) c
  | pair {w v : List Char} {c : Char} : 0x10000 ≤ c.toNat →
      HexUnit w (0xD800 + (c.toNat - 0x10000) / 0x400) →
      HexUnit v (0xDC00 + (c.toNat - 0x10000) % 0x400) →
      Spelling ('\\' :: 'u' :: w ++ '\\' :: 'u' :: v) c

/-! ### Reading one character -/

theorem isHighSurrogate_iff {n : Nat} : isHighSurrogate n ↔ 0xD800 ≤ n ∧ n < 0xDC00 := by
  simp [isHighSurrogate]

theorem isLowSurrogate_iff {n : Nat} : isLowSurrogate n ↔ 0xDC00 ≤ n ∧ n < 0xE000 := by
  simp [isLowSurrogate]

/-- A backslash and one more character are read as the character they stand for. -/
theorem readBody_short {c e : Char} (hc : c ≠ 'u') (he : shortEscape? c = some e)
    (rest : List Char) :
    readBody ('\\' :: c :: rest) = (readBody rest).map fun (cs, r) => (e :: cs, r) := by
  rw [readBody, he]
  intro _ _ _ _ _ h
  exact absurd h hc

/-- Four digits that are no half of a surrogate pair are read as the character of this number. -/
theorem readBody_unit {a b c d : Char} {n : Nat} (h : hexValue4? a b c d = some n)
    (hhigh : ¬isHighSurrogate n) (hlow : ¬isLowSurrogate n) (rest : List Char) :
    readBody ('\\' :: 'u' :: a :: b :: c :: d :: rest) =
      (readBody rest).map fun (cs, r) => (Char.ofNat n :: cs, r) := by
  rw [readBody, h]
  simp only [hhigh, hlow, Bool.false_eq_true, if_false]

/-- Two halves of a surrogate pair are read as the character that they stand for together. -/
theorem readBody_pair {a b c d e f g h : Char} {m n : Nat} (hn : hexValue4? a b c d = some n)
    (hm : hexValue4? e f g h = some m) (hhigh : isHighSurrogate n) (hlow : isLowSurrogate m)
    (rest : List Char) :
    readBody ('\\' :: 'u' :: a :: b :: c :: d :: '\\' :: 'u' :: e :: f :: g :: h :: rest) =
      (readBody rest).map fun (cs, r) =>
        (Char.ofNat (0x10000 + (n - 0xD800) * 1024 + (m - 0xDC00)) :: cs, r) := by
  rw [readBody, hn]
  simp only [hhigh, if_true, hm, hlow]

/-- A character without a meaning of its own stands for itself. -/
theorem readBody_plain {c : Char} (hquote : c ≠ '\x22') (hslash : c ≠ '\\') (hc : ¬c.toNat < 32)
    (rest : List Char) : readBody (c :: rest) = (readBody rest).map fun (cs, r) => (c :: cs, r) := by
  rw [readBody, if_neg (not_or.2 ⟨hslash, hc⟩)]
  · exact hquote
  · intro _ _ _ _ _ h
    exact absurd h hslash
  · intro _ _ h
    exact absurd h hslash

/-- No character has the number of half a surrogate pair. -/
theorem toNat_range (c : Char) : c.toNat < 0xD800 ∨ 0xDFFF < c.toNat ∧ c.toNat < 0x110000 :=
  c.valid

/-- Every way of writing a character is read as this character. -/
theorem readBody_spelling_append (h : Spelling w c) (rest : List Char) :
    readBody (w ++ rest) = (readBody rest).map fun (cs, r) => (c :: cs, r) := by
  have hrange := toNat_range c
  cases h with
  | plain hquote hslash hc => exact readBody_plain hquote hslash (Nat.not_lt.2 hc) rest
  | short ha =>
      have hu : ∀ p ∈ shortEscapes, p.1 ≠ 'u' := by decide
      exact readBody_short (hu _ ha) (shortEscape?_eq_some_iff.2 ha) rest
  | unit hw =>
      obtain ⟨_, _, _, _, rfl, hvalue⟩ := hexUnit_iff.1 hw
      have hread := readBody_unit hvalue (mt isHighSurrogate_iff.1 (by omega))
        (mt isLowSurrogate_iff.1 (by omega)) rest
      rw [Char.ofNat_toNat] at hread
      exact hread
  | pair hc hw hv =>
      obtain ⟨_, _, _, _, rfl, hn⟩ := hexUnit_iff.1 hw
      obtain ⟨_, _, _, _, rfl, hm⟩ := hexUnit_iff.1 hv
      have hread := readBody_pair hn hm (isHighSurrogate_iff.2 (by omega))
        (isLowSurrogate_iff.2 (by omega)) rest
      have hnumber : 0x10000 + (0xD800 + (c.toNat - 0x10000) / 0x400 - 0xD800) * 1024 +
          (0xDC00 + (c.toNat - 0x10000) % 0x400 - 0xDC00) = c.toNat := by
        omega
      rw [hnumber, Char.ofNat_toNat] at hread
      exact hread

/-- A number of four digits that is no half of a pair is that of a character. -/
theorem spelling_unit (hw : HexUnit w n) (hhigh : ¬isHighSurrogate n) (hlow : ¬isLowSurrogate n) :
    Spelling ('\\' :: 'u' :: w) (Char.ofNat n) := by
  have hlt := hw.lt
  rw [isHighSurrogate_iff] at hhigh
  rw [isLowSurrogate_iff] at hlow
  have hvalid : n.isValidChar := by
    unfold Nat.isValidChar
    omega
  have hnumber : (Char.ofNat n).toNat = n := Utf8.toNat_val_ofNat hvalid
  rw [← hnumber] at hw
  exact .unit hw

/-- Two halves of a pair are those of a character, which has them back. -/
theorem spelling_pair (hw : HexUnit w n) (hv : HexUnit v m) (hhigh : isHighSurrogate n)
    (hlow : isLowSurrogate m) :
    Spelling ('\\' :: 'u' :: w ++ '\\' :: 'u' :: v)
      (Char.ofNat (0x10000 + (n - 0xD800) * 1024 + (m - 0xDC00))) := by
  rw [isHighSurrogate_iff] at hhigh
  rw [isLowSurrogate_iff] at hlow
  have hvalid : (0x10000 + (n - 0xD800) * 1024 + (m - 0xDC00)).isValidChar :=
    .inr ⟨by omega, by omega⟩
  obtain ⟨k, hk⟩ : ∃ k, k = 0x10000 + (n - 0xD800) * 1024 + (m - 0xDC00) := ⟨_, rfl⟩
  rw [← hk] at hvalid ⊢
  have hnumber : (Char.ofNat k).toNat = k := Utf8.toNat_val_ofNat hvalid
  have hn : n = 0xD800 + (k - 0x10000) / 0x400 := by omega
  have hm : m = 0xDC00 + (k - 0x10000) % 0x400 := by omega
  rw [hn, ← hnumber] at hw
  rw [hm, ← hnumber] at hv
  exact .pair (by omega) hw hv

/-! ### The spellings of a text -/

/-- Ways of writing several characters, one behind the other. -/
inductive Spellings : List Char → List Char → Prop
  | nil : Spellings [] []
  | cons {w body text : List Char} {c : Char} :
      Spelling w c → Spellings body text → Spellings (w ++ body) (c :: text)

/-- Behind the opening quote every spelling of a text is read as this text. -/
theorem readBody_spellings_append (h : Spellings body text) (rest : List Char) :
    readBody (body ++ '\x22' :: rest) = some (text, rest) := by
  induction h with
  | nil => rw [List.nil_append, readBody]
  | cons hw _ ih =>
      rw [List.append_assoc, readBody_spelling_append hw, ih]
      rfl

/-- One character more in front of what was read. -/
theorem exists_cons_spellings (hw : Spelling w c)
    (ih : ∀ {text}, readBody source = some (text, rest) →
      ∃ body, Spellings body text ∧ source = body ++ '\x22' :: rest)
    (h : ((readBody source).map fun (cs, r) => (c :: cs, r)) = some (text, rest)) :
    ∃ body, Spellings body text ∧ w ++ source = body ++ '\x22' :: rest := by
  obtain ⟨⟨cs, r⟩, hread, hmap⟩ := Option.map_eq_some_iff.1 h
  obtain ⟨rfl, rfl⟩ := Prod.mk.inj hmap
  obtain ⟨body, hbody, rfl⟩ := ih hread
  exact ⟨w ++ body, .cons hw hbody, (List.append_assoc ..).symm⟩

/-- Nothing but spellings of a text is read as this text. -/
theorem exists_spellings_of_readBody (h : readBody source = some (text, rest)) :
    ∃ body, Spellings body text ∧ source = body ++ '\x22' :: rest := by
  -- One case for each way in which the reader takes a character, and none where it refuses.
  fun_induction readBody source generalizing text with
  | case2 =>
      obtain ⟨rfl, rfl⟩ := Prod.mk.inj (Option.some.inj h)
      exact ⟨[], .nil, rfl⟩
  | case5 _ _ _ _ _ hn hhigh _ _ _ _ _ _ hm hlow ih =>
      have hw := hexUnit_iff.2 ⟨_, _, _, _, rfl, hn⟩
      have hv := hexUnit_iff.2 ⟨_, _, _, _, rfl, hm⟩
      exact exists_cons_spellings (spelling_pair hw hv hhigh hlow) ih h
  | case9 _ _ _ _ _ _ hn hhigh hlow ih =>
      have hw := hexUnit_iff.2 ⟨_, _, _, _, rfl, hn⟩
      exact exists_cons_spellings (spelling_unit hw hhigh hlow) ih h
  | case11 _ _ _ _ he ih =>
      exact exists_cons_spellings (.short (shortEscape?_eq_some_iff.1 he)) ih h
  | case13 c _ hquote _ _ hc ih =>
      obtain ⟨hslash, hcontrol⟩ := not_or.1 hc
      exact exists_cons_spellings (.plain hquote hslash (Nat.not_lt.1 hcontrol)) ih h
  | _ => cases h

theorem readBody_eq_some_iff : readBody source = some (text, rest) ↔
    ∃ body, Spellings body text ∧ source = body ++ '\x22' :: rest := by
  constructor
  · exact exists_spellings_of_readBody
  · rintro ⟨body, hbody, rfl⟩
    exact readBody_spellings_append hbody rest

/-! ### White space around the quotes -/

/-- White space of the format and nothing else. -/
def Blank (cs : List Char) : Prop := ∀ c ∈ cs, c = ' ' ∨ c = '\n' ∨ c = '\r' ∨ c = '\t'

theorem isSpace_iff : isSpace c ↔ c = ' ' ∨ c = '\n' ∨ c = '\r' ∨ c = '\t' := by
  simp only [isSpace, Bool.or_eq_true, beq_iff_eq, or_assoc]

theorem blank_iff : Blank before ↔ ∀ c ∈ before, isSpace c := by
  simp only [Blank, isSpace_iff]

instance (cs : List Char) : Decidable (Blank cs) :=
  decidable_of_iff (cs.all isSpace) (List.all_eq_true.trans blank_iff.symm)

/-- The JSON texts that are one string with this text. -/
inductive Spells : List Char → List Char → Prop
  | intro {before body after text : List Char} :
      Blank before → Spellings body text → Blank after →
        Spells (before ++ '\x22' :: (body ++ '\x22' :: after)) text

/-- White space before the opening quote and behind the closing one is passed over. -/
theorem decode?_of_readBody (hbefore : Blank before) (hafter : Blank after)
    (h : readBody source = some (text, after)) :
    decode? (before ++ '\x22' :: source) = some text := by
  have hquote : ¬isSpace '\x22' := by decide
  unfold decode?
  rw [List.dropWhile_append_of_pos (blank_iff.1 hbefore), List.dropWhile_cons_of_neg hquote]
  simp only [h]
  rw [if_pos (List.all_eq_true.2 (blank_iff.1 hafter))]

/-- The reader takes a JSON text for a text exactly if it is one of the spellings of this text. -/
theorem decode?_eq_some_iff : decode? source = some text ↔ Spells source text := by
  constructor
  · intro h
    unfold decode? at h
    split at h
    next body hbody =>
      split at h
      next text' after hread =>
        split at h
        next hafter =>
          obtain rfl := Option.some.inj h
          obtain ⟨body, hspelled, rfl⟩ := readBody_eq_some_iff.1 hread
          have hblank : Blank (source.takeWhile isSpace) :=
            blank_iff.2 (List.all_eq_true.1 List.all_takeWhile)
          have hsource : source = source.takeWhile isSpace ++ source.dropWhile isSpace :=
            List.takeWhile_append_dropWhile.symm
          rw [hsource, hbody]
          exact .intro hblank hspelled (blank_iff.2 (List.all_eq_true.1 hafter))
        next => cases h
      next => cases h
    next => cases h
  · rintro ⟨hbefore, hbody, hafter⟩
    exact decode?_of_readBody hbefore hafter (readBody_eq_some_iff.2 ⟨_, hbody, rfl⟩)

-- Half a surrogate pair spells nothing.
example : decode? "\"\\ud83d\"".toList = none := by cbv

end BuildPlan.Json.Quoted
