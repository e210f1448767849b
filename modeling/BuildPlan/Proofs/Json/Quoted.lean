import BuildPlan.Proofs.Json.Spelling

/-! # Reading quoted strings back

What is written for a character is one of its spellings (`spelling_escape`), so a quoted text is
read as this text, up to the quote that closes it and whatever follows
(`readBody_flatMap_escape`), and with white space around it (`decode?_encode`).  Quoted texts are
therefore no start of one another: what a row of characters begins with as a quoted text is
settled before its end (`encode_append_inj`). -/

namespace BuildPlan.Json.Quoted

/-! ### Hexadecimal digits -/

theorem digitValue?_hexDigit {n : Nat} (h : n < 16) : digitValue? (hexDigit n) = some n := by
  revert n
  decide

theorem hexDigit_inj {m n : Nat} (hm : m < 16) (hn : n < 16) (h : hexDigit m = hexDigit n) :
    m = n := by
  have hvalue := congrArg digitValue? h
  rw [digitValue?_hexDigit hm, digitValue?_hexDigit hn] at hvalue
  exact Option.some.inj hvalue

/-- The four digits of a control character are its number. -/
theorem hexUnit_hexDigit {n : Nat} (h : n < 32) :
    HexUnit ['0', '0', hexDigit (n / 16), hexDigit (n % 16)] n := by
  have hzero : HexDigit '0' 0 := by decide
  have hhigh := digitValue?_eq_some_iff.1 (digitValue?_hexDigit (show n / 16 < 16 by omega))
  have hlow := digitValue?_eq_some_iff.1 (digitValue?_hexDigit (show n % 16 < 16 by omega))
  have hn : 0 * 4096 + 0 * 256 + n / 16 * 16 + n % 16 = n := by omega
  have hunit := HexUnit.intro hzero hzero hhigh hlow
  rwa [hn] at hunit

/-! ### What is written -/

/-- What is written for a character is one of its spellings. -/
theorem spelling_escape (c : Char) : Spelling (escape c) c := by
  unfold escape
  split
  next h => subst h; exact .short (by decide)
  split
  next h => subst h; exact .short (by decide)
  split
  next h => subst h; exact .short (by decide)
  split
  next h => subst h; exact .short (by decide)
  split
  next h => subst h; exact .short (by decide)
  split
  next h => subst h; exact .short (by decide)
  split
  next h => subst h; exact .short (by decide)
  split
  next hc => exact .unit (hexUnit_hexDigit hc)
  next hquote hslash _ _ _ _ _ hc => exact .plain hquote hslash (Nat.not_lt.1 hc)

theorem spellings_flatMap_escape (cs : List Char) : Spellings (cs.flatMap escape) cs := by
  induction cs with
  | nil => exact .nil
  | cons c cs ih => exact .cons (spelling_escape c) ih

/-- Behind the opening quote stands the text, and behind the closing one whatever follows. -/
theorem readBody_flatMap_escape (cs rest : List Char) :
    readBody (cs.flatMap escape ++ '\x22' :: rest) = some (cs, rest) :=
  readBody_spellings_append (spellings_flatMap_escape cs) rest

/-- What is written for a text is read as this text, whatever white space stands around it. -/
theorem decode?_encode {before after : List Char} (hbefore : Blank before) (hafter : Blank after)
    (cs : List Char) : decode? (before ++ encode cs ++ after) = some cs := by
  have hread := decode?_eq_some_iff.2 (.intro hbefore (spellings_flatMap_escape cs) hafter)
  simpa only [encode, List.append_assoc, List.cons_append, List.nil_append] using hread

/-- What begins with a quoted text begins with no other one. -/
theorem encode_append_inj {cs ds rest rest' : List Char}
    (h : encode cs ++ rest = encode ds ++ rest') : cs = ds ∧ rest = rest' := by
  simp only [encode, List.cons_append, List.append_assoc, List.nil_append] at h
  have hbody := congrArg readBody (List.cons.inj h).2
  rw [readBody_flatMap_escape, readBody_flatMap_escape] at hbody
  exact Prod.mk.inj (Option.some.inj hbody)

end BuildPlan.Json.Quoted
