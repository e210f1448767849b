import BuildPlan.Digest
import BuildPlan.Proofs.Json.Compact
import BuildPlan.Proofs.Plan
import BuildPlan.Text.Utf8.RoundTrip

/-! # Digests of canonical texts

A plan is read off its canonical value, and so is a descriptor (`Plan.json_inj`,
`Descriptor.json_inj`), whatever characters their names hold.  As compact texts are unambiguous,
two plans with one text are one plan.  A digest says no more and no less than the first ten bytes
of the hash of that text (`digest_eq_iff`), so two plans share a digest only if their texts are
two messages on which the hash function collides in these bytes.  The main statement is
`canonical_texts_inj`. -/

namespace BuildPlan

/-! ### Values -/

theorem TargetName.text_injective : Function.Injective TargetName.text := by
  rintro ⟨s⟩ ⟨t⟩ rfl
  rfl

theorem namesJson_inj {ms ns : List TargetName} : namesJson ms = namesJson ns ↔ ms = ns := by
  have htext : Function.Injective Json.text := fun _ _ => Json.text.inj
  unfold namesJson Json.texts
  rw [Json.array.injEq, htext.list_map.eq_iff, TargetName.text_injective.list_map.eq_iff]

/-- The entry of a step in the canonical value of a plan. -/
def Step.member (s : Step) : String × Json := (s.target.text, namesJson s.dependencies)

theorem Step.member_injective : Function.Injective Step.member := by
  rintro ⟨m, ds⟩ ⟨n, es⟩ h
  obtain ⟨hname, hdeps⟩ := Prod.mk.inj h
  have hname : m = n := TargetName.text_injective hname
  have hdeps : ds = es := namesJson_inj.1 hdeps
  rw [hname, hdeps]

theorem Plan.json_inj {p q : Plan} : p.json = q.json ↔ p = q := by
  constructor
  · intro h
    simp only [Plan.json, Json.object.injEq, List.cons.injEq, Prod.mk.injEq, true_and,
      and_true] at h
    obtain ⟨htargets, htable⟩ := h
    have htargets : p.targets = q.targets := namesJson_inj.1 htargets
    have htable : p.table = q.table := Step.member_injective.list_map htable
    exact Plan.eq_iff.2 ⟨htargets, Plan.dependencies_eq_of_table_eq htargets htable⟩
  · rintro rfl
    rfl

theorem Descriptor.json_inj {d e : Descriptor} : d.json = e.json ↔ d = e := by
  constructor
  · intro h
    -- The kinds come first, so descriptors of different kinds have different values.
    match d, e with
    | .project ⟨m, ⟨ms, hms⟩⟩, .project ⟨n, ⟨ns, hns⟩⟩ =>
        simp only [json, Json.object.injEq, List.cons.injEq, Prod.mk.injEq, Json.text.injEq,
          true_and, and_true] at h
        obtain rfl := TargetName.text_injective h.1
        obtain rfl := namesJson_inj.1 h.2
        rfl
    | .composite ⟨m, ms, hne, hms⟩, .composite ⟨n, ns, hne', hns⟩ =>
        simp only [json, Json.object.injEq, List.cons.injEq, Prod.mk.injEq, Json.text.injEq,
          true_and, and_true] at h
        obtain rfl := TargetName.text_injective h.1
        obtain rfl := namesJson_inj.1 h.2
        rfl
    | .project _, .composite _ => simp [json, Kind.text] at h
    | .composite _, .project _ => simp [json, Kind.text] at h
  · rintro rfl
    rfl

/-! ### Bytes -/

theorem toList_loop_eq (bytes : ByteArray) (i : Nat) (read : Bytes) :
    ByteArray.toList.loop bytes i read = read.reverse ++ bytes.data.toList.drop i := by
  fun_induction ByteArray.toList.loop bytes i read with
  | case1 i read h ih =>
      have hi : i < bytes.data.toList.length := h
      have hbyte : bytes.get! i = bytes.data.toList[i] := getElem!_pos bytes.data i h
      rw [ih, List.reverse_cons, List.append_assoc, List.drop_eq_getElem_cons hi, hbyte]
      rfl
  | case2 i read h =>
      rw [List.drop_eq_nil_of_le (Nat.not_lt.1 h), List.append_nil]

/-- The bytes that are hashed are the UTF-8 bytes of the text. -/
theorem toList_toUTF8 (s : String) : s.toUTF8.toList = Utf8.encode s := by
  have hbytes : s.toUTF8 = (Utf8.encode s).toByteArray := String.utf8Encode_toList.symm
  rw [ByteArray.toList, toList_loop_eq, hbytes, List.data_toByteArray]
  rfl

theorem hexByte_injective : Function.Injective hexByte := by
  intro a b h
  have ha := a.toNat_lt
  have hb := b.toNat_lt
  obtain ⟨hhigh, hlow⟩ := List.cons.inj h
  have hhigh := Json.Quoted.hexDigit_inj (by omega) (by omega) hhigh
  have hlow := Json.Quoted.hexDigit_inj (by omega) (by omega) (List.cons.inj hlow).1
  exact UInt8.toNat_inj.1 (by omega)

theorem flatMap_hexByte_injective : Function.Injective fun bytes : Bytes => bytes.flatMap hexByte := by
  intro as
  induction as with
  | nil =>
      rintro (_ | ⟨b, bs⟩) h
      · rfl
      · cases h
  | cons a as ih =>
      rintro (_ | ⟨b, bs⟩) h
      · cases h
      · obtain ⟨hbyte, hrest⟩ := List.append_inj h rfl
        rw [hexByte_injective hbyte, ih hrest]

/-! ### Digests -/

/-- Two messages whose hashes begin with the same `n` bytes. -/
structure Sha256.Collide (n : Nat) (a b : Bytes) : Prop where
  ne : a ≠ b
  take_eq : (hash a).take n = (hash b).take n

/-- A digest says what the first ten bytes of the hash are. -/
theorem digest_eq_iff {v w : Json} : v.digest = w.digest ↔
    (Sha256.hash (Utf8.encode v.compact)).take 10 = (Sha256.hash (Utf8.encode w.compact)).take 10 := by
  unfold Json.digest
  rw [Digest.mk.injEq, String.ofList_inj, flatMap_hexByte_injective.eq_iff, toList_toUTF8,
    toList_toUTF8]

/-- Equal canonical texts are those of equal plans, that is of the same targets in the same order
with the same dependencies, and those of equal descriptors, whatever characters the names hold.
So different plans share a digest exactly if their texts are messages whose hashes begin with the
same ten bytes. -/
theorem canonical_texts_inj :
    (∀ p q : Plan, p.json.compact = q.json.compact ↔ p = q) ∧
    (∀ p q : Plan, p.json.compact = q.json.compact ↔
      p.targets = q.targets ∧ ∀ n, p.dependencies n = q.dependencies n) ∧
    (∀ d e : Descriptor, d.json.compact = e.json.compact ↔ d = e) ∧
    ∀ p q : Plan, p ≠ q ∧ p.digest = q.digest ↔
      Sha256.Collide 10 (Utf8.encode p.json.compact) (Utf8.encode q.json.compact) := by
  have hplan : ∀ p q : Plan, p.json.compact = q.json.compact ↔ p = q := by
    intro p q
    rw [Json.compact_inj, Plan.json_inj]
  refine ⟨hplan, fun p q => (hplan p q).trans Plan.eq_iff, fun d e => ?_, fun p q => ?_⟩
  · rw [Json.compact_inj, Descriptor.json_inj]
  · have hbytes : Utf8.encode p.json.compact = Utf8.encode q.json.compact ↔ p = q :=
      ⟨fun h => (hplan p q).1 (Utf8.encode_injective h), fun h => by rw [h]⟩
    have hdigest : p.digest = q.digest ↔ _ := digest_eq_iff
    rw [hdigest]
    constructor
    · rintro ⟨hne, htake⟩
      exact ⟨mt hbytes.1 hne, htake⟩
    · rintro ⟨hne, htake⟩
      exact ⟨mt hbytes.2 hne, htake⟩

end BuildPlan
