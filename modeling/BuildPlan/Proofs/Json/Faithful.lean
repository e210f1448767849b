import BuildPlan.Digest
import BuildPlan.Proofs.Json.Quoted

/-! # Values that stand for texts

Names and digests are wrapped texts: each is written as one quoted string and read from one.  The
text that is written is one of the spellings of what it stands for, and every spelling is read, so
nothing is lost on the way, whichever escapes a JSON text uses.  The main statement is
`faithful_ofJson`. -/

namespace BuildPlan

namespace Json

theorem readJsonText?_eq_some_iff {source s : String} :
    readJsonText? source = some s ↔ Quoted.Spells source.toList s.toList := by
  rw [← Quoted.decode?_eq_some_iff, readJsonText?, Option.map_eq_some_iff]
  constructor
  · rintro ⟨cs, hread, rfl⟩
    rw [hread, String.toList_ofList]
  · intro hread
    exact ⟨s.toList, hread, String.ofList_toList⟩

theorem readJsonText?_compact {before after : String} (hbefore : Quoted.Blank before.toList)
    (hafter : Quoted.Blank after.toList) (s : String) :
    readJsonText? (before ++ (Json.text s).compact ++ after) = some s := by
  have hread := Quoted.decode?_encode hbefore hafter s.toList
  rw [readJsonText?, String.toList_append, String.toList_append, compact, String.toList_ofList,
    write, hread, Option.map_some, String.ofList_toList]

/-- Values that stand for texts are written as JSON and read again without loss: what is written
for a value is read as this value, with any white space around it; what is read as a value are the
spellings of its text, whichever escapes they use, and nothing else; and what was read as a value
in any spelling is read as it again from what is written for it. -/
structure Faithful {α : Type} (text : α → String) (json : α → Json)
    (read : String → Option α) : Prop where
  read_compact : ∀ (a : α) (before after : String), Quoted.Blank before.toList →
    Quoted.Blank after.toList → read (before ++ (json a).compact ++ after) = some a
  read_eq_some_iff : ∀ (source : String) (a : α),
    read source = some a ↔ Quoted.Spells source.toList (text a).toList
  read_again : ∀ (source : String) (a : α),
    read source = some a → read (json a).compact = some a

/-- Whatever wraps a text in a constructor is written and read as faithfully as the text. -/
theorem faithful_map {α : Type} {text : α → String} {mk : String → α}
    (hmk : ∀ a, mk (text a) = a) (htext : ∀ s, text (mk s) = s) :
    Faithful text (fun a => .text (text a)) fun source => (readJsonText? source).map mk := by
  have hcompact : ∀ (a : α) (before after : String), Quoted.Blank before.toList →
      Quoted.Blank after.toList →
      (readJsonText? (before ++ (Json.text (text a)).compact ++ after)).map mk = some a := by
    intro a before after hbefore hafter
    rw [readJsonText?_compact hbefore hafter, Option.map_some, hmk]
  refine ⟨hcompact, fun source a => ?_, fun _ a _ => ?_⟩
  · rw [← readJsonText?_eq_some_iff, Option.map_eq_some_iff]
    constructor
    · rintro ⟨s, hread, rfl⟩
      rw [hread, htext]
    · intro hread
      exact ⟨text a, hread, hmk a⟩
  · have hblank : Quoted.Blank "".toList := fun c hc => absurd hc List.not_mem_nil
    have hread := hcompact a "" "" hblank hblank
    rw [String.empty_append, String.append_empty] at hread
    exact hread

end Json

/-- Names and digests are read back from what is written for them, white space around it or not,
and from every other spelling of their texts, after which they are written and read once more. -/
theorem faithful_ofJson :
    Json.Faithful TargetName.text TargetName.json TargetName.ofJson? ∧
      Json.Faithful Digest.text Digest.json Digest.ofJson? :=
  ⟨Json.faithful_map (fun _ => rfl) fun _ => rfl, Json.faithful_map (fun _ => rfl) fun _ => rfl⟩

/-- A text with a quote, a backslash, a control character and a character of two UTF-16 units is
read from what is written for it, and from a spelling in which no character stands for itself. -/
theorem faithful_ofJson_escaped :
    Json.Quoted.Blank " \n".toList ∧ Json.Quoted.Blank "\t\r".toList ∧
      TargetName.ofJson? (" \n" ++ (TargetName.mk "\"\\\x01é😀").json.compact ++ "\t\r") =
        some ⟨"\"\\\x01é😀"⟩ ∧
      Json.Quoted.Spells "\"\\u0022\\\\\\u0001\\u00E9\\uD83d\\uDe00\"".toList
        "\"\\\x01é😀".toList ∧
      Digest.ofJson? "\"\\u0022\\\\\\u0001\\u00E9\\uD83d\\uDe00\"" =
        some ⟨"\"\\\x01é😀"⟩ ∧
      Digest.ofJson? (Digest.mk "\"\\\x01é😀").json.compact = some ⟨"\"\\\x01é😀"⟩ := by
  have hbefore : Json.Quoted.Blank " \n".toList := by decide
  have hafter : Json.Quoted.Blank "\t\r".toList := by decide
  have hread : Digest.ofJson? "\"\\u0022\\\\\\u0001\\u00E9\\uD83d\\uDe00\"" =
      some ⟨"\"\\\x01é😀"⟩ := by
    decide +kernel
  obtain ⟨hnames, hdigests⟩ := faithful_ofJson
  exact ⟨hbefore, hafter, hnames.read_compact _ _ _ hbefore hafter,
    (hdigests.read_eq_some_iff _ _).1 hread, hread, hdigests.read_again _ _ hread⟩

end BuildPlan
