import BuildPlan.FileTree

/-! # Paths of locations

A file includes others by paths that are meant to be seen from its own directory
(`FileTree.named`).  The program joins such a path to the absolute path of the directory and
follows the result from the root.  Both lead to the same location, or fail in the same way, for
every directory that a path has led to (`FileTree.Standing.follow_join`): going down from the
root along the names of such a location leads to it, and to all that is above it on the way. -/

namespace BuildPlan

namespace Path

/-! ### Splitting -/

theorem split_ne_nil (cs : List Char) : split cs ≠ [] := by
  cases cs with
  | nil => simp [split]
  | cons c cs =>
      unfold split
      split
      · simp
      · split <;> simp

theorem split_append_slash (as bs : List Char) :
    split (as ++ '/' :: bs) = split as ++ split bs := by
  induction as with
  | nil => simp [split]
  | cons a as ih =>
      by_cases ha : a = '/'
      · simp [split, ha, ih]
      · cases has : split as with
        | nil => exact absurd has (split_ne_nil as)
        | cons part parts => simp [split, ha, ih, has]

theorem split_of_not_mem {cs : List Char} (h : '/' ∉ cs) : split cs = [cs] := by
  induction cs with
  | nil => rfl
  | cons c cs ih =>
      have hc : c ≠ '/' := fun hc => h (hc ▸ List.mem_cons_self)
      have hcs : '/' ∉ cs := fun hcs => h (List.mem_cons_of_mem _ hcs)
      simp [split, hc, ih hcs]

theorem split_intercalate {part : List Char} {parts : List (List Char)}
    (h : ∀ p ∈ part :: parts, '/' ∉ p) :
    split (['/'].intercalate (part :: parts)) = part :: parts := by
  induction parts generalizing part with
  | nil => simpa using split_of_not_mem (h part (by simp))
  | cons next parts ih =>
      have hpart : '/' ∉ part := h part (by simp)
      have hrest : ∀ p ∈ next :: parts, '/' ∉ p := fun p hp => h p (List.mem_cons_of_mem _ hp)
      rw [List.intercalate_cons_cons, List.append_assoc, List.singleton_append,
        split_append_slash, split_of_not_mem hpart, ih hrest]
      rfl

theorem mem_intercalate {parts : List (List Char)} {c : Char} (h : c ∈ ['/'].intercalate parts) :
    c = '/' ∨ ∃ p ∈ parts, c ∈ p := by
  induction parts with
  | nil => simp at h
  | cons part parts ih =>
      cases parts with
      | nil => exact .inr ⟨part, List.mem_cons_self, by simpa using h⟩
      | cons next parts =>
          rw [List.intercalate_cons_cons, List.append_assoc, List.mem_append,
            List.singleton_append, List.mem_cons] at h
          rcases h with h | h | h
          · exact .inr ⟨part, List.mem_cons_self, h⟩
          · exact .inl h
          · rcases ih h with h | ⟨p, hp, hc⟩
            · exact .inl h
            · exact .inr ⟨p, List.mem_cons_of_mem _ hp, hc⟩

/-- The parts of a text have no slash, and its own characters. -/
theorem mem_of_mem_split {cs part : List Char} (h : part ∈ split cs) {c : Char} (hc : c ∈ part) :
    c ≠ '/' ∧ c ∈ cs := by
  induction cs generalizing part with
  | nil =>
      obtain rfl : part = [] := by simpa [split] using h
      cases hc
  | cons d cs ih =>
      by_cases hd : d = '/'
      · rw [split, if_pos hd] at h
        rcases List.mem_cons.1 h with rfl | h
        · cases hc
        · exact ⟨(ih h hc).1, List.mem_cons_of_mem _ (ih h hc).2⟩
      · cases hcs : split cs with
        | nil => exact absurd hcs (split_ne_nil cs)
        | cons first parts =>
            rw [hcs] at ih
            simp only [split, if_neg hd, hcs] at h
            rcases List.mem_cons.1 h with rfl | h
            · rcases List.mem_cons.1 hc with rfl | hc
              · exact ⟨hd, List.mem_cons_self⟩
              · have hfirst := ih List.mem_cons_self hc
                exact ⟨hfirst.1, List.mem_cons_of_mem _ hfirst.2⟩
            · have hpart := ih (List.mem_cons_of_mem _ h) hc
              exact ⟨hpart.1, List.mem_cons_of_mem _ hpart.2⟩

/-! ### Components -/

theorem isEmpty_of_isAbsolute {path : String} (h : isAbsolute path) : path.isEmpty = false := by
  refine Bool.eq_false_iff.2 fun hempty => ?_
  rw [String.isEmpty_iff.1 hempty] at h
  simp [isAbsolute] at h

theorem components_ne_nil (path : String) : components path ≠ [] := by
  simpa [components] using split_ne_nil path.toList

theorem components_append_slash (a b : String) :
    components (a ++ "/" ++ b) = components a ++ components b := by
  have hslash : "/".toList = ['/'] := by decide
  simp only [components, String.toList_append, hslash, List.append_assoc, List.singleton_append,
    split_append_slash, List.map_append]

theorem mem_components {path c : String} (h : c ∈ components path) {d : Char}
    (hd : d ∈ c.toList) : d ≠ '/' ∧ d ∈ path.toList := by
  obtain ⟨part, hpart, rfl⟩ := List.mem_map.1 h
  exact mem_of_mem_split hpart (by simpa using hd)

end Path

/-! ### Locations -/

/-- A name that a file or directory can have: it is not empty, has no slash and no NUL. -/
structure PlainName (c : String) : Prop where
  ne_empty : c ≠ ""
  not_slash : '/' ∉ c.toList
  not_nul : '\x00' ∉ c.toList

namespace Location

theorem toList_path (l : Location) :
    l.path.toList = '/' :: ['/'].intercalate (l.names.map String.toList) := by
  have hslash : "/".toList = ['/'] := by decide
  simp only [path, String.toList_append, String.toList_intercalate, hslash, List.singleton_append]

theorem isAbsolute_path (l : Location) : Path.isAbsolute l.path := by
  simp [Path.isAbsolute, toList_path]

/-- The components of the path of a location are its names, behind an empty one. -/
theorem components_path {l : Location} (h : ∀ c ∈ l.names, PlainName c) :
    Path.components l.path = "" :: if l.names = [] then [""] else l.names := by
  rw [Path.components, toList_path]
  cases hnames : l.names with
  | nil => rfl
  | cons c cs =>
      have hparts : ∀ p ∈ c.toList :: cs.map String.toList, '/' ∉ p := by
        intro p hp
        obtain ⟨d, hd, rfl⟩ : ∃ d ∈ c :: cs, d.toList = p := by
          rw [← List.map_cons] at hp
          exact List.mem_map.1 hp
        exact (h d (hnames ▸ hd)).not_slash
      rw [List.map_cons, Path.split, if_pos rfl, Path.split_intercalate hparts]
      simp

/-- Only the path of the root ends with a slash. -/
theorem names_eq_nil_of_path {l : Location} (h : ∀ c ∈ l.names, PlainName c)
    (hlast : l.path.toList.getLast? = some '/') : l.names = [] := by
  obtain ⟨before, hbefore⟩ := List.getLast?_eq_some_iff.1 hlast
  have hsplit : Path.components l.path =
      (Path.split before).map String.ofList ++ [""] := by
    rw [Path.components, hbefore, Path.split_append_slash, List.map_append]
    rfl
  by_cases hnames : l.names = []
  · exact hnames
  · rw [components_path h, if_neg hnames] at hsplit
    have hempty : "" ∈ l.names := by
      have hmem := congrArg List.getLast? hsplit
      rw [List.getLast?_concat, List.getLast?_cons_of_ne_nil hnames] at hmem
      exact List.mem_of_getLast? hmem
    exact absurd rfl (h "" hempty).ne_empty

variable {l : Location} {path : String}

theorem toList_join (l : Location) (h : ¬Path.isAbsolute path) :
    (Path.join l.path path).toList = l.path.toList ++ path.toList ∨
      (Path.join l.path path).toList = l.path.toList ++ '/' :: path.toList := by
  have hslash : "/".toList = ['/'] := by decide
  unfold Path.join
  rw [if_neg h]
  split
  · exact .inl String.toList_append
  · right
    rw [String.toList_append, String.toList_append, hslash, List.append_assoc,
      List.singleton_append]

theorem components_join (hl : ∀ c ∈ l.names, PlainName c) (h : ¬Path.isAbsolute path) :
    Path.components (Path.join l.path path) = "" :: (l.names ++ Path.components path) := by
  have hne : ¬l.path.isEmpty := by simp [← String.toList_inj, toList_path]
  unfold Path.join
  rw [if_neg h]
  split
  next hlast =>
    have hnames := names_eq_nil_of_path hl (hlast.resolve_left hne)
    rw [Path.components, String.toList_append, toList_path, hnames]
    simp [Path.split, Path.components]
  next hlast =>
    rw [Path.components_append_slash, components_path hl]
    have hnames : l.names ≠ [] := by
      intro hnames
      refine hlast (.inr ?_)
      rw [toList_path, hnames]
      rfl
    rw [if_neg hnames, List.cons_append]

end Location

namespace FileTree

variable {t : FileTree} {l m : Location} {c : String} {cs : List String}

theorem get?_of_lookup {e : Entry} (h : t.entries.lookup l = some e) : t.get? l = some e := by
  rw [get?, h]

theorem read_eq_ok_iff {text : String} :
    t.read l = .ok text ↔
      ∃ content, t.entries.lookup l = some (.file content) ∧ Utf8.decode content = .ok text := by
  unfold read get?
  constructor
  · intro h
    split at h
    · cases h
    · cases h
    next content hget =>
      split at hget
      next e hlookup =>
        obtain rfl : e = .file content := Option.some.inj hget
        split at h
        next hdecode =>
          cases h
          exact ⟨content, hlookup, hdecode⟩
        · cases h
      · split at hget <;> cases hget
  · rintro ⟨content, hlookup, hdecode⟩
    simp only [hlookup, hdecode]

/-- The location that a path names as seen from a directory. -/
def named (t : FileTree) (directory : Location) (path : String) : Except PathError Location :=
  if path.toList.contains '\x00' then .error .badCharacter
  else t.walk (if Path.isAbsolute path then .root else directory) (Path.components path)

end FileTree

/-- A path that is seen from a directory has these components. -/
def Path.Relative (path : String) (cs : List String) : Prop :=
  (path.toList.contains '\x00' = false ∧ path.isEmpty = false) ∧ isAbsolute path = false ∧
    components path = cs

instance (path : String) (cs : List String) : Decidable (Path.Relative path cs) :=
  inferInstanceAs (Decidable ((_ ∧ _) ∧ _ ∧ _))

namespace Path.Relative

variable {t : FileTree} {l : Location} {path : String} {cs : List String}

theorem named (h : Relative path cs) : t.named l path = t.walk l cs := by
  obtain ⟨⟨hnul, -⟩, habsolute, hcomponents⟩ := h
  unfold FileTree.named
  rw [hnul, habsolute, hcomponents, if_neg Bool.false_ne_true, if_neg Bool.false_ne_true]

theorem follow (h : Relative path cs) : t.follow l path = t.walk l cs := by
  obtain ⟨⟨hnul, hempty⟩, habsolute, hcomponents⟩ := h
  unfold FileTree.follow
  rw [hnul, hempty, habsolute, hcomponents, if_neg Bool.false_ne_true, if_neg Bool.false_ne_true,
    if_neg Bool.false_ne_true]

end Path.Relative

namespace FileTree

variable {t : FileTree} {l m : Location} {c : String} {cs : List String}

/-- An empty component before another one makes no difference. -/
theorem walk_empty_cons (t : FileTree) (l : Location) (c : String) (cs : List String) :
    t.walk l ("" :: c :: cs) = t.walk l (c :: cs) := by
  rw [walk]
  cases hl : t.get? l with
  | none => simp [walk, hl]
  | some e =>
      cases e with
      | file content => simp [walk, hl, behindFile]
      | directory => simp

/-- The root stands where its path leads. -/
theorem follow_root (h : t.get? .root = some .directory) :
    t.follow .root (Location.path .root) = .ok .root := by
  have hcomponents : Path.components (Location.path .root) = ["", ""] :=
    Location.components_path fun c hc => absurd hc List.not_mem_nil
  have hnul : '\x00' ∉ (Location.path .root).toList := by
    rw [Location.toList_path]
    decide
  unfold follow
  rw [if_neg (by simpa using hnul), Path.isEmpty_of_isAbsolute (Location.isAbsolute_path _),
    if_neg Bool.false_ne_true, if_pos (Location.isAbsolute_path _), hcomponents,
    walk_empty_cons, walk, h]
  rfl

/-- A location that going down from the root along its names leads to, by way of all that is above
it. -/
structure Standing (t : FileTree) (l : Location) : Prop where
  plain : ∀ c ∈ l.names, PlainName c
  leads : ∀ ms, ms <+: l.names → ∀ cs, t.walk .root (ms ++ cs) = t.walk ⟨ms⟩ cs

theorem standing_root (t : FileTree) : t.Standing .root where
  plain c hc := absurd hc List.not_mem_nil
  leads ms hms cs := by
    obtain rfl : ms = [] := List.prefix_nil.1 hms
    rfl

namespace Standing

theorem parent (h : t.Standing l) : t.Standing l.parent where
  plain c hc := h.plain c (List.dropLast_subset _ hc)
  leads ms hms := h.leads ms (hms.trans (List.dropLast_prefix l.names))

theorem child (h : t.Standing l) (hc : PlainName c)
    (hstep : ∀ ds, t.walk l (c :: ds) = t.walk (l.child c) ds) : t.Standing (l.child c) where
  plain d hd := by
    rcases List.mem_append.1 hd with hd | hd
    · exact h.plain d hd
    · exact List.mem_singleton.1 hd ▸ hc
  leads ms hms cs := by
    rcases List.prefix_concat_iff.1 hms with rfl | hms
    · rw [List.append_assoc, List.singleton_append, h.leads l.names (List.prefix_refl _)]
      exact hstep cs
    · exact h.leads ms hms cs

/-- Paths lead from standing locations to standing locations. -/
theorem of_walk (h : t.Standing l) (hcs : ∀ c ∈ cs, '/' ∉ c.toList ∧ '\x00' ∉ c.toList)
    (hm : t.walk l cs = .ok m) : t.Standing m := by
  induction cs generalizing l with
  | nil =>
      obtain rfl : l = m := Except.ok.inj hm
      exact h
  | cons c cs ih =>
      have hrest : ∀ d ∈ cs, '/' ∉ d.toList ∧ '\x00' ∉ d.toList :=
        fun d hd => hcs d (List.mem_cons_of_mem _ hd)
      rw [walk] at hm
      split at hm
      · cases hm
      · cases hm
      next hl =>
        split at hm
        · exact ih h hrest hm
        next hdot =>
          split at hm
          · exact ih h.parent hrest hm
          next hdots =>
            split at hm
            · cases hm
            next hlong =>
              split at hm
              · cases hm
              next e he =>
                have hplain : PlainName c := ⟨fun hempty => hdot (.inl hempty),
                  (hcs c List.mem_cons_self).1, (hcs c List.mem_cons_self).2⟩
                have hstep : ∀ ds, t.walk l (c :: ds) = t.walk (l.child c) ds := by
                  intro ds
                  rw [walk, hl]
                  dsimp only
                  rw [if_neg hdot, if_neg hdots, if_neg hlong, he]
                exact ih (h.child hplain hstep) hrest hm

theorem of_named {directory : Location} (h : t.Standing directory) (path : String)
    (hm : t.named directory path = .ok m) : t.Standing m := by
  unfold named at hm
  split at hm
  · cases hm
  next hnul =>
    refine of_walk ?_ (fun c hc => ?_) hm
    · split
      · exact standing_root t
      · exact h
    · refine ⟨fun hslash => (Path.mem_components hc hslash).1 rfl, fun hzero => hnul ?_⟩
      simpa using (Path.mem_components hc hzero).2

/-- A location that its own path leads to is standing. -/
theorem of_follow_path {start : Location} (hl : t.follow start l.path = .ok l) :
    t.Standing l := by
  refine (standing_root t).of_named l.path ?_
  have hempty : l.path.isEmpty = false := Path.isEmpty_of_isAbsolute l.isAbsolute_path
  unfold follow at hl
  unfold named
  rw [hempty, if_pos l.isAbsolute_path] at hl
  rw [if_pos l.isAbsolute_path]
  split at hl
  · cases hl
  next hnul => rw [if_neg hnul, ← hl, if_neg Bool.false_ne_true]

theorem of_follow {path : String} (h : t.Standing l) (hm : t.follow l path = .ok m) :
    t.Standing m := by
  refine h.of_named path ?_
  unfold follow at hm
  unfold named
  split at hm
  · cases hm
  next hnul =>
    split at hm
    · cases hm
    · rw [if_neg hnul, hm]

theorem nul_not_mem_path (h : t.Standing l) : '\x00' ∉ l.path.toList := by
  rw [Location.toList_path]
  intro hnul
  rcases List.mem_cons.1 hnul with hslash | hnul
  · exact absurd hslash (by decide)
  · rcases Path.mem_intercalate hnul with hslash | ⟨p, hp, hzero⟩
    · exact absurd hslash (by decide)
    · obtain ⟨c, hc, rfl⟩ := List.mem_map.1 hp
      exact (h.plain c hc).not_nul hzero

/-- A path that is joined to the path of a standing directory leads where it leads as seen from
there. -/
theorem follow_join (h : t.Standing l) (start : Location) (path : String) :
    t.follow start (Path.join l.path path) = t.named l path := by
  by_cases habs : Path.isAbsolute path
  · have hempty : path.isEmpty = false := Path.isEmpty_of_isAbsolute habs
    unfold Path.join
    rw [if_pos habs]
    unfold follow named
    simp only [hempty, habs, Bool.false_eq_true, if_false, if_true]
  · have hnul : (Path.join l.path path).toList.contains '\x00' = path.toList.contains '\x00' := by
      rcases Location.toList_join l habs with hjoin | hjoin
      · rw [hjoin]
        simp [h.nul_not_mem_path]
      · rw [hjoin]
        simp [h.nul_not_mem_path]
    have hhead : Path.isAbsolute (Path.join l.path path) := by
      rcases Location.toList_join l habs with hjoin | hjoin
      · simp [Path.isAbsolute, hjoin, Location.toList_path]
      · simp [Path.isAbsolute, hjoin, Location.toList_path]
    have hempty : (Path.join l.path path).isEmpty = false := Path.isEmpty_of_isAbsolute hhead
    unfold follow named
    rw [hnul, hempty, if_pos hhead, if_neg habs, Location.components_join h.plain habs]
    split
    · rfl
    · obtain ⟨c, cs, hcs⟩ := List.exists_cons_of_ne_nil
        (l := l.names ++ Path.components path) (by simp [Path.components_ne_nil])
      rw [if_neg Bool.false_ne_true, hcs, walk_empty_cons, ← hcs, h.leads _ (List.prefix_refl _)]

end Standing

end FileTree

end BuildPlan
