import BuildPlan.Proofs.Declarative.Fitting
import BuildPlan.Proofs.Declarative.Visit

/-! # Including a file again

A file that was included once can be included again, by any path and from any file: all that it
comes to is declared already, so the registry stays as it is (`Visit.InOrder.registers_nothing`).
For its declarations this is the history of the registry: a target that is listed is accepted again
and changes nothing (`foldlM_apply_of_isPrefix`).  For its includes it needs that none of the files
that it leads to is open, and that enough levels are left; in a file that is nested more deeply
than the first include there may be too few (`Visit.inOrder_returning`). -/

namespace BuildPlan

/-! ### Registering parts again -/

section

variable {part : Part} {parts : List Part} {r r' u : Registry}

theorem foldlM_apply_cons_eq_ok (h : (part :: parts).foldlM Part.apply r = .ok r') :
    ∃ kind spec r₁, part = .declaration kind spec ∧ r.declare kind spec = .ok r₁ ∧
      parts.foldlM Part.apply r₁ = .ok r' := by
  rw [List.foldlM_cons] at h
  cases part with
  | failure => cases h
  | declaration kind spec =>
      cases hdeclare : r.declare kind spec with
      | error e =>
          rw [Part.apply, hdeclare] at h
          cases h
      | ok r₁ =>
          rw [Part.apply, hdeclare] at h
          exact ⟨kind, spec, r₁, rfl, hdeclare, h⟩

theorem failure_not_mem_of_foldlM (h : parts.foldlM Part.apply r = .ok r') : .failure ∉ parts := by
  induction parts generalizing r with
  | nil => exact List.not_mem_nil
  | cons part parts ih =>
      obtain ⟨kind, spec, r₁, rfl, -, hrest⟩ := foldlM_apply_cons_eq_ok h
      intro hmem
      rcases List.mem_cons.1 hmem with hpart | hmem
      · cases hpart
      · exact ih hrest hmem

theorem exists_of_map_eq_ok {α β ε : Type} {f : α → β} {x : Except ε α} {b : β}
    (h : x.map f = .ok b) : ∃ a, x = .ok a ∧ f a = b := by
  cases x with
  | error e => cases h
  | ok a => exact ⟨a, rfl, Except.ok.inj h⟩

/-- Parts only add to what a registry lists. -/
theorem isPrefix_of_foldlM_apply (h : parts.foldlM Part.apply r = .ok r') :
    r.toList <+: r'.toList := by
  induction parts generalizing r with
  | nil =>
      obtain rfl := Except.ok.inj h
      exact List.prefix_refl _
  | cons part parts ih =>
      obtain ⟨kind, spec, r₁, rfl, hdeclare, hrest⟩ := foldlM_apply_cons_eq_ok h
      obtain ⟨d, -, -, ⟨rfl, -⟩ | ⟨-, hlist⟩⟩ := Registry.declare_eq_ok hdeclare
      · exact ih hrest
      · exact (hlist ▸ List.prefix_append r.toList [d]).trans (ih hrest)

/-- Parts that were registered once are accepted again, and change nothing, when all that was
listed then still is. -/
theorem foldlM_apply_of_isPrefix (h : parts.foldlM Part.apply r = .ok r')
    (hu : r'.toList <+: u.toList) : parts.foldlM Part.apply u = .ok u := by
  induction parts generalizing r with
  | nil => rfl
  | cons part parts ih =>
      obtain ⟨kind, spec, r₁, rfl, hdeclare, hrest⟩ := foldlM_apply_cons_eq_ok h
      obtain ⟨d, -, hdescriptor, hlisted⟩ := Registry.declare_eq_ok hdeclare
      have hd₁ : d ∈ r₁.toList := by
        rcases hlisted with ⟨rfl, hd⟩ | ⟨-, hlist⟩
        · exact hd
        · exact hlist ▸ List.mem_append_right _ List.mem_cons_self
      have hd : d ∈ u.toList := hu.subset ((isPrefix_of_foldlM_apply hrest).subset hd₁)
      rw [List.foldlM_cons, Part.apply, Registry.declare_eq_self hdescriptor hd]
      exact ih hrest

end

/-! ### Visiting a file again -/

namespace Visit

variable {w : Workspace} {start : String} {v₁ v₂ : Visit} {f : Location}

/-- In a run of declarative files, let a file be included and later, by any path and from any file,
be included again while neither it nor any file that it leads to is open.  Then the earlier include
has succeeded; and the later one succeeds and leaves the registry as it is if and only if the
levels that are left are enough for the file, as they are if no fewer are left than at the earlier
include. -/
theorem InOrder.registers_nothing (hw : w.Declarative start)
    (h : (first w start).InOrder w v₁ v₂) (hf₁ : w.tree.follow w.directory v₁.path = .ok f)
    (hf₂ : w.tree.follow w.directory v₂.path = .ok f)
    (hidle : ∀ m, w.LeadsTo f m → m ∉ v₂.session.loading) :
    (∃ answer t, v₁.outcome w = (.ok answer, t)) ∧
      (v₁.levels ≤ v₂.levels → w.Fits v₂.levels f) ∧
      (w.Fits v₂.levels f ↔
        ∃ answer t, v₂.outcome w = (.ok answer, t) ∧ t.registry = v₂.session.registry) := by
  obtain ⟨hv₁, hv₂⟩ := h.proper hw (Proper.first w start)
  obtain ⟨answer, t, hend, hgrows⟩ := h.grows hw (Proper.first w start)
  have hparts₁ := hv₁.foldlM_parts hw hend
  have hfailure₁ := failure_not_mem_of_foldlM hparts₁
  unfold parts at hfailure₁
  rw [hf₁] at hfailure₁
  refine ⟨⟨answer, t, hend⟩, (fits_of_failure_not_mem hfailure₁ hv₁.levels).mono, ?_, ?_⟩
  · intro hfits
    have hsame : v₂.parts w = v₁.parts w := by
      unfold parts
      rw [hf₁, hf₂]
      exact flatten_eq_of_fits hfailure₁ hfits hv₂.levels hidle
    have hparts₂ := foldlM_apply_of_isPrefix hparts₁ hgrows.isPrefix
    rw [← hsame] at hparts₂
    exact hv₂.exists_outcome hw hparts₂
  · rintro ⟨answer', t', hend', -⟩
    have hfailure₂ := failure_not_mem_of_foldlM (hv₂.foldlM_parts hw hend')
    unfold parts at hfailure₂
    rw [hf₂] at hfailure₂
    exact fits_of_failure_not_mem hfailure₂ hv₂.levels

/-- A file that includes another one, and a third one that declares a target and then includes the
other one by a path of its own. -/
def sharing : Workspace where
  tree := ⟨[
    (⟨["main"]⟩, .file (Utf8.encode "include'a' include'lib/b'")),
    (⟨["a"]⟩, .file (Utf8.encode "project\x7bname='a'\x7d")),
    (⟨["lib", "b"]⟩, .file (Utf8.encode "project\x7bname='b'\x7d include'..//a'"))]⟩
  directory := .root

namespace Sharing

theorem read_texts :
    (Item.ofText? "include'a' include'lib/b'" = some [.inclusion "a", .inclusion "lib/b"] ∧
      (Chunk.ofText 3 "include'a' include'lib/b'").isOk) ∧
    (Item.ofText? "project\x7bname='a'\x7d" = some [.declaration .project ⟨"a", []⟩] ∧
      (Chunk.ofText 3 "project\x7bname='a'\x7d").isOk) ∧
    Item.ofText? "project\x7bname='b'\x7d include'..//a'" =
        some [.declaration .project ⟨"b", []⟩, .inclusion "..//a"] ∧
      (Chunk.ofText 3 "project\x7bname='b'\x7d include'..//a'").isOk := by
  decide +kernel

theorem declarative : sharing.Declarative "main" where
  directory := FileTree.follow_root rfl
  items _ _ _ htext := by
    obtain ⟨⟨hmain, -⟩, ⟨ha, -⟩, hb, -⟩ := read_texts
    refine FileTree.isSome_of_isDeclarative ?_ htext
    simp [FileTree.isDeclarative, sharing, Utf8.decode_encode, Except.toOption, hmain, ha, hb]

/-- The levels are enough to read the texts. -/
theorem fitting?_eq_ofText? {n : Nat} {text : String} (hn : n ≤ 190)
    (hread : (Chunk.ofText 3 text).isOk) : Item.fitting? n text = Item.ofText? text := by
  have hroom : 190 + 3 ≤ Session.levelLimit := by decide
  exact Item.fitting?_eq_ofText? (by decide) (by omega) hread

theorem read_a : sharing.tree.read ⟨["a"]⟩ = .ok "project\x7bname='a'\x7d" :=
  FileTree.read_eq_ok_iff.2 ⟨_, by rfl, Utf8.decode_encode _⟩

theorem includes_nothing {m : Location} : ¬sharing.Includes ⟨["a"]⟩ m := by
  rintro ⟨text, items, path, htext, hitems, hpath, -⟩
  obtain rfl := Except.ok.inj (read_a.symm.trans htext)
  obtain rfl := Option.some.inj (read_texts.2.1.1.symm.trans hitems)
  cases List.mem_singleton.1 hpath

theorem eq_of_leadsTo {m : Location} (h : sharing.LeadsTo ⟨["a"]⟩ m) : m = ⟨["a"]⟩ := by
  rcases Relation.ReflTransGen.cases_head h with hsame | ⟨_, hincludes, -⟩
  · exact hsame.symm
  · exact absurd hincludes includes_nothing

theorem fits : sharing.Fits 3 ⟨["a"]⟩ :=
  ⟨⟨_, read_a, read_texts.2.1.2⟩, fun _ hm => absurd hm includes_nothing⟩

/-- The first include of the shared file, and the one in the other file. -/
theorem exists_inOrder :
    ∃ v₁ v₂ : Visit, (first sharing "main").InOrder sharing v₁ v₂ ∧
      v₁.path = "/a" ∧ v₂.path = "/lib/..//a" ∧ v₂.levels = 197 ∧
      v₂.session.loading = [⟨["lib", "b"]⟩, ⟨["main"]⟩] ∧
      v₂.session.registry.names = [⟨"a"⟩, ⟨"b"⟩] := by
  obtain ⟨⟨hmain, hokmain⟩, ⟨ha, hoka⟩, hb, hokb⟩ := read_texts
  have hreadmain : sharing.tree.read ⟨["main"]⟩ = .ok "include'a' include'lib/b'" :=
    FileTree.read_eq_ok_iff.2 ⟨_, by rfl, Utf8.decode_encode _⟩
  have hreadb : sharing.tree.read ⟨["lib", "b"]⟩ = .ok "project\x7bname='b'\x7d include'..//a'" :=
    FileTree.read_eq_ok_iff.2 ⟨_, by rfl, Utf8.decode_encode _⟩
  -- What is declared before the second include, one target after the other.
  obtain ⟨r₂, hboth, hnames⟩ : ∃ r, [Part.declaration .project ⟨"a", []⟩,
      .declaration .project ⟨"b", []⟩].foldlM Part.apply .empty = .ok r ∧
        r.names = [⟨"a"⟩, ⟨"b"⟩] := exists_of_map_eq_ok (by rfl)
  obtain ⟨_, _, r₁, hpart, hdeclare, hrest⟩ := foldlM_apply_cons_eq_ok hboth
  obtain ⟨rfl, rfl⟩ := Part.declaration.inj hpart
  have hitems := (fitting?_eq_ofText? (Nat.zero_le 190) hokmain).trans hmain
  have hparts : (flatten sharing Item.fitting? [⟨["main"]⟩]
      (sharing.tree.named .root "a")).foldlM Part.apply .empty = .ok r₁ := by
    have hnamed : sharing.tree.named .root "a" = .ok ⟨["a"]⟩ := by rfl
    have hsaid := (fitting?_eq_ofText? (n := [(⟨["main"]⟩ : Location)].length) (by decide)
      hoka).trans ha
    rw [hnamed, flatten_of_some hsaid read_a (by decide), List.flatMap_singleton, Item.parts,
      List.foldlM_cons, Part.apply, hdeclare]
    rfl
  obtain ⟨v₁, p₂, horder, ⟨hpath₁, -⟩, hproper, hfollow₂, hlevels, hloading, rfl⟩ :=
    exists_of_two_inclusions declarative (by rfl) hreadmain hitems hparts
  have hitems₂ : Item.fitting? p₂.session.loading.length
      "project\x7bname='b'\x7d include'..//a'" =
        some [.declaration .project ⟨"b", []⟩, .inclusion "..//a"] := by
    rw [hloading]
    exact (fitting?_eq_ofText? (by decide) hokb).trans hb
  have hmem₂ : (⟨["lib", "b"]⟩ : Location) ∉ p₂.session.loading := by
    rw [hloading]
    decide
  obtain ⟨v₂, hv₂, hpath₂, -, hlevels₂, hloading₂, rfl⟩ :=
    hproper.exists_asks declarative hfollow₂ hreadb hmem₂ hitems₂ (i := 1) rfl hrest
  refine ⟨v₁, v₂, horder v₂ (.single ⟨1, hv₂⟩), ?_, ?_, by omega, ?_, hnames⟩
  · rw [hpath₁]
    decide +kernel
  · rw [hpath₂]
    decide +kernel
  · rw [hloading₂, hloading]
    rfl

end Sharing

theorem InOrder.registers_nothing_sharing :
    ∃ v₁ v₂ : Visit, (first sharing "main").InOrder sharing v₁ v₂ ∧
      sharing.tree.follow sharing.directory v₁.path = .ok ⟨["a"]⟩ ∧
      sharing.tree.follow sharing.directory v₂.path = .ok ⟨["a"]⟩ ∧
      v₂.session.loading = [⟨["lib", "b"]⟩, ⟨["main"]⟩] ∧
      v₂.session.registry.names = [⟨"a"⟩, ⟨"b"⟩] ∧ sharing.Fits v₂.levels ⟨["a"]⟩ ∧
      ∃ answer t, v₂.outcome sharing = (.ok answer, t) ∧
        t.registry = v₂.session.registry := by
  obtain ⟨v₁, v₂, horder, hpath₁, hpath₂, hlevels, hloading, hnames⟩ := Sharing.exists_inOrder
  have hf₁ : sharing.tree.follow sharing.directory v₁.path = .ok ⟨["a"]⟩ := by
    rw [hpath₁]
    rfl
  have hf₂ : sharing.tree.follow sharing.directory v₂.path = .ok ⟨["a"]⟩ := by
    rw [hpath₂]
    rfl
  have hidle : ∀ m, sharing.LeadsTo ⟨["a"]⟩ m → m ∉ v₂.session.loading := by
    intro m hm
    rw [Sharing.eq_of_leadsTo hm, hloading]
    decide
  have hfits : sharing.Fits v₂.levels ⟨["a"]⟩ :=
    hlevels ▸ Sharing.fits.mono (by decide)
  obtain ⟨-, -, hagain⟩ := horder.registers_nothing Sharing.declarative hf₁ hf₂ hidle
  exact ⟨v₁, v₂, horder, hf₁, hf₂, hloading, hnames, hfits, hagain.1 hfits⟩

end Visit

/-! ### A file nested too deeply -/

namespace Nest

variable {w : Workspace} {start : String} {n i : Nat} {m : Location}

theorem exists_of_leadsTo (ht : Holds w.tree n) (hn : n ≤ 2000) (hi : i ≤ n)
    (h : w.LeadsTo (file i) m) : ∃ j, i ≤ j ∧ j ≤ n ∧ m = file j := by
  induction h with
  | refl => exact ⟨i, Nat.le_refl i, hi, rfl⟩
  | tail _ hincludes ih =>
      obtain ⟨j, hij, hj, rfl⟩ := ih
      obtain ⟨text', items, path', htext, hitems, hpath, hnamed⟩ := hincludes
      rcases Nat.lt_or_eq_of_le hj with hj | rfl
      · obtain rfl := Except.ok.inj ((ht.read_above hj).symm.trans htext)
        obtain rfl := Option.some.inj ((read_text j).1.symm.trans hitems)
        obtain rfl := Item.inclusion.inj (List.mem_singleton.1 hpath)
        rw [ht.named_above hj hn] at hnamed
        exact ⟨j + 1, Nat.le_succ_of_le hij, hj, (Except.ok.inj hnamed).symm⟩
      · obtain rfl := Except.ok.inj (ht.read_last.symm.trans htext)
        obtain rfl := Option.some.inj (read_lastText.1.symm.trans hitems)
        cases List.mem_singleton.1 hpath

/-- From the visit of a file on, those below it are visited inside one another. -/
theorem exists_contains (hw : w.Declarative start) (ht : Holds w.tree n) (hn : n ≤ 2000)
    {v : Visit} {k : Nat} (hv : v.Proper w start) (hk : i + k ≤ n)
    (hl : w.tree.follow w.directory v.path = .ok (file i)) (hlevels : k + depth ≤ v.levels)
    (hopened : ∀ j, i ≤ j → file j ∉ v.session.loading) :
    ∃ v', v.Contains w v' ∧ w.tree.follow w.directory v'.path = .ok (file (i + k)) ∧
      v'.levels + k = v.levels ∧ ∀ j, i + k ≤ j → file j ∉ v'.session.loading := by
  induction k generalizing i v with
  | zero => exact ⟨v, .refl, hl, rfl, hopened⟩
  | succ k ih =>
      have hi : i < n := by omega
      have hroom : v.session.loading.length + depth ≤ Session.levelLimit := by
        have hlimit := hv.levels
        omega
      have hitems := (Item.fitting?_eq_ofText? (by decide) hroom (read_text i).2).trans
        (read_text i).1
      obtain ⟨v', hasks, -, hnext, hlevels', hloading, -⟩ := hv.exists_asks hw hl
        (ht.read_above hi) (hopened i (Nat.le_refl i)) hitems (i := 0) rfl rfl
      rw [ht.named_above hi hn] at hnext
      have hopened' : ∀ j, i + 1 ≤ j → file j ∉ v'.session.loading := by
        intro j hj hmem
        rw [hloading] at hmem
        rcases List.mem_cons.1 hmem with hsame | hmem
        · exact absurd (file_injective hsame) (Nat.ne_of_gt hj)
        · exact hopened j (Nat.le_of_succ_le hj) hmem
      obtain ⟨v'', hcontains, hfollow, hdeep, hbelow⟩ :=
        ih (hasks.proper hw hv) (by omega) hnext (by omega) hopened'
      have hsum : i + 1 + k = i + (k + 1) := by omega
      rw [hsum] at hfollow hbelow
      exact ⟨v'', .head ⟨0, hasks⟩ hcontains, hfollow, by omega, hbelow⟩

theorem not_mem_main (i : Nat) : file i ∉ [(⟨["main"]⟩ : Location)] :=
  fun hmem => file_ne_main i (List.mem_singleton.1 hmem)

/-- In the file that is run first, the file far down comes to its declaration. -/
theorem flatten_deep :
    flatten returning Item.fitting? [⟨["main"]⟩] (returning.tree.named .root deepPath) =
      [.declaration .project ⟨"a", []⟩] := by
  have hread : ∀ m ≤ Session.levelLimit - depth, ∀ text, (Chunk.ofText depth text).isOk →
      Item.fitting? m text = Item.ofText? text := by
    intro m hm text hok
    have hlimit : depth ≤ Session.levelLimit := by decide
    exact Item.fitting?_eq_ofText? (by decide) (by omega) hok
  have hbound : [(⟨["main"]⟩ : Location)].length + 19 ≤ Session.levelLimit - depth := by decide
  rw [named_deep holds_returning (by decide) (by decide)]
  exact flatten_eq_declaration hread holds_returning (by decide) rfl hbound
    fun j _ => not_mem_main j

/-- The file far down is included, and then again in the files above it. -/
theorem exists_inOrder :
    ∃ v₁ v₂ : Visit, (Visit.first returning "main").InOrder returning v₁ v₂ ∧
      returning.tree.follow returning.directory v₁.path = .ok (file 190) ∧
      returning.tree.follow returning.directory v₂.path = .ok (file 190) ∧
      v₂.levels = 8 ∧ ∀ j, 190 ≤ j → file j ∉ v₂.session.loading := by
  have hw := declarative_returning
  have ht := holds_returning
  have hfollow : returning.tree.follow returning.directory "main" = .ok ⟨["main"]⟩ := by rfl
  have hitems := (Item.fitting?_eq_ofText? (n := 0) (by decide) (by decide)
    read_returningText.1.2).trans read_returningText.1.1
  obtain ⟨r, hr, -⟩ : ∃ r, [Part.declaration .project ⟨"a", []⟩].foldlM Part.apply .empty = .ok r ∧
      r.names = [⟨"a"⟩] := exists_of_map_eq_ok (by rfl)
  rw [← flatten_deep] at hr
  obtain ⟨v₁, p₂, horder, ⟨-, hf₁⟩, hproper, hfirst, hlevels, hloading, -⟩ :=
    Visit.exists_of_two_inclusions hw hfollow read_returning hitems hr
  have hroom : 190 + depth ≤ p₂.levels := by
    rw [depth]
    omega
  have hopened : ∀ j, 0 ≤ j → file j ∉ p₂.session.loading := by
    rw [hloading]
    exact fun j _ => not_mem_main j
  obtain ⟨v₂, hv₂, hf₂, hlevels₂, hopened₂⟩ := exists_contains hw ht (by decide) hproper
    (by decide) (hfirst.trans (ht.named_first (by decide))) hroom hopened
  exact ⟨v₁, v₂, horder v₂ hv₂, hf₁.trans (named_deep ht (by decide) (by decide)), hf₂, by omega,
    hopened₂⟩

end Nest

namespace Visit

open Nest

/-- A file far down in a nest has been included, and is included again in the files above it, when
neither it nor a file that it leads to is open; but now there are too few levels left for it. -/
theorem inOrder_returning :
    returning.Declarative "main" ∧
      ∃ v₁ v₂ : Visit, (first returning "main").InOrder returning v₁ v₂ ∧
        returning.tree.follow returning.directory v₁.path = .ok (file 190) ∧
        returning.tree.follow returning.directory v₂.path = .ok (file 190) ∧
        (∀ m, returning.LeadsTo (file 190) m → m ∉ v₂.session.loading) ∧
        (∃ answer t, v₁.outcome returning = (.ok answer, t)) ∧
        ¬∃ answer t, v₂.outcome returning = (.ok answer, t) := by
  have hw := declarative_returning
  have hproper := Proper.first returning "main"
  obtain ⟨v₁, v₂, horder, hf₁, hf₂, hlevels, hopened⟩ := exists_inOrder
  obtain ⟨answer, t, hend, -⟩ := horder.grows hw hproper
  refine ⟨hw, v₁, v₂, horder, hf₁, hf₂, fun m hm => ?_, ⟨answer, t, hend⟩, ?_⟩
  · obtain ⟨j, hj, -, rfl⟩ := exists_of_leadsTo holds_returning (by decide) (by decide) hm
    exact hopened j hj
  · rintro ⟨answer', t', hend'⟩
    have hproper₂ := (horder.proper hw hproper).2
    have hfailure := failure_not_mem_of_foldlM (hproper₂.foldlM_parts hw hend')
    have hdeep : v₂.session.loading.length + 8 = Session.levelLimit := hlevels ▸ hproper₂.levels
    unfold parts at hfailure
    rw [hf₂, flatten_fitting? holds_returning (by decide) (by decide) hdeep] at hfailure
    exact hfailure (List.mem_singleton_self _)

end Visit

end BuildPlan
