import Mathlib.Logic.Relation
import BuildPlan.Proofs.Declarative.Flattening

/-! # Files that fit

A file that is run takes a level, so how much it can include depends on how many levels are left.
So many levels are enough for a file (`Workspace.Fits`) if its text can be read with them and every
file that it includes fits one level less.

If flattening a file comes to no failure, then the file fits the levels that are left
(`fits_of_failure_not_mem`), and none of the files that it leads to is open
(`not_mem_of_leadsTo`).  Where it fits too, and none of these files is open, it is flattened to the
same parts (`flatten_eq_of_fits`). -/

namespace BuildPlan

namespace Workspace

/-- A declarative file includes another file. -/
def Includes (w : Workspace) (l m : Location) : Prop :=
  ∃ text items path, w.tree.read l = .ok text ∧ Item.ofText? text = some items ∧
    .inclusion path ∈ items ∧ w.tree.named l.parent path = .ok m

/-- A file is another one, or includes it over any number of files. -/
abbrev LeadsTo (w : Workspace) : Location → Location → Prop := Relation.ReflTransGen w.Includes

/-- So many levels are enough to run a file with all that it includes. -/
def Fits (w : Workspace) : Nat → Location → Prop
  | 0, _ => False
  | levels + 1, l =>
      (∃ text, w.tree.read l = .ok text ∧ (Chunk.ofText (levels + 1) text).isOk) ∧
        ∀ m, w.Includes l m → Fits w levels m

theorem Fits.mono {w : Workspace} {levels levels' : Nat} {l : Location} (hl : w.Fits levels l)
    (h : levels ≤ levels') : w.Fits levels' l := by
  induction levels generalizing levels' l with
  | zero => cases hl
  | succ levels ih =>
      obtain ⟨levels', rfl⟩ : ∃ n, levels' = n + 1 := ⟨levels' - 1, by omega⟩
      obtain ⟨⟨text, htext, hread⟩, hincluded⟩ := hl
      refine ⟨⟨text, htext, Chunk.isOk_ofText_of_le h hread⟩, fun m hm => ?_⟩
      exact ih (hincluded m hm) (Nat.le_of_succ_le_succ h)

end Workspace

variable {w : Workspace} {opened opened' : List Location} {l m : Location} {levels : Nat}

/-- A file without failures can be read, is not open, and all that it includes is without failures,
too. -/
theorem exists_of_failure_not_mem (h : .failure ∉ flatten w Item.fitting? opened (.ok l)) :
    ∃ text items, w.tree.read l = .ok text ∧ l ∉ opened ∧
      Item.fitting? opened.length text = some items ∧
      flatten w Item.fitting? opened (.ok l) = items.flatMap (Item.parts fun path =>
        flatten w Item.fitting? (l :: opened) (w.tree.named l.parent path)) ∧
      ∀ path, .inclusion path ∈ items → ∃ m, w.tree.named l.parent path = .ok m ∧
        w.Includes l m ∧ .failure ∉ flatten w Item.fitting? (l :: opened) (.ok m) := by
  cases htext : w.tree.read l with
  | error e =>
      rw [flatten_of_unreadable htext] at h
      exact absurd (List.mem_singleton_self _) h
  | ok text =>
      by_cases hl : l ∈ opened
      · rw [flatten_of_mem hl] at h
        exact absurd (List.mem_singleton_self _) h
      cases hitems : Item.fitting? opened.length text with
      | none =>
          rw [flatten_of_none hitems htext] at h
          exact absurd (List.mem_singleton_self _) h
      | some items =>
          have hflatten := flatten_of_some hitems htext hl
          refine ⟨text, items, rfl, hl, hitems, hflatten, fun path hpath => ?_⟩
          have hincluded : .failure ∉
              flatten w Item.fitting? (l :: opened) (w.tree.named l.parent path) := by
            intro hfailure
            rw [hflatten] at h
            exact h (List.mem_flatMap.2 ⟨_, hpath, hfailure⟩)
          cases hm : w.tree.named l.parent path with
          | error e =>
              rw [hm, flatten_of_error] at hincluded
              exact absurd (List.mem_singleton_self _) hincluded
          | ok m =>
              obtain ⟨-, -, hofText⟩ := Item.fitting?_eq_some_iff.1 hitems
              exact ⟨m, rfl, ⟨text, items, path, htext, hofText, hpath, hm⟩, hm ▸ hincluded⟩

/-- What a file without failures includes is without failures. -/
theorem failure_not_mem_of_includes (h : .failure ∉ flatten w Item.fitting? opened (.ok l))
    (hm : w.Includes l m) : .failure ∉ flatten w Item.fitting? (l :: opened) (.ok m) := by
  obtain ⟨text, items, htext, -, hitems, -, hincluded⟩ := exists_of_failure_not_mem h
  obtain ⟨text', items', path, htext', hitems', hpath, hnamed⟩ := hm
  obtain rfl := Except.ok.inj (htext.symm.trans htext')
  have hofText := (Item.fitting?_eq_some_iff.1 hitems).2.2
  obtain rfl := Option.some.inj (hofText.symm.trans hitems')
  obtain ⟨m', hm', -, hfailure⟩ := hincluded path hpath
  obtain rfl := Except.ok.inj (hnamed.symm.trans hm')
  exact hfailure

/-- No file that a file without failures leads to is open. -/
theorem not_mem_of_leadsTo (h : .failure ∉ flatten w Item.fitting? opened (.ok l))
    (hm : w.LeadsTo l m) : m ∉ opened := by
  induction hm using Relation.ReflTransGen.head_induction_on generalizing opened with
  | refl =>
      obtain ⟨_, _, _, hopened, _⟩ := exists_of_failure_not_mem h
      exact hopened
  | head hstep _ ih =>
      exact fun hmem => ih (failure_not_mem_of_includes h hstep) (List.mem_cons_of_mem _ hmem)

/-- A file without failures fits the levels that are left. -/
theorem fits_of_failure_not_mem (h : .failure ∉ flatten w Item.fitting? opened (.ok l))
    (hlevels : opened.length + levels = Session.levelLimit) : w.Fits levels l := by
  induction levels generalizing opened l with
  | zero =>
      rw [flatten_of_limit (Nat.le_of_eq hlevels.symm)] at h
      exact absurd (List.mem_singleton_self _) h
  | succ levels ih =>
      obtain ⟨text, items, htext, -, hitems, -, -⟩ := exists_of_failure_not_mem h
      obtain ⟨-, hread, -⟩ := Item.fitting?_eq_some_iff.1 hitems
      have hleft : Session.levelLimit - opened.length = levels + 1 := by omega
      rw [hleft] at hread
      refine ⟨⟨text, htext, hread⟩, fun m hm => ih (failure_not_mem_of_includes h hm) ?_⟩
      rw [List.length_cons]
      omega

/-- A file without failures is flattened to the same parts wherever it fits and none of the files
that it leads to is open. -/
theorem flatten_eq_of_fits (h : .failure ∉ flatten w Item.fitting? opened (.ok l))
    (hl : w.Fits levels l) (hlevels : opened'.length + levels = Session.levelLimit)
    (hopened' : ∀ m, w.LeadsTo l m → m ∉ opened') :
    flatten w Item.fitting? opened' (.ok l) = flatten w Item.fitting? opened (.ok l) := by
  induction levels generalizing opened opened' l with
  | zero => cases hl
  | succ levels ih =>
      obtain ⟨text, items, htext, -, hitems, hparts, hincluded⟩ := exists_of_failure_not_mem h
      obtain ⟨⟨text', htext', hread⟩, hfits⟩ := hl
      obtain rfl := Except.ok.inj (htext.symm.trans htext')
      have hitems' : Item.fitting? opened'.length text = some items := by
        have hleft : Session.levelLimit - opened'.length = levels + 1 := by omega
        have hofText := (Item.fitting?_eq_some_iff.1 hitems).2.2
        exact Item.fitting?_eq_some_iff.2 ⟨by omega, hleft.symm ▸ hread, hofText⟩
      rw [hparts, flatten_of_some hitems' htext (hopened' l .refl)]
      refine List.flatMap_congr fun item hitem => ?_
      cases item with
      | declaration kind spec => rfl
      | inclusion path =>
          obtain ⟨m, hm, hincludes, hfailure⟩ := hincluded path hitem
          simp only [Item.parts, hm]
          refine ih hfailure (hfits m hincludes) ?_ fun m' hm' hmem => ?_
          · rw [List.length_cons]
            omega
          · -- The file itself is open around what it includes, so nothing of that leads to it.
            rcases List.mem_cons.1 hmem with rfl | hmem
            · exact not_mem_of_leadsTo hfailure hm' List.mem_cons_self
            · exact hopened' m' (.head hincludes hm') hmem

end BuildPlan
