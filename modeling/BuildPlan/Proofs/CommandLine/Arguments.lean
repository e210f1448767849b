import BuildPlan.CommandLine.Invocation

/-! # Reading root options

A root is named by an option in one of five forms (`RootOption`).  Whichever is used, and whether
the options stand before the file or behind it, the words ask for the plan of the file and of the
roots in the order in which they were named (`readArguments_plan`). -/

namespace BuildPlan.CommandLine

variable {file root : String} {roots words : List String} {d : Draft}

/-! ### The forms of words -/

/-- A word that does not begin like an option stands for itself. -/
theorem ofText_plain {text : String} (h : text.toList.head? ≠ some '-') :
    Word.ofText text = .plain text := by
  unfold Word.ofText
  split
  next heq => simp [heq] at h
  next heq => simp [heq] at h
  next heq => simp [heq] at h
  next => rfl

theorem ofText_long_root (root : String) :
    Word.ofText ("--root=" ++ root) = .long "root" (some root) := by
  have hchars : ("--root=" ++ root).toList =
      '-' :: '-' :: 'r' :: 'o' :: 'o' :: 't' :: '=' :: root.toList := String.toList_append
  unfold Word.ofText
  rw [hchars]
  change Word.long "root" (some (String.ofList root.toList)) = _
  rw [String.ofList_toList]

/-- Letters behind one dash are a cluster of options. -/
theorem ofText_letters {text : String} {c : Char} {cs : List Char}
    (h : text.toList = '-' :: c :: cs) (hc : c ≠ '-') : Word.ofText text = .letters (c :: cs) := by
  unfold Word.ofText
  rw [h]
  split
  next heq => exact absurd (List.cons.inj (List.cons.inj heq).2).1 hc
  next heq => exact absurd (List.cons.inj (List.cons.inj heq).2).1 hc
  next heq =>
    obtain ⟨rfl, rfl⟩ := List.cons.inj (List.cons.inj heq).2
    rfl
  next hother => exact absurd rfl (hother c cs)

/-! ### Options that name roots -/

/-- The words of an option that names a root. -/
inductive RootOption : List String → String → Prop
  | long {root : String} (hvalue : isValue root = true) : RootOption ["--root", root] root
  | short {root : String} (hvalue : isValue root = true) : RootOption ["-r", root] root
  | longAttached (root : String) : RootOption ["--root=" ++ root] root
  | shortAttached (root : String) : RootOption ["-r=" ++ root] root
  | joined {root : String} (hne : root ≠ "") (hsign : root.toList.head? ≠ some '=') :
      RootOption ["-r" ++ root] root

/-- The words of several options that name roots, one after the other. -/
inductive RootOptions : List String → List String → Prop
  | nil : RootOptions [] []
  | cons {option words roots : List String} {root : String} :
      RootOption option root → RootOptions words roots →
        RootOptions (option ++ words) (root :: roots)

/-- The draft with one more root. -/
def Draft.withRoot (d : Draft) (root : String) : Draft := { d with roots := root :: d.roots }

theorem readWord_of_letters {text : String} {cs : List Char} (hd : d.filesOnly = false)
    (h : Word.ofText text = .letters cs) : readWord .plan d text = readLetters .plan d cs := by
  unfold readWord
  rw [hd, h]
  rfl

/-- Behind the letter an equals sign is no part of the root. -/
theorem readLetters_sign (d : Draft) (cs : List Char) :
    readLetters .plan d ('r' :: '=' :: cs) = .ok (d.withRoot (String.ofList cs), none) := rfl

theorem readLetters_joined (d : Draft) {c : Char} (hc : c ≠ '=') (cs : List Char) :
    readLetters .plan d ('r' :: c :: cs) = .ok (d.withRoot (String.ofList (c :: cs)), none) := by
  unfold readLetters
  simp only [Flag.ofLetter?, Flag.belongsTo, Flag.takesValue]
  simp only [decide_true, Bool.not_true, Bool.false_eq_true, if_false, if_true]
  split
  next heq => cases heq
  next heq => exact absurd (List.cons.inj heq).1 hc
  next => rfl

/-- An option with its root in one word. -/
theorem readWords_of_readWord {text : String}
    (h : readWord .plan d text = .ok (d.withRoot root, none)) :
    readWords .plan d none ([text] ++ words) = readWords .plan (d.withRoot root) none words := by
  rw [List.singleton_append, readWords, h]

/-- An option whose root is the next word. -/
theorem readWords_of_waiting {text : String} (h : readWord .plan d text = .ok (d, some .root))
    (hvalue : isValue root = true) :
    readWords .plan d none ([text, root] ++ words) =
      readWords .plan (d.withRoot root) none words := by
  rw [List.cons_append, List.singleton_append, readWords, h]
  dsimp only
  rw [readWords, if_pos hvalue]
  rfl

theorem readWords_rootOption {option : List String} (h : RootOption option root)
    (hd : d.filesOnly = false) :
    readWords .plan d none (option ++ words) = readWords .plan (d.withRoot root) none words := by
  cases h with
  | long hvalue =>
      refine readWords_of_waiting ?_ hvalue
      unfold readWord
      rw [hd]
      rfl
  | short hvalue =>
      refine readWords_of_waiting ?_ hvalue
      have hletters : Word.ofText "-r" = .letters ['r'] := rfl
      exact readWord_of_letters hd hletters
  | longAttached =>
      refine readWords_of_readWord ?_
      unfold readWord
      rw [hd, ofText_long_root]
      rfl
  | shortAttached =>
      refine readWords_of_readWord ?_
      have hchars : ("-r=" ++ root).toList = '-' :: 'r' :: '=' :: root.toList :=
        String.toList_append
      rw [readWord_of_letters hd (ofText_letters hchars (by decide)), readLetters_sign,
        String.ofList_toList]
  | joined hne hsign =>
      refine readWords_of_readWord ?_
      have hchars : ("-r" ++ root).toList = '-' :: 'r' :: root.toList := String.toList_append
      rw [readWord_of_letters hd (ofText_letters hchars (by decide))]
      cases hroot : root.toList with
      | nil => exact absurd (String.toList_eq_nil_iff.1 hroot) hne
      | cons c cs =>
          have hc : c ≠ '=' := fun hc => hsign (by rw [hroot, hc, List.head?_cons])
          rw [readLetters_joined d hc, ← hroot, String.ofList_toList]

theorem readWords_rootOptions {options : List String} (h : RootOptions options roots)
    (hd : d.filesOnly = false) :
    readWords .plan d none (options ++ words) =
      readWords .plan { d with roots := roots.reverse ++ d.roots } none words := by
  induction h generalizing d with
  | nil => rfl
  | @cons _ _ _ root hoption _ ih =>
      have hnext := ih (d := d.withRoot root) hd
      rw [List.append_assoc, readWords_rootOption hoption hd, hnext]
      simp [Draft.withRoot]

/-! ### The words of a command for a file -/

section

variable {verb : Verb} (h : file.toList.head? ≠ some '-') (hd : d.filesOnly = false)

include h hd

theorem readWord_file : readWord verb d file = (d.setFile file).map (·, none) := by
  unfold readWord
  rw [hd, ofText_plain h]
  rfl

theorem readWords_file (hnone : d.file = none) (hfile : file ≠ "") :
    readWords verb d none (file :: words) =
      readWords verb { d with file := some file } none words := by
  have hset : d.setFile file = .ok { d with file := some file } := by
    unfold Draft.setFile
    rw [if_neg fun hempty => hfile (String.isEmpty_iff.1 hempty), hnone]
  rw [readWords, readWord_file h hd, hset]
  rfl

end

theorem readWords_empty {verb : Verb} (hd : d.filesOnly = false) :
    readWords verb d none ("" :: words) = .error (.refused "the file name is empty") := by
  have hplain : "".toList.head? ≠ some '-' := by decide
  rw [readWords, readWord_file hplain hd]
  rfl

section

variable {name : String} {verb : Verb} (hplain : Word.ofText name = .plain name)
  (hverb : Verb.ofName? name = some verb)

include hplain hverb

theorem readArguments_of_ok (h : readWords verb .start none words = .ok d) :
    readArguments (name :: words) = .run ⟨d.command verb, d.verbose⟩ := by
  have hhelp : name ≠ "help" := by
    rintro rfl
    cases hverb
  unfold readArguments readFirst
  simp only [hplain, hverb, h, Bool.false_or]

theorem readArguments_of_error {e : Halt} (h : readWords verb .start none words = .error e) :
    readArguments (name :: words) = e.request := by
  have hhelp : name ≠ "help" := by
    rintro rfl
    cases hverb
  unfold readArguments readFirst
  simp only [hplain, hverb, h]

end

/-- The words that ask for the plan of a file and of roots, with the options before the file and
behind it. -/
inductive PlanWords (file : String) : List String → List String → Prop
  | intro {before behind roots₁ roots₂ : List String} :
      RootOptions before roots₁ → RootOptions behind roots₂ →
        PlanWords file (roots₁ ++ roots₂) ("plan" :: (before ++ file :: behind))

theorem readArguments_check_empty :
    readArguments ["check", ""] = .refused "the file name is empty" := by
  rw [readArguments_of_error rfl rfl (readWords_empty rfl)]
  rfl

theorem readArguments_plan_empty (h : PlanWords "" roots words) :
    readArguments words = .refused "the file name is empty" := by
  obtain @⟨before, behind, roots₁, roots₂, hbefore, -⟩ := h
  have hread : readWords .plan .start none (before ++ "" :: behind) =
      .error (.refused "the file name is empty") := by
    rw [readWords_rootOptions hbefore rfl, readWords_empty rfl]
  rw [readArguments_of_error rfl rfl hread]
  rfl

theorem readArguments_check (h : file.toList.head? ≠ some '-') (hfile : file ≠ "") :
    readArguments ["check", file] = .run ⟨.check file, false⟩ := by
  have hread : readWords .check .start none [file] =
      .ok { Draft.start with file := some file } := by
    rw [readWords_file h rfl rfl hfile, readWords]
  rw [readArguments_of_ok rfl rfl hread]
  rfl

/-- The words ask for the file and for the roots in the order of their options. -/
theorem readArguments_plan (h : file.toList.head? ≠ some '-') (hfile : file ≠ "")
    (hwords : PlanWords file roots words) :
    readArguments words = .run ⟨.plan file roots false .text, false⟩ := by
  obtain @⟨before, behind, roots₁, roots₂, hbefore, hbehind⟩ := hwords
  have hread : readWords .plan .start none (before ++ file :: behind) =
      .ok { Draft.start with file := some file, roots := (roots₁ ++ roots₂).reverse } := by
    rw [readWords_rootOptions hbefore rfl, readWords_file h rfl rfl hfile]
    rw [← List.append_nil behind, readWords_rootOptions hbehind rfl, readWords]
    simp [Draft.start]
  rw [readArguments_of_ok rfl rfl hread]
  simp [Draft.command, Draft.start]

end BuildPlan.CommandLine
