import BuildPlan.CommandLine
import BuildPlan.Proofs.CommandLine.Arguments
import BuildPlan.Proofs.Declarative.Registration
import BuildPlan.Proofs.Registry
import BuildPlan.Proofs.Resolve.Roots

/-! # `check` and `plan` agree

`check` and `plan` without roots resolve all declared names first, so they fail together and for the
same reason (`result_plan_of_check`).  If they succeed, both count the declared projects.
Roots are then resolved if they are declared, and the first one that is not is told as unknown.
Unless more of the log is asked for, there is none (`log_of_quiet`), so all that is printed of a
failure is its reason, behind what scripts print.

Each command runs in a process of its own, and scripts can show what differs between the two
(`respond_showing`).  So the main statement, `respond_check_plan`, is about a file that comes out
the same in both processes, as declarative files do (`Workspace.Declarative.alike`). -/

namespace BuildPlan

/-- What the evaluation of a file comes to is the same in two workspaces. -/
structure Workspace.Alike (w v : Workspace) (file : String) : Prop where
  result : (evaluateFile v file).result = (evaluateFile w file).result
  printed : (evaluateFile v file).printed = (evaluateFile w file).printed

/-- Declarative files that come to a registry do so in every process. -/
theorem Workspace.Declarative.alike {w : Workspace} {file : String} {r : Registry}
    (hw : w.Declarative file) (hr : (evaluateFile w file).result = some (.ok r)) (m : Machine) :
    w.Alike (w.on m) file where
  result := (evaluateFile_on hw hr m).1.trans hr.symm
  printed := (evaluateFile_on hw hr m).2

namespace CommandLine

variable {w v : Workspace} {file : String} {r : Registry} {p q : Plan}

/-! ### The log that is kept unless more is asked for -/

theorem keeps_upTo (limit : Level) (l : LogLine) :
    (LogFilter.upTo limit).keeps l = decide (l.level.rank ≤ limit.rank) := rfl

theorem lt_rank_of_line? {e : Event} {l : LogLine} (h : e.line? = some l) :
    Level.warn.rank < l.level.rank := by
  cases e <;> cases h <;> simp [Level.rank]

/-- No line is important enough to be kept. -/
theorem log_of_quiet (events : List Event) : (logFilter none false).log events = [] := by
  refine List.map_eq_nil_iff.2 (List.filter_eq_nil_iff.2 fun l hl => ?_)
  obtain ⟨e, -, he⟩ := List.mem_filterMap.1 hl
  have hkeeps : (logFilter none false).keeps l = decide (l.level.rank ≤ Level.warn.rank) :=
    keeps_upTo .warn l
  rw [hkeeps, decide_eq_true_eq]
  exact Nat.not_le_of_lt (lt_rank_of_line? he)

/-! ### Carrying out the commands -/

theorem result_withRegistry (w : Workspace) (file : String) (k : Registry → Execution) :
    (withRegistry w file k).result =
      match (evaluateFile w file).result with
      | some (.ok r) => (k r).result
      | some (.error err) =>
          some (.error ("Failed to evaluate declarations: " ++ file ++ ": " ++ err.message))
      | none => none := by
  unfold withRegistry
  dsimp only
  rcases (evaluateFile w file).result with _ | ⟨err | r⟩
  · rfl
  · rfl
  · rfl

/-- What goes on with a registry prints nothing, so only the evaluation does. -/
theorem printed_withRegistry (w : Workspace) (file : String) {k : Registry → Execution}
    (hk : ∀ r, (k r).printed = []) :
    (withRegistry w file k).printed = (evaluateFile w file).printed := by
  unfold withRegistry
  dsimp only
  rcases (evaluateFile w file).result with _ | ⟨err | r⟩
  · rfl
  · rfl
  · change (evaluateFile w file).printed ++ (k r).printed = _
    rw [hk, List.append_nil]

theorem printed_withPlan {roots : List TargetName} {context : String} {k : Plan → Execution}
    (hk : ∀ p, (k p).printed = []) : (withPlan r roots context k).printed = [] := by
  unfold withPlan
  cases resolve r roots with
  | ok p => exact hk p
  | error e => rfl

theorem printed_check (w : Workspace) (file : String) :
    (Command.execute w (.check file)).printed = (evaluateFile w file).printed :=
  printed_withRegistry w file fun _ => printed_withPlan fun _ => rfl

theorem printed_plan (w : Workspace) (file : String) (roots : List String) (waves : Bool)
    (format : Format) :
    (Command.execute w (.plan file roots waves format)).printed =
      (evaluateFile w file).printed := by
  refine printed_withRegistry w file fun r => ?_
  dsimp only
  split
  · exact printed_withPlan fun _ => printed_withPlan fun _ => rfl
  · exact printed_withPlan fun _ => rfl

/-- `plan` comes to the same in workspaces in which the file does. -/
theorem result_plan_of_alike (halike : w.Alike v file) (roots : List String) (waves : Bool)
    (format : Format) :
    (Command.execute v (.plan file roots waves format)).result =
      (Command.execute w (.plan file roots waves format)).result := by
  unfold Command.execute
  rw [result_withRegistry, result_withRegistry, halike.result]

theorem execute_check_of_ok (hr : (evaluateFile w file).result = some (.ok r))
    (hp : resolve r r.names = .ok p) :
    (Command.execute w (.check file)).result = some (.ok (checkReport file r p)) := by
  simp only [Command.execute, withRegistry, hr, withAll, withPlan, hp, report]

/-- Without roots, `plan` fails as `check` does, and breaks off as it does. -/
theorem result_plan_of_check (waves : Bool) (format : Format)
    (h : ∀ s, (Command.execute w (.check file)).result ≠ some (.ok s)) :
    (Command.execute w (.plan file [] waves format)).result =
      (Command.execute w (.check file)).result := by
  rcases hr : (evaluateFile w file).result with _ | ⟨err | r⟩
  · simp only [Command.execute, result_withRegistry, hr]
  · simp only [Command.execute, result_withRegistry, hr]
  · cases hp : resolve r r.names with
    | error e =>
        simp only [Command.execute, result_withRegistry, hr, withAll, withPlan, hp,
          List.isEmpty_nil, if_true]
    | ok p => exact absurd (execute_check_of_ok hr hp) (h _)

theorem execute_check_eq_ok {s : String}
    (h : (Command.execute w (.check file)).result = some (.ok s)) :
    ∃ r p, (evaluateFile w file).result = some (.ok r) ∧ resolve r r.names = .ok p ∧
      s = checkReport file r p := by
  rcases hr : (evaluateFile w file).result with _ | ⟨err | r⟩
  · simp only [Command.execute, result_withRegistry, hr] at h
    cases h
  · simp only [Command.execute, result_withRegistry, hr] at h
    cases h
  · cases hp : resolve r r.names with
    | error e =>
        simp only [Command.execute, result_withRegistry, hr, withAll, withPlan, hp] at h
        cases h
    | ok p =>
        rw [execute_check_of_ok hr hp] at h
        exact ⟨r, p, rfl, hp, (Except.ok.inj (Option.some.inj h)).symm⟩

section

variable {roots : List String} (hr : (evaluateFile w file).result = some (.ok r))
  (hroots : roots ≠ []) (waves : Bool) (format : Format)

include hr hroots

theorem execute_roots_of_ok (hq : resolve r (roots.map TargetName.mk) = .ok q) :
    (Command.execute w (.plan file roots waves format)).result =
      some (.ok (planReport (roots.map .mk) q waves format)) := by
  have hne : ¬roots.isEmpty = true := fun h => hroots (List.isEmpty_iff.1 h)
  simp only [Command.execute, withRegistry, hr, if_neg hne, withPlan, hq, report]

theorem execute_roots_of_error {e : PlanError}
    (he : resolve r (roots.map TargetName.mk) = .error e) :
    (Command.execute w (.plan file roots waves format)).result =
      some (.error ("Failed to resolve build plan: " ++ e.message)) := by
  have hne : ¬roots.isEmpty = true := fun h => hroots (List.isEmpty_iff.1 h)
  have hcontext : "Failed to resolve build plan" ++ ": " = "Failed to resolve build plan: " := rfl
  simp only [Command.execute, withRegistry, hr, if_neg hne, withPlan, he, hcontext]

end

/-! ### Answers without a log -/

section

variable {words : List String} {c : Command} (hread : readArguments words = .run ⟨c, false⟩)

include hread

theorem respond_of_ok {s : String} (h : (c.execute w).result = some (.ok s)) :
    respond w none words =
      ⟨0, (c.execute w).printed, s, [], requestedFiles (c.execute w).events⟩ := by
  unfold respond
  rw [hread]
  dsimp only [respondTo]
  rw [h, log_of_quiet]

theorem respond_of_error {message : String} (h : (c.execute w).result = some (.error message)) :
    respond w none words =
      ⟨1, (c.execute w).printed, "", ["✗ " ++ message],
        requestedFiles (c.execute w).events⟩ := by
  unfold respond
  rw [hread]
  dsimp only [respondTo]
  rw [h, log_of_quiet]
  rfl

theorem respond_of_none (h : (c.execute w).result = none) :
    respond w none words =
      ⟨101, (c.execute w).printed, "", [], requestedFiles (c.execute w).events⟩ := by
  unfold respond
  rw [hread]
  dsimp only [respondTo]
  rw [h, log_of_quiet]

end

theorem respond_of_refused {words : List String} {reason : String}
    (hread : readArguments words = .refused reason) :
    respond w none words = ⟨2, [], "", ["error: " ++ reason, "", usage], []⟩ := by
  unfold respond
  rw [hread]
  rfl

/-! ### Answers that agree -/

/-- The answers to `check` and to `plan` without roots: both succeed, or both fail for the same
reason or break off.  If they succeed, both tell the same number of projects and of top-level
targets.  Besides, they print what scripts print. -/
structure Agree (file : String) (check plan : Response) : Prop where
  exitCode_eq : check.exitCode = plan.exitCode
  printed_eq : check.printed = plan.printed
  of_failure : check.exitCode ≠ 0 →
    check.output = "" ∧ plan.output = "" ∧ check.errors = plan.errors
  of_success : check.exitCode = 0 →
    ∃ (targets projects composites roots : Nat) (digest : Digest) (rest : List String),
      check.output = unlines [
        "✓ " ++ file ++ " declares a consistent build",
        stat "Targets" (toString targets),
        stat "Projects" (toString projects),
        stat "Composites" (toString composites),
        stat "Top-level" (toString roots),
        stat "Plan length" (toString projects)] ∧
      plan.output = unlines (
        ("• Plan " ++ digest.short ++ " (" ++ toString projects ++ " target(s) from "
          ++ toString roots ++ " root(s))") :: rest)

/-- The answer to `plan` with roots: it succeeds exactly if all are declared.  Otherwise it tells
that the first one that is not is unknown, and of no target that requires it. -/
structure AnswersRoots (r : Registry) (roots : List String) (x : Response) : Prop where
  succeeds_iff : x.exitCode = 0 ↔ ∀ n ∈ roots, r.contains ⟨n⟩ = true
  of_undeclared : ∀ n, (roots.find? fun n => !r.contains ⟨n⟩) = some n →
    x.exitCode = 1 ∧ x.output = "" ∧
      x.errors = ["✗ Failed to resolve build plan: unknown target '" ++ n ++ "'"]

/-- Answers of failures agree if they are the same but for the files that were asked for. -/
theorem agree_of_failure {code : UInt8} {printed : Bytes}
    {errors requested requested' : List String} (hcode : code ≠ 0) :
    Agree file ⟨code, printed, "", errors, requested⟩ ⟨code, printed, "", errors, requested'⟩ where
  exitCode_eq := rfl
  printed_eq := rfl
  of_failure _ := ⟨rfl, rfl, rfl⟩
  of_success h := absurd h hcode

theorem planWords_nil (file : String) : PlanWords file [] ["plan", file] := .intro .nil .nil

section

variable (h : file.toList.head? ≠ some '-') (hfile : file ≠ "")

include h hfile

theorem agree_of_ne_ok (halike : w.Alike v file)
    (hcheck : ∀ s, (Command.execute w (.check file)).result ≠ some (.ok s)) :
    Agree file (respond w none ["check", file]) (respond v none ["plan", file]) := by
  have hreadCheck := readArguments_check h hfile
  have hreadPlan := readArguments_plan h hfile (planWords_nil file)
  have hplan : (Command.execute v (.plan file [] false .text)).result =
      (Command.execute w (.check file)).result := by
    rw [result_plan_of_alike halike, result_plan_of_check false .text hcheck]
  have hprinted : (Command.execute v (.plan file [] false .text)).printed =
      (Command.execute w (.check file)).printed := by
    rw [printed_plan, printed_check, halike.printed]
  rcases hresult : (Command.execute w (.check file)).result with _ | ⟨message | s⟩
  · rw [respond_of_none hreadCheck hresult, respond_of_none hreadPlan (hplan.trans hresult),
      hprinted]
    exact agree_of_failure (by decide)
  · rw [respond_of_error hreadCheck hresult, respond_of_error hreadPlan (hplan.trans hresult),
      hprinted]
    exact agree_of_failure (by decide)
  · exact absurd hresult (hcheck s)

theorem exitCode_check_ne_zero
    (hcheck : ∀ s, (Command.execute w (.check file)).result ≠ some (.ok s)) :
    (respond w none ["check", file]).exitCode ≠ 0 := by
  have hread := readArguments_check h hfile
  rcases hresult : (Command.execute w (.check file)).result with _ | ⟨message | s⟩
  · rw [respond_of_none hread hresult]
    exact (by decide : (101 : UInt8) ≠ 0)
  · rw [respond_of_error hread hresult]
    exact (by decide : (1 : UInt8) ≠ 0)
  · exact absurd hresult (hcheck s)

theorem agree_of_ok (halike : w.Alike v file) {s : String}
    (hcheck : (Command.execute w (.check file)).result = some (.ok s)) :
    Agree file (respond w none ["check", file]) (respond v none ["plan", file]) := by
  rw [respond_of_ok (readArguments_check h hfile) hcheck]
  obtain ⟨r, p, hr, hp, rfl⟩ := execute_check_eq_ok hcheck
  obtain ⟨q, hq, hmem⟩ := exists_resolve_topLevel hp
  have hprojects := fun n => mem_targets_names_iff (n := n) hp
  rw [respond_of_ok (readArguments_plan h hfile (planWords_nil file))
    (execute_plan_of_resolve (halike.result.trans hr) hp hq false .text)]
  refine ⟨rfl, ?_, fun hcode => absurd rfl hcode, fun _ => ?_⟩
  · change (Command.execute w _).printed = (Command.execute v _).printed
    rw [printed_plan, printed_check, halike.printed]
  · refine ⟨r.size, r.size - r.composites.length, r.composites.length, r.topLevel.length, q.digest,
      numbered q ++ [], ?_, ?_⟩
    · rw [checkReport, size_of_targets hprojects]
    · rw [planReport, planText, size_of_targets fun n => (hmem n).trans (hprojects n)]
      rfl

/-- Roots that are declared have a plan, and of others the first that is not declared is told. -/
theorem answersRoots {roots words : List String} (hr : (evaluateFile w file).result = some (.ok r))
    (hp : resolve r r.names = .ok p) (hroots : roots ≠ []) (hwords : PlanWords file roots words) :
    AnswersRoots r roots (respond w none words) := by
  have hread := readArguments_plan h hfile hwords
  cases hfind : roots.find? fun n => !r.contains ⟨n⟩ with
  | none =>
      have hall : ∀ n ∈ roots, r.contains ⟨n⟩ = true := by
        simpa using List.find?_eq_none.1 hfind
      have hdeclared : ∀ n ∈ roots.map TargetName.mk, n ∈ r.names := by
        intro n hn
        obtain ⟨text, htext, rfl⟩ := List.mem_map.1 hn
        exact Registry.contains_iff.1 (hall text htext)
      obtain ⟨q, hq⟩ := (exists_resolve_iff_declared hp).2 hdeclared
      rw [respond_of_ok hread (execute_roots_of_ok hr hroots false .text hq)]
      refine ⟨⟨fun _ => hall, fun _ => rfl⟩, fun n hn => ?_⟩
      rw [hfind] at hn
      cases hn
  | some n =>
      obtain ⟨hn, known, rest, rfl, hknown⟩ := List.find?_eq_some_iff_append.1 hfind
      have hundeclared : (⟨n⟩ : TargetName) ∉ r.names := fun hmem => by
        rw [Registry.contains_iff.2 hmem] at hn
        cases hn
      have hdeclared : ∀ m ∈ known.map TargetName.mk, m ∈ r.names := by
        intro m hm
        obtain ⟨text, htext, rfl⟩ := List.mem_map.1 hm
        exact Registry.contains_iff.1 (by simpa using hknown text htext)
      have herror : resolve r ((known ++ n :: rest).map TargetName.mk) =
          .error (.unknownTarget ⟨n⟩ none) := by
        rw [List.map_append, List.map_cons]
        exact resolve_of_undeclared hp hdeclared hundeclared
      rw [respond_of_error hread (execute_roots_of_error hr hroots false .text herror)]
      refine ⟨⟨fun hcode => ?_, fun hall => ?_⟩, fun m hm => ?_⟩
      · cases hcode
      · exact absurd (Registry.contains_iff.1 (hall n (by simp))) hundeclared
      · obtain rfl := Option.some.inj (hfind.symm.trans hm)
        exact ⟨rfl, rfl, rfl⟩

end

/-- Whatever the files, `check` in one process and `plan` in another agree on a declaration file,
if its evaluation comes out the same in both. -/
theorem respond_check_plan (w v : Workspace) (file : String) (h : file.toList.head? ≠ some '-')
    (halike : w.Alike v file) :
    Agree file (respond w none ["check", file]) (respond v none ["plan", file]) ∧
      ((respond w none ["check", file]).exitCode = 0 →
        ∃ r, (evaluateFile w file).result = some (.ok r) ∧
          ∀ roots words, roots ≠ [] → PlanWords file roots words →
            AnswersRoots r roots (respond v none words)) := by
  by_cases hfile : file = ""
  · subst hfile
    have hcode : (2 : UInt8) ≠ 0 := by decide
    rw [respond_of_refused readArguments_check_empty,
      respond_of_refused (readArguments_plan_empty (planWords_nil ""))]
    exact ⟨agree_of_failure hcode, fun hzero => absurd hzero hcode⟩
  · by_cases hcheck : ∃ s, (Command.execute w (.check file)).result = some (.ok s)
    · obtain ⟨s, hcheck⟩ := hcheck
      refine ⟨agree_of_ok h hfile halike hcheck, fun _ => ?_⟩
      obtain ⟨r, p, hr, hp, -⟩ := execute_check_eq_ok hcheck
      exact ⟨r, hr, fun roots words hroots hwords =>
        answersRoots h hfile (halike.result.trans hr) hp hroots hwords⟩
    · have hfails := not_exists.1 hcheck
      refine ⟨agree_of_ne_ok h hfile halike hfails, fun hcode => ?_⟩
      exact absurd hcode (exitCode_check_ne_zero h hfile hfails)

/-- A machine on which tables lie elsewhere. -/
def elsewhere : Machine := { Machine.plain with tableText := fun _ => Utf8.encode "table: 0x1" }

/-- The file of the sample is consistent, so `check` succeeds, and `plan` on the other machine; of
the roots `zip` is the first that it does not declare. -/
theorem respond_check_plan_sample :
    "b".toList.head? ≠ some '-' ∧ Workspace.sample.Alike (.on .sample elsewhere) "b" ∧
      (respond .sample none ["check", "b"]).exitCode = 0 ∧
      Agree "b" (respond .sample none ["check", "b"])
        (respond (.on .sample elsewhere) none ["plan", "b"]) ∧
      PlanWords "b" ["app", "zip", "x"]
        ["plan", "-r", "app", "b", "--root=" ++ "zip", "-r" ++ "x"] ∧
      (respond (.on .sample elsewhere) none
        ["plan", "-r", "app", "b", "--root=" ++ "zip", "-r" ++ "x"]).errors =
          ["✗ Failed to resolve build plan: unknown target 'zip'"] := by
  have hfile : "b".toList.head? ≠ some '-' := by decide
  have hcheck : (respond .sample none ["check", "b"]).exitCode = 0 := by decide +kernel
  have hwords : PlanWords "b" ["app", "zip", "x"]
      ["plan", "-r", "app", "b", "--root=" ++ "zip", "-r" ++ "x"] :=
    .intro (.cons (.short rfl) .nil)
      (.cons (.longAttached "zip") (.cons (.joined (by decide) (by decide)) .nil))
  have hfind : (((evaluateFile .sample "b").result.bind Except.toOption).map fun r =>
      ["app", "zip", "x"].find? fun n => !r.contains ⟨n⟩) = some (some "zip") := by
    decide +kernel
  have hsample : Workspace.sample.Declarative "b" := ⟨by decide +kernel, fun l text _ htext =>
    FileTree.isSome_of_isDeclarative (by decide +kernel) htext⟩
  obtain ⟨r, hr⟩ : ∃ r, (evaluateFile .sample "b").result = some (.ok r) := by
    rcases hr : (evaluateFile .sample "b").result with _ | ⟨e | r⟩
    · rw [hr] at hfind
      cases hfind
    · rw [hr] at hfind
      cases hfind
    · exact ⟨r, rfl⟩
  have halike := hsample.alike hr elsewhere
  obtain ⟨hagree, hplan⟩ := respond_check_plan .sample (.on .sample elsewhere) "b" hfile halike
  obtain ⟨r, hr, hanswers⟩ := hplan hcheck
  rw [hr] at hfind
  have hanswer := hanswers ["app", "zip", "x"] _ (by decide) hwords
  obtain ⟨-, -, herrors⟩ := hanswer.of_undeclared "zip" (Option.some.inj hfind)
  exact ⟨hfile, halike, hcheck, hagree, hwords, herrors⟩

/-- A directory in which one file prints before it raises an error, and another raises a table. -/
def showing : Workspace where
  tree := ⟨[(⟨["prints"]⟩, .file (Utf8.encode "print('x') error('y')")),
    (⟨["raises"]⟩, .file (Utf8.encode "error(\x7b\x7d)"))]⟩
  directory := .root

/-- A command that fails prints what scripts print.  What it tells of an error can have the place
of a table in it, and so differ from what another process tells. -/
theorem respond_showing :
    (respond showing none ["check", "prints"]).exitCode = 1 ∧
      (respond showing none ["check", "prints"]).printed = Utf8.encode "x\n" ∧
      (respond showing none ["check", "raises"]).errors ≠
        (respond (showing.on elsewhere) none ["plan", "raises"]).errors := by
  decide +kernel

end CommandLine

end BuildPlan
