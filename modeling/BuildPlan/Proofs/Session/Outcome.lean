import BuildPlan.Session.Load

/-! # Outcomes of runs

`Run.outcome` says how a run in a session ends and which session it leaves.  Every operation of
sessions has an equation for its outcome, so that no later proof opens the monad.

Loading a file first finds out whether the file can be run at all (`Session.opening`).  If it
cannot, the load raises the fault and leaves the session as it was
(`Run.outcome_loadFile_of_error`); else the text is evaluated in the session that has the file
open, whose directory and open files are then put back unless a panic goes on
(`Run.outcome_loadFile_of_ok`). -/

namespace BuildPlan

variable {α β : Type}

/-- The error of the declaration behind a raised value, if there is one. -/
def Value.planError? : Value → Option PlanError
  | .fault _ f => f.planError?
  | _ => none

theorem Value.fault_ne_panic {k : Nat} {f : Fault} (n : Nat) : Value.fault k f ≠ .panic n := by
  intro h
  cases h

theorem Value.string_ne_panic {bytes : Bytes} (n : Nat) : Value.string bytes ≠ .panic n := by
  intro h
  cases h

theorem Value.planError?_toFault (m : Machine) (v : Value) :
    (v.toFault m).planError? = v.planError? := by
  cases v <;> rfl

namespace Session

/-- The session in which more has happened. -/
def logged (s : Session) (events : List Event) : Session := { s with events := s.events ++ events }

/-- The session in which one more serial number was given out. -/
def counted (s : Session) : Session := { s with made := s.made + 1 }

/-- The session in which a panic has gone on. -/
def spending (s : Session) (n : Nat) : Session := { s with spent := n :: s.spent }

/-- What comes of a function that does not come to its end. -/
def halted (s : Session) : Interruption → Except Value α × Session
  | .fault f => (.error (.fault s.made f), s.counted)
  | .panic => (.error (.panic s.made), s.counted)
  | .resumed n => (.error (.panic s.made), (s.spending n).counted)

/-- What comes of a function that a script calls. -/
def called : Except Value α × Session → Except Value α × Session
  | (.error (.fault _ f), t) => (.error (.fault t.made (.callback f)), t.counted)
  | e => e

/-- What comes for the program of scripts that it has carried out. -/
def finished : Except Value (List Value) × Session → Except Value Value × Session
  | (.ok vs, t) =>
      match t.take (firstValue vs) with
      | .ok v => (.ok v, t)
      | .error i => t.halted i
  | (.error v, t) => t.halted (t.failure v)

section

variable (s : Session) (events : List Event)

@[simp] theorem heap_logged : (s.logged events).heap = s.heap := rfl
@[simp] theorem loading_logged : (s.logged events).loading = s.loading := rfl
@[simp] theorem take_logged (v : Value) : (s.logged events).take v = s.take v := rfl

variable (i : Interruption)

@[simp] theorem heap_halted : (s.halted i : Except Value α × Session).2.heap = s.heap := by
  cases i <;> rfl

theorem take_of_ne_panic {v : Value} (h : ∀ n, v ≠ .panic n) : s.take v = .ok v := by
  cases v with
  | panic n => exact absurd rfl (h n)
  | _ => rfl

/-- What is taken and is not nil is what was given. -/
theorem eq_of_take {v v' : Value} (h : s.take v = .ok v') (hv' : v' ≠ .nil) : v = v' := by
  unfold take at h
  split at h
  · split at h
    · exact absurd (Except.ok.inj h).symm hv'
    · cases h
  · exact Except.ok.inj h

/-- A panic has no text, so what has one is taken as it is. -/
theorem takeText_of_toText {problem : ConversionFault → Fault} {v : Value} {text : String}
    (h : v.toText = .ok text) : s.takeText problem v = .ok text := by
  have htake : s.take v = .ok v := by
    refine take_of_ne_panic s fun n hn => ?_
    subst hn
    cases h
  rw [takeText, htake]
  exact congrArg (Except.mapError _) h

theorem logged_append (more : List Event) :
    (s.logged events).logged more = s.logged (events ++ more) := by
  have hevents : s.events ++ events ++ more = s.events ++ (events ++ more) :=
    Array.toList_inj.1 (by simp)
  exact congrArg (fun events => { s with events }) hevents

end

/-- A value is taken unless it is a panic that goes on. -/
theorem take_cases (s : Session) (v : Value) :
    (∃ n, s.take v = .error (.resumed n)) ∨ ∃ w, s.take v = .ok w := by
  unfold take
  split
  · split
    · exact .inr ⟨_, rfl⟩
    · exact .inl ⟨_, rfl⟩
  · exact .inr ⟨_, rfl⟩

/-- What a script raises becomes a fault unless it is a panic that goes on. -/
theorem failure_cases (s : Session) (v : Value) :
    (∃ n, s.failure v = .resumed n) ∨ s.failure v = .fault (v.toFault s.machine) := by
  unfold failure
  split
  · split
    · exact .inr rfl
    · exact .inl ⟨_, rfl⟩
  · exact .inr rfl

/-- What the program makes of scripts that it has carried out: a panic goes on, or there is an
answer, or a fault. -/
theorem finished_cases (e : Except Value (List Value) × Session) :
    (∃ n, finished e = e.2.halted (.resumed n)) ∨ (∃ v, finished e = (.ok v, e.2)) ∨
      ∃ f, finished e = e.2.halted (.fault f) := by
  rcases e with ⟨v | vs, t⟩
  · rw [finished]
    obtain ⟨n, hn⟩ | hf := t.failure_cases v
    · exact .inl ⟨n, congrArg _ hn⟩
    · exact .inr (.inr ⟨_, congrArg _ hf⟩)
  · rw [finished]
    obtain ⟨n, hn⟩ | ⟨v, hv⟩ := t.take_cases (firstValue vs)
    · rw [hn]
      exact .inl ⟨n, rfl⟩
    · rw [hv]
      exact .inr (.inl ⟨v, rfl⟩)

theorem heap_finished (e : Except Value (List Value) × Session) :
    (finished e).2.heap = e.2.heap := by
  obtain ⟨n, he⟩ | ⟨v, he⟩ | ⟨f, he⟩ := finished_cases e <;> rw [he] <;> rfl

end Session

namespace Run

/-- How a run in a session ends, and the session that it leaves. -/
def outcome (x : Run α) (s : Session) : Except Value α × Session := x.run.run s

variable {s : Session}

theorem outcome_pure (a : α) : (pure a : Run α).outcome s = (.ok a, s) := rfl

theorem outcome_throw (v : Value) : (throw v : Run α).outcome s = (.error v, s) := rfl

theorem outcome_get : (get : Run Session).outcome s = (.ok s, s) := rfl

theorem outcome_modify (f : Session → Session) :
    (modify f : Run Unit).outcome s = (.ok (), f s) := rfl

theorem outcome_bind (x : Run α) (f : α → Run β) :
    (x >>= f).outcome s = match x.outcome s with
      | (.ok a, t) => (f a).outcome t
      | (.error v, t) => (.error v, t) := by
  unfold outcome
  rw [ExceptT.run_bind, StateT.run_bind]
  rcases x.run.run s with ⟨a | v, t⟩ <;> rfl

theorem outcome_bind_of_ok {x : Run α} {f : α → Run β} {a : α} {t : Session}
    (h : x.outcome s = (.ok a, t)) : (x >>= f).outcome s = (f a).outcome t := by
  rw [outcome_bind, h]

theorem outcome_bind_of_error {x : Run α} {f : α → Run β} {v : Value} {t : Session}
    (h : x.outcome s = (.error v, t)) : (x >>= f).outcome s = (.error v, t) := by
  rw [outcome_bind, h]

theorem outcome_bind_of_halted {x : Run α} {f : α → Run β} {i : Interruption} {t : Session}
    (h : x.outcome s = t.halted i) : (x >>= f).outcome s = t.halted i := by
  rw [outcome_bind, h]
  cases i <;> rfl

theorem outcome_attempt (x : Run α) :
    (attempt x).outcome s = (.ok (x.outcome s).1, (x.outcome s).2) := rfl

theorem outcome_fault (f : Fault) :
    (fault f : Run α).outcome s = (.error (.fault s.made f), s.counted) := rfl

theorem outcome_check_ok (a : α) : (check (.ok a)).outcome s = (.ok a, s) := rfl

theorem outcome_check_error (i : Interruption) :
    (check (.error i : Except Interruption α)).outcome s = s.halted i := by
  cases i <;> rfl

theorem outcome_receive (v : Value) :
    (receive v).outcome s =
      match s.take v with
      | .ok v => (.ok v, s)
      | .error i => s.halted i := by
  unfold receive
  rw [outcome_bind_of_ok outcome_get]
  cases s.take v with
  | ok v => exact outcome_check_ok v
  | error i => exact outcome_check_error i

theorem outcome_log (events : List Event) : (log events).outcome s = (.ok (), s.logged events) :=
  rfl

theorem outcome_getField (r : Ref) (k : Value) :
    (getField r k).outcome s = (.ok ((s.heap.get r).get k), s) := rfl

theorem outcome_setField (r : Ref) (k v : Value) :
    (setField r k v).outcome s =
      (.ok (), { s with heap := s.heap.set r ((s.heap.get r).set k v) }) := rfl

theorem outcome_newTable (t : Table) :
    (newTable t).outcome s =
      (.ok (.table (s.heap.alloc t).2), { s with heap := (s.heap.alloc t).1 }) := rfl

theorem outcome_setLoading (f : List Location → List Location) :
    (setLoading f).outcome s = (.ok (), { s with loading := f s.loading }) := rfl

theorem outcome_stateTable :
    stateTable.outcome s =
      match s.takeTable .conversion (s.globals.get Session.stateName) with
      | .ok r => (.ok r, s)
      | .error i => s.halted i := by
  unfold stateTable
  rw [outcome_bind_of_ok outcome_get]
  cases s.takeTable .conversion (s.globals.get Session.stateName) with
  | ok r => exact outcome_check_ok r
  | error i => exact outcome_check_error i

theorem outcome_stateTable_of_ok {r : Ref}
    (h : s.takeTable .conversion (s.globals.get Session.stateName) = .ok r) :
    stateTable.outcome s = (.ok r, s) := by
  rw [outcome_stateTable, h]

theorem outcome_stateTable_of_error {i : Interruption}
    (h : s.takeTable .conversion (s.globals.get Session.stateName) = .error i) :
    stateTable.outcome s = s.halted i := by
  rw [outcome_stateTable, h]

theorem outcome_declare (kind : Kind) (arguments : List Value) :
    (declare kind arguments).outcome s =
      match Specification.read kind s arguments with
      | .error i => s.halted i
      | .ok spec =>
          let t := s.logged (s.registry.declareEvents kind spec)
          match s.registry.declare kind spec with
          | .ok registry => (.ok (), { t with registry })
          | .error e => (.error (.fault s.made (.plan e)), t.counted) := by
  unfold declare
  rw [outcome_bind_of_ok outcome_get]
  cases Specification.read kind s arguments with
  | error i =>
      rw [outcome_bind, outcome_check_error]
      cases i <;> rfl
  | ok spec =>
      rw [outcome_bind_of_ok (outcome_check_ok spec), outcome_bind_of_ok (outcome_log _)]
      dsimp only
      cases s.registry.declare kind spec with
      | ok registry => exact outcome_modify _
      | error e => exact outcome_fault _

theorem outcome_callback (x : Run α) :
    (callback x).outcome s = Session.called (x.outcome s) := by
  unfold callback
  rw [outcome_bind_of_ok (outcome_attempt x)]
  rcases x.outcome s with ⟨v | a, t⟩
  · cases v <;> rfl
  · rfl

theorem outcome_finish (x : Run (List Value)) :
    (finish x).outcome s = Session.finished (x.outcome s) := by
  unfold finish
  rw [outcome_bind_of_ok (outcome_attempt x)]
  rcases x.outcome s with ⟨v | vs, t⟩
  · dsimp only
    rw [outcome_bind_of_ok outcome_get]
    exact outcome_check_error _
  · exact outcome_receive _

/-- A script that includes a file has it loaded under the path that the directory of the
evaluation state gives. -/
theorem outcome_includeFile {load : Loader} {room : Nat} {callers : List Caller}
    {arguments : List Value} {r : Ref} {given directory : String}
    (hgiven : (arguments.headD .nil).toText = .ok given)
    (hstate : s.globals.get Session.stateName = .table r)
    (hdirectory : ((s.heap.get r).get Session.directoryField).toText = .ok directory) :
    (includeFile load room callers arguments).outcome s =
      match (load room (.function :: callers) (Path.join directory given)).outcome s with
      | (.ok _, t) => (.ok (), t)
      | (.error v, t) => (.error v, t) := by
  have hstateTable : stateTable.outcome s = (.ok r, s) :=
    outcome_stateTable_of_ok (by rw [hstate]; rfl)
  unfold includeFile
  rw [outcome_bind_of_ok outcome_get, Session.takeText_of_toText s hgiven,
    outcome_bind_of_ok (outcome_check_ok given), outcome_bind_of_ok hstateTable,
    outcome_bind_of_ok (outcome_getField _ _), outcome_bind_of_ok outcome_get,
    Session.takeText_of_toText s hdirectory, outcome_bind_of_ok (outcome_check_ok directory),
    outcome_bind]
  rcases (load room (.function :: callers) (Path.join directory given)).outcome s with ⟨a | v, t⟩
  · rfl
  · rfl

theorem perform_of_ok {x : Run α} {a : α} {t : Session} (h : x.outcome s = (.ok a, t)) :
    x.perform s = (some (.ok a), t) := by
  unfold outcome at h
  rw [perform, h]

theorem perform_of_panic {x : Run α} {n : Nat} {t : Session}
    (h : x.outcome s = (.error (.panic n), t)) : x.perform s = (none, t) := by
  unfold outcome at h
  rw [perform, h]

/-- A run that has a result has not ended with a panic. -/
theorem ne_panic_of_perform {x : Run α} (h : (x.perform s).1.isSome) (n : Nat) :
    (x.outcome s).1 ≠ .error (.panic n) := by
  intro hn
  rw [perform_of_panic (Prod.ext hn rfl)] at h
  cases h

end Run

/-! ### Opening and closing a file -/

namespace Session

/-- The file at a path with its text, the table of the evaluation state and the directory that it
names, or why the file is not run. -/
def opening (w : Workspace) (s : Session) (path : String) :
    Except Interruption (Location × String × Ref × Value) :=
  match w.tree.follow w.directory path with
  | .error e => .error (.fault (.load (.unresolved path e)))
  | .ok l =>
      match w.tree.read l with
      | .error e => .error (.fault (.load (.unreadable l e)))
      | .ok text =>
          if l ∈ s.loading then .error (.fault (.load (.cycle l)))
          else
            match s.takeTable .conversion (s.globals.get stateName) with
            | .error i => .error i
            | .ok r =>
                match s.take ((s.heap.get r).get directoryField) with
                | .error i => .error i
                | .ok directory => .ok (l, text, r, directory)

/-- The session in which the text of a file is evaluated. -/
def opened (s : Session) (path : String) (l : Location) (r : Ref) : Session :=
  { (s.logged [.fileRequested path]).logged [.fileOpened l.path s.loading.length] with
    heap := s.heap.set r ((s.heap.get r).set directoryField (.text l.parent.path))
    loading := l :: s.loading }

/-- The session in which a file is no longer open and the directory is as it was. -/
def closed (s : Session) (l : Location) (r : Ref) (directory : Value) : Session :=
  { s.counted with
    heap := s.heap.set r ((s.heap.get r).set directoryField (directory.renewed s.made))
    loading := s.loading.erase l }

/-- How a load ends, given how the evaluation of the file ended for the program. -/
def close (l : Location) (r : Ref) (directory : Value) :
    Except Value Value × Session → Except Value Value × Session
  | (.error (.panic n), t) => (.error (.panic n), t)
  | (e, t) => (e, t.closed l r directory)

variable {w : Workspace} {s : Session} {path : String} {l : Location} {text : String} {r : Ref}
variable {directory : Value}

theorem takeTable_eq_ok_iff {problem : ConversionFault → Fault} {v : Value} :
    s.takeTable problem v = .ok r ↔ v = .table r := by
  constructor
  · intro h
    cases v with
    | table r' =>
        obtain rfl := Except.ok.inj h
        rfl
    | panic n =>
        by_cases hn : n ∈ s.spent
        · rw [takeTable, take, if_pos hn] at h
          cases h
        · rw [takeTable, take, if_neg hn] at h
          cases h
    | _ => cases h
  · rintro rfl
    rfl

theorem opening_eq_ok_iff :
    s.opening w path = .ok (l, text, r, directory) ↔
      w.tree.follow w.directory path = .ok l ∧ w.tree.read l = .ok text ∧ l ∉ s.loading ∧
        s.globals.get stateName = .table r ∧
        s.take ((s.heap.get r).get directoryField) = .ok directory := by
  have htable : ∀ v : Value, s.takeTable .conversion v = .ok r ↔ v = .table r :=
    fun _ => takeTable_eq_ok_iff
  rw [← htable]
  unfold opening
  constructor
  · intro h
    split at h
    · cases h
    next l' hl =>
      split at h
      · cases h
      next text' htext =>
        split at h
        · cases h
        next hmem =>
          split at h
          · cases h
          next r' hr =>
            split at h
            · cases h
            next directory' hdirectory =>
              cases h
              exact ⟨hl, htext, hmem, hr, hdirectory⟩
  · rintro ⟨hl, htext, hmem, hr, hdirectory⟩
    simp only [hl, htext, if_neg hmem, hr, hdirectory]

end Session

namespace Run

variable {w : Workspace} {s : Session} {path : String} {l : Location} {text : String} {r : Ref}

/-- Evaluates the text of a file, inside which at most `depth` others may be open. -/
def evaluateFileText (w : Workspace) (depth room : Nat) (callers : List Caller) (l : Location)
    (text : String) : Run (List Value) :=
  match depth with
  | 0 => throw exhausted
  | depth + 1 => evaluate (loadFile w depth) room callers (fileChunkName l) text

theorem loadFile_eq (w : Workspace) (depth room : Nat) (callers : List Caller) (path : String) :
    loadFile w depth room callers path = (do
      let (l, text) ← locate w path
      log [.fileOpened l.path (← get).loading.length]
      let state ← stateTable
      let directory ← receive (← getField state Session.directoryField)
      setLoading (l :: ·)
      setField state Session.directoryField (.text l.parent.path)
      closing l state directory (finish (evaluateFileText w depth room callers l text))) := by
  cases depth <;> rfl

theorem outcome_locate (w : Workspace) (path : String) (s : Session) :
    (locate w path).outcome s =
      let t := s.logged [.fileRequested path]
      match w.tree.follow w.directory path with
      | .error e => (.error (.fault s.made (.load (.unresolved path e))), t.counted)
      | .ok l =>
          match w.tree.read l with
          | .error e => (.error (.fault s.made (.load (.unreadable l e))), t.counted)
          | .ok text =>
              if l ∈ s.loading then (.error (.fault s.made (.load (.cycle l))), t.counted)
              else (.ok (l, text), t) := by
  unfold locate
  rw [outcome_bind_of_ok (outcome_log _)]
  cases w.tree.follow w.directory path with
  | error e => exact outcome_fault _
  | ok l =>
      dsimp only
      cases w.tree.read l with
      | error e => exact outcome_fault _
      | ok text =>
          dsimp only
          rw [outcome_bind_of_ok outcome_get]
          by_cases hl : l ∈ s.loading
          · rw [if_pos hl, if_pos (by simpa using hl)]
            exact outcome_fault _
          · rw [if_neg hl, if_neg (by simpa using hl)]
            exact outcome_pure _

theorem outcome_locate_of_ok (hl : w.tree.follow w.directory path = .ok l)
    (htext : w.tree.read l = .ok text) (hmem : l ∉ s.loading) :
    (locate w path).outcome s = (.ok (l, text), s.logged [.fileRequested path]) := by
  rw [outcome_locate]
  simp only [hl, htext, if_neg hmem]

theorem outcome_loadFile_of_locate {v : Value} {t : Session}
    (h : (locate w path).outcome s = (.error v, t)) (depth room : Nat) (callers : List Caller) :
    (loadFile w depth room callers path).outcome s = (.error v, t) := by
  rw [loadFile_eq]
  exact outcome_bind_of_error h

theorem outcome_closing (l : Location) (state : Ref) (directory : Value) (x : Run Value) :
    (closing l state directory x).outcome s = Session.close l state directory (x.outcome s) := by
  unfold closing
  rw [outcome_bind_of_ok (outcome_attempt x)]
  rcases x.outcome s with ⟨v | a, t⟩
  · cases v <;> rfl
  · rfl

/-- How a load goes on with a file that was found. -/
theorem outcome_loadFile_of_found (hl : w.tree.follow w.directory path = .ok l)
    (htext : w.tree.read l = .ok text) (hmem : l ∉ s.loading) (depth room : Nat)
    (callers : List Caller) :
    (loadFile w depth room callers path).outcome s = (do
      let state ← stateTable
      let directory ← receive (← getField state Session.directoryField)
      setLoading (l :: ·)
      setField state Session.directoryField (.text l.parent.path)
      closing l state directory
        (finish (evaluateFileText w depth room callers l text))).outcome
        (s.logged [.fileRequested path, .fileOpened l.path s.loading.length]) := by
  rw [loadFile_eq, outcome_bind_of_ok (outcome_locate_of_ok hl htext hmem),
    outcome_bind_of_ok outcome_get, outcome_bind_of_ok (outcome_log _), Session.logged_append]
  rfl

/-- A file that is not run leaves nothing behind but the fault and events, and these are the same
at every depth, on every level and for all callers. -/
theorem outcome_loadFile_of_error {i : Interruption} (h : s.opening w path = .error i) :
    ∃ events, ∀ (depth room : Nat) (callers : List Caller),
      (loadFile w depth room callers path).outcome s = (s.logged events).halted i := by
  have hlocate := outcome_locate w path s
  unfold Session.opening at h
  split at h
  next e hl =>
    simp only [hl] at hlocate
    cases h
    exact ⟨_, outcome_loadFile_of_locate hlocate⟩
  next l hl =>
    split at h
    next e htext =>
      simp only [hl, htext] at hlocate
      cases h
      exact ⟨_, outcome_loadFile_of_locate hlocate⟩
    next text htext =>
      split at h
      next hmem =>
        simp only [hl, htext, if_pos hmem] at hlocate
        cases h
        exact ⟨_, outcome_loadFile_of_locate hlocate⟩
      next hmem =>
        refine ⟨[.fileRequested path, .fileOpened l.path s.loading.length],
          fun depth room callers => ?_⟩
        rw [outcome_loadFile_of_found hl htext hmem]
        split at h
        next i' hstate =>
          cases h
          exact outcome_bind_of_halted (outcome_stateTable_of_error hstate)
        next r hstate =>
          split at h
          next i' hdirectory =>
            cases h
            have hstateTable : ∀ events,
                stateTable.outcome (s.logged events) = (.ok r, s.logged events) :=
              fun _ => outcome_stateTable_of_ok hstate
            rw [outcome_bind_of_ok (hstateTable _), outcome_bind_of_ok (outcome_getField _ _)]
            refine outcome_bind_of_halted ?_
            rw [outcome_receive, Session.take_logged, Session.heap_logged, hdirectory]
          · cases h

/-- A file that is run has its text evaluated in the session that has the file open. -/
theorem outcome_loadFile_of_ok (h : s.opening w path = .ok (l, text, r, directory))
    (depth room : Nat) (callers : List Caller) :
    (loadFile w depth room callers path).outcome s =
      Session.close l r directory (Session.finished
        ((evaluateFileText w depth room callers l text).outcome (s.opened path l r))) := by
  obtain ⟨hl, htext, hmem, hstate, hdirectory⟩ := Session.opening_eq_ok_iff.1 h
  let t := s.logged [.fileRequested path, .fileOpened l.path s.loading.length]
  have hstateTable : stateTable.outcome t = (.ok r, t) :=
    outcome_stateTable_of_ok (Session.takeTable_eq_ok_iff.2 hstate)
  have hreceive : (receive ((t.heap.get r).get Session.directoryField)).outcome t =
      (.ok directory, t) := by
    rw [outcome_receive, Session.take_logged, Session.heap_logged, hdirectory]
  have hopened : s.opened path l r =
      { t with
        heap := t.heap.set r ((t.heap.get r).set Session.directoryField (.text l.parent.path))
        loading := l :: t.loading } := by
    rw [Session.opened, Session.logged_append]
    rfl
  rw [outcome_loadFile_of_found hl htext hmem, outcome_bind_of_ok hstateTable,
    outcome_bind_of_ok (outcome_getField _ _), outcome_bind_of_ok hreceive,
    outcome_bind_of_ok (outcome_setLoading _), outcome_bind_of_ok (outcome_setField _ _ _),
    outcome_closing, outcome_finish, hopened]

end Run

end BuildPlan
