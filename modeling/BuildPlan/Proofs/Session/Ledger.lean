import BuildPlan.Proofs.Session.Outcome
import BuildPlan.Proofs.Specification

/-! # What faults come of

Faults are told apart by serial numbers, which are given out one after the other.  A ledger says
for each number what the fault under it came of: a declaration that was refused, another fault that
has passed on in it, or something else that went wrong.  A fault passes on when a function that a
script called fails with it, when the text of a file ends by raising it, or when the program puts
back a value that it had taken (`Passage`).  Whichever it is, the error of a declaration is found in
the second fault if it is in the first (`Passage.planError?_of_makes`).

An account of a run (`Run.Account`) follows it through the files that it includes and enters every
fault that is made on the way.  A script can keep a fault, hand it on and raise it again, but cannot
change it: where all faults of a session are entered, they still are after a run that has an
account, and so is the fault that the run raises (`Run.Account.tracks`).  So the ledger tells which
refused declaration, if any, a raised value stems from (`Ledger.Stems`), and this is the error that
is found in the value, however deep it stands there (`Ledger.stems_iff`). -/

namespace BuildPlan

variable {α β : Type}

/-- How a fault passes on. -/
inductive Passage where
  /-- The text of a file ended by raising it. -/
  | departure
  /-- A function of the program failed with it, which a script had called. -/
  | callback
  /-- The program put back a value that it had taken. -/
  | copy

/-- The fault in which a value passes on: the text of a file can be left with any value. -/
inductive Passage.Makes : Passage → Value → Fault → Prop
  | departure (m : Machine) (v : Value) : Makes .departure v (v.toFault m)
  | callback (n : Nat) (f : Fault) : Makes .callback (.fault n f) (.callback f)
  | copy (n : Nat) (f : Fault) : Makes .copy (.fault n f) f

/-- What a serial number was given out for. -/
inductive Cause where
  /-- A declaration was refused by a registry. -/
  | refusal (registry : Registry) (kind : Kind) (spec : Specification) (e : PlanError)
  /-- A value passed on. -/
  | passage (p : Passage) (v : Value)
  /-- Anything else went wrong. -/
  | failure (f : Fault)
  /-- The program panicked. -/
  | panic

/-- The fault that is made of a cause; of a panic none is. -/
inductive Cause.Makes : Cause → Fault → Prop
  | refusal (registry : Registry) (kind : Kind) (spec : Specification) (e : PlanError) :
      Makes (.refusal registry kind spec e) (.plan e)
  | passage {p : Passage} {v : Value} {f : Fault} : p.Makes v f → Makes (.passage p v) f
  | failure (f : Fault) : Makes (.failure f) f

/-- What the serial numbers that were given out so far were given out for. -/
structure Ledger where
  causes : List Cause

namespace Ledger

/-- The ledger before any fault. -/
def empty : Ledger := ⟨[]⟩

/-- The ledger with one more entry. -/
def enter (L : Ledger) (c : Cause) : Ledger := ⟨L.causes ++ [c]⟩

/-- The cause under a serial number. -/
def get? (L : Ledger) (n : Nat) : Option Cause := L.causes[n]?

/-- The second ledger has the entries of the first one, and maybe more. -/
def Extends (L L' : Ledger) : Prop := L.causes <+: L'.causes

/-- A fault is entered as what it is; any other value needs no entry. -/
def Knows (L : Ledger) : Value → Prop
  | .fault n f => ∃ c, L.get? n = some c ∧ c.Makes f
  | _ => True

end Ledger

/-- An entry that can be made: the declaration has a name and is refused by the registry, what
passed on is known, and nothing else that goes wrong has the error of a declaration in it. -/
def Cause.Fair (L : Ledger) : Cause → Prop
  | .refusal registry kind spec e =>
      ¬isBlank spec.name ∧ registry.declare kind spec = .error e
  | .passage _ v => L.Knows v
  | .failure f => f.planError? = none
  | .panic => True

namespace Ledger

variable {L L' L'' : Ledger} {v : Value} {c : Cause} {n : Nat} {e : PlanError}

/-! ### Entries -/

theorem Extends.refl (L : Ledger) : L.Extends L := List.prefix_refl _

theorem Extends.trans (h : L.Extends L') (h' : L'.Extends L'') : L.Extends L'' :=
  List.IsPrefix.trans h h'

theorem Extends.enter (L : Ledger) (c : Cause) : L.Extends (L.enter c) :=
  List.prefix_append _ _

theorem Extends.get? (h : L.Extends L') (hc : L.get? n = some c) : L'.get? n = some c := by
  obtain ⟨more, hmore⟩ := h
  have hlt : n < L.causes.length := (List.getElem?_eq_some_iff.1 hc).1
  rw [Ledger.get?, ← hmore, List.getElem?_append_left hlt]
  exact hc

theorem get?_enter (L : Ledger) (c : Cause) : (L.enter c).get? L.causes.length = some c := by
  simp [get?, enter]

theorem eq_or_of_get?_enter {c' : Cause} (h : (L.enter c).get? n = some c') :
    L.get? n = some c' ∨ n = L.causes.length ∧ c' = c := by
  unfold get? enter at *
  rcases Nat.lt_trichotomy n L.causes.length with hn | rfl | hn
  · rw [List.getElem?_append_left hn] at h
    exact .inl h
  · exact .inr ⟨rfl, by simpa using h.symm⟩
  · rw [List.getElem?_eq_none (by simpa using Nat.succ_le_of_lt hn)] at h
    cases h

theorem Knows.mono (h : L.Knows v) (hL : L.Extends L') : L'.Knows v := by
  cases v with
  | fault n f =>
      obtain ⟨c, hc, hf⟩ := h
      exact ⟨c, hL.get? hc, hf⟩
  | _ => trivial

theorem knows_enter (L : Ledger) {f : Fault} (h : c.Makes f) :
    (L.enter c).Knows (.fault L.causes.length f) := ⟨c, get?_enter L c, h⟩

theorem knows_text (s : String) : L.Knows (.text s) := trivial

theorem knows_table (r : Ref) : L.Knows (.table r) := trivial

/-- Every entry could be made when it was made. -/
def Sound (L : Ledger) : Prop := ∀ n c, L.get? n = some c → c.Fair ⟨L.causes.take n⟩

theorem sound_empty : empty.Sound := by
  intro n c h
  cases h

theorem Sound.enter (h : L.Sound) (hc : c.Fair L) : (L.enter c).Sound := by
  intro n c' hn
  rcases eq_or_of_get?_enter hn with hn | ⟨rfl, rfl⟩
  · have hlt : n < L.causes.length := (List.getElem?_eq_some_iff.1 hn).1
    have htake : (L.enter c).causes.take n = L.causes.take n :=
      List.take_append_of_le_length (Nat.le_of_lt hlt)
    rw [htake]
    exact h n c' hn
  · have htake : (L.enter c').causes.take L.causes.length = L.causes := List.take_left
    rw [htake]
    exact hc

/-! ### What raised values stem from -/

end Ledger

/-! ### Arguments that specify no target -/

namespace Session

variable {s : Session} {v : Value} {f : Fault}

theorem take_ne_fault : s.take v ≠ .error (.fault f) := by
  intro h
  obtain ⟨n, hn⟩ | ⟨v', hv'⟩ := s.take_cases v
  · rw [hn] at h
    cases h
  · rw [hv'] at h
    cases h

/-- A conversion that fails is no declaration. -/
theorem planError?_of_convert (convert : Value → Except ConversionFault α)
    {problem : ConversionFault → Fault} (hproblem : ∀ e, (problem e).planError? = none)
    (h : (s.take v).bind (fun w => (convert w).mapError fun e => .fault (problem e)) =
      .error (.fault f)) : f.planError? = none := by
  obtain ⟨n, hn⟩ | ⟨w, hw⟩ := s.take_cases v
  · rw [hn] at h
    cases h
  · rw [hw, Except.bind] at h
    cases hconvert : convert w with
    | ok a =>
        rw [hconvert] at h
        cases h
    | error e =>
        rw [hconvert] at h
        cases h
        exact hproblem e

theorem planError?_of_takeTable {problem : ConversionFault → Fault}
    (hproblem : ∀ e, (problem e).planError? = none)
    (h : s.takeTable problem v = .error (.fault f)) : f.planError? = none :=
  planError?_of_convert Value.toTable hproblem h

theorem planError?_of_takeText {problem : ConversionFault → Fault}
    (hproblem : ∀ e, (problem e).planError? = none)
    (h : s.takeText problem v = .error (.fault f)) : f.planError? = none :=
  planError?_of_convert Value.toText hproblem h

end Session

namespace Specification

variable {kind : Kind} {f : Fault} {s : Session}

theorem planError?_of_readName {t : Table} (h : readName kind s t = .error (.fault f)) :
    f.planError? = none := by
  unfold readName at h
  split at h
  · cases h
    rfl
  · split at h
    next htake =>
      obtain rfl := Except.error.inj h
      exact absurd htake Session.take_ne_fault
    · split at h
      · cases h
        rfl
      · split at h
        · cases h
          rfl
        · cases h

theorem planError?_of_readEntries {target : String} {vs : List Value}
    (h : readEntries kind target s vs = .error (.fault f)) : f.planError? = none := by
  fun_induction readEntries kind target s vs with
  | case1 => cases h
  | case2 v vs i htake =>
      obtain rfl := Except.error.inj h
      exact absurd htake Session.take_ne_fault
  | case3 v vs bytes htake e hdecode =>
      cases h
      rfl
  | case4 v vs bytes htake name hdecode ih =>
      cases hrest : readEntries kind target s vs with
      | ok names =>
          rw [hrest] at h
          cases h
      | error i =>
          rw [hrest] at h
          obtain rfl := Except.error.inj h
          exact ih hrest
  | case5 v vs v' hv' htake =>
      cases h
      rfl

theorem planError?_of_readRequirements {target : String} {t : Table}
    (h : readRequirements kind target s t = .error (.fault f)) : f.planError? = none := by
  unfold readRequirements at h
  split at h
  next htake =>
    obtain rfl := Except.error.inj h
    exact absurd htake Session.take_ne_fault
  · split at h
    · unfold readList at h
      split at h
      · exact planError?_of_readEntries h
      · cases h
    · cases h
    · cases h
      rfl
    · cases h
      rfl

/-- Arguments that specify no target are no declaration. -/
theorem planError?_of_read {arguments : List Value}
    (h : read kind s arguments = .error (.fault f)) : f.planError? = none := by
  unfold read at h
  simp only [bind, Except.bind, pure, Except.pure] at h
  split at h
  next htable =>
    obtain rfl := Except.error.inj h
    exact Session.planError?_of_takeTable (fun _ => rfl) htable
  · split at h
    next hname =>
      obtain rfl := Except.error.inj h
      exact planError?_of_readName hname
    · split at h
      next hrequirements =>
        obtain rfl := Except.error.inj h
        exact planError?_of_readRequirements hrequirements
      · cases h

end Specification

/-! ### Sessions whose faults are entered -/

theorem Table.get_set (t : Table) (k v j : Value) : (t.set k v).get j = v ∨
    (t.set k v).get j = t.get j := by
  by_cases h : j.key = k.key
  · left
    have hget : (t.set k v).get j = (t.set k v).get k := by rw [get, get, h]
    rw [hget, get_set_self]
  · exact .inr (get_set_of_ne t v h)

theorem Heap.get_set (h : Heap) (r r' : Ref) (t : Table) :
    (h.set r t).get r' = t ∨ (h.set r t).get r' = h.get r' := by
  unfold get set
  rw [Array.getElem?_setIfInBounds]
  split
  · split
    · exact .inl rfl
    · right
      rw [Array.getElem?_eq_none (by omega)]
  · exact .inr rfl

theorem Heap.get_alloc_or (h : Heap) (r : Ref) (t : Table) :
    (h.alloc t).1.get r = t ∨ (h.alloc t).1.get r = h.get r := by
  unfold get alloc
  rw [Array.getElem?_push]
  split
  · exact .inl rfl
  · exact .inr rfl

namespace Ledger

variable {L L' : Ledger} {s : Session}

/-- All values of a table are known. -/
def KnowsTable (L : Ledger) (t : Table) : Prop := ∀ k, L.Knows (t.get k)

theorem KnowsTable.mono {t : Table} (h : L.KnowsTable t) (hL : L.Extends L') : L'.KnowsTable t :=
  fun k => (h k).mono hL

theorem knowsTable_empty : L.KnowsTable .empty := fun _ => trivial

theorem KnowsTable.set {t : Table} (h : L.KnowsTable t) (k : Value) {v : Value}
    (hv : L.Knows v) : L.KnowsTable (t.set k v) := by
  intro j
  rcases t.get_set k v j with hget | hget
  · exact hget.symm ▸ hv
  · exact hget.symm ▸ h j

theorem Knows.take {v v' : Value} (hv : L.Knows v) (htake : s.take v = .ok v') : L.Knows v' := by
  by_cases hnil : v' = .nil
  · exact hnil ▸ trivial
  · exact s.eq_of_take htake hnil ▸ hv

/-- The faults that were made in a session are entered, each as what it is. -/
structure Covers (L : Ledger) (s : Session) : Prop where
  sound : L.Sound
  made : s.made = L.causes.length
  heap : ∀ r, L.KnowsTable (s.heap.get r)
  globals : L.KnowsTable s.globals

namespace Covers

theorem start (m : Machine) : empty.Covers (.start m) where
  sound := sound_empty
  made := rfl
  heap r := by
    have hstate : empty.KnowsTable Session.stateTable :=
      (knowsTable_empty.set _ (knows_text _)).set _ (knows_text _)
    rcases Heap.empty.get_alloc_or r Session.stateTable with hget | hget
    · exact hget.symm ▸ hstate
    · exact hget.symm ▸ knowsTable_empty
  globals := by
    have hbuiltins : ∀ (fs : List (String × Builtin)) (t : Table), empty.KnowsTable t →
        empty.KnowsTable (fs.foldl (fun t f => t.set (.text f.1) (.function f.2)) t) := by
      intro fs
      induction fs with
      | nil => exact fun t ht => ht
      | cons f fs ih =>
          have hf : empty.Knows (.function f.2) := trivial
          exact fun t ht => ih _ (ht.set _ hf)
    exact hbuiltins _ _ (knowsTable_empty.set _ (knows_table _))

theorem logged (h : L.Covers s) (events : List Event) : L.Covers (s.logged events) :=
  ⟨h.sound, h.made, h.heap, h.globals⟩

theorem spending (h : L.Covers s) (n : Nat) : L.Covers (s.spending n) :=
  ⟨h.sound, h.made, h.heap, h.globals⟩

theorem written (h : L.Covers s) (bytes : Bytes) :
    L.Covers { s with printed := s.printed ++ bytes } :=
  ⟨h.sound, h.made, h.heap, h.globals⟩

/-- One more number is given out, and entered. -/
theorem counted (h : L.Covers s) {c : Cause} (hc : c.Fair L) : (L.enter c).Covers s.counted where
  sound := h.sound.enter hc
  made := by
    change s.made + 1 = (L.causes ++ [c]).length
    rw [h.made, List.length_append, List.length_singleton]
  heap r := (h.heap r).mono (.enter L c)
  globals := h.globals.mono (.enter L c)

theorem knows (h : L.Covers s) {c : Cause} {f : Fault} (hc : c.Makes f) :
    (L.enter c).Knows (.fault s.made f) := by
  rw [h.made]
  exact knows_enter L hc

theorem newTable (h : L.Covers s) {t : Table} (ht : L.KnowsTable t) :
    L.Covers { s with heap := (s.heap.alloc t).1 } where
  sound := h.sound
  made := h.made
  heap r := by
    rcases s.heap.get_alloc_or r t with hget | hget
    · exact hget.symm ▸ ht
    · exact hget.symm ▸ h.heap r
  globals := h.globals

theorem setField (h : L.Covers s) (r : Ref) (k : Value) {v : Value} (hv : L.Knows v) :
    L.Covers { s with heap := s.heap.set r ((s.heap.get r).set k v) } where
  sound := h.sound
  made := h.made
  heap r' := by
    rcases s.heap.get_set r r' ((s.heap.get r).set k v) with hget | hget
    · exact hget.symm ▸ (h.heap r).set k hv
    · exact hget.symm ▸ h.heap r'
  globals := h.globals

theorem setGlobal (h : L.Covers s) (k : Value) {v : Value} (hv : L.Knows v) :
    L.Covers { s with globals := s.globals.set k v } :=
  ⟨h.sound, h.made, h.heap, h.globals.set k hv⟩

theorem registry (h : L.Covers s) (registry : Registry) : L.Covers { s with registry } :=
  ⟨h.sound, h.made, h.heap, h.globals⟩

theorem loading (h : L.Covers s) (loading : List Location) : L.Covers { s with loading } :=
  ⟨h.sound, h.made, h.heap, h.globals⟩

/-- What the program puts back is known. -/
theorem knows_renewed (h : L.Covers s) (v : Value) :
    (L.enter (.passage .copy v)).Knows (v.renewed s.made) := by
  cases v with
  | fault n f => exact h.knows (.passage (.copy n f))
  | _ => trivial

end Covers

/-! ### How the ledger goes on -/

/-- The ledger when a function does not come to its end. -/
def halted (L : Ledger) : Interruption → Ledger
  | .fault f => L.enter (.failure f)
  | _ => L.enter .panic

/-- The ledger after a call of a function of the program that has ended so. -/
def called (L : Ledger) : Except Value α → Ledger
  | .error (.fault n f) => L.enter (.passage .callback (.fault n f))
  | _ => L

/-- The ledger when the program goes on with scripts that have ended so. -/
def finished (L : Ledger) : Except Value (List Value) × Session → Ledger
  | (.ok vs, t) =>
      match t.take (firstValue vs) with
      | .ok _ => L
      | .error i => L.halted i
  | (.error v, t) =>
      match t.failure v with
      | .fault _ => L.enter (.passage .departure v)
      | i => L.halted i

/-- The ledger after a file is closed. -/
def closed (L : Ledger) (directory : Value) : Except Value Value → Ledger
  | .error (.panic _) => L
  | _ => L.enter (.passage .copy directory)

theorem extends_halted (L : Ledger) (i : Interruption) : L.Extends (L.halted i) := by
  cases i <;> exact .enter _ _

theorem extends_called (L : Ledger) (x : Except Value α) : L.Extends (L.called x) := by
  unfold called
  split
  · exact .enter _ _
  · exact .refl _

theorem extends_finished (L : Ledger) (e : Except Value (List Value) × Session) :
    L.Extends (L.finished e) := by
  unfold finished
  split
  · split
    · exact .refl _
    · exact L.extends_halted _
  · split
    · exact .enter _ _
    · exact L.extends_halted _

theorem extends_closed (L : Ledger) (directory : Value) (x : Except Value Value) :
    L.Extends (L.closed directory x) := by
  unfold closed
  split
  · exact .refl _
  · exact .enter _ _

/-- The faults of a session are entered, and what is raised in it is known. -/
structure Tracks (L : Ledger) (e : Except Value α × Session) : Prop where
  covers : L.Covers e.2
  knows : ∀ v, e.1 = .error v → L.Knows v

namespace Tracks

theorem of_ok {a : α} (h : L.Covers s) : L.Tracks (.ok a, s) where
  covers := h
  knows v hv := by cases hv

theorem of_error {v : Value} (h : L.Covers s) (hv : L.Knows v) :
    L.Tracks ((.error v, s) : Except Value α × Session) where
  covers := h
  knows u hu := by
    cases hu
    exact hv

theorem halted (h : L.Covers s) {i : Interruption}
    (hi : ∀ f, i = .fault f → f.planError? = none) :
    (L.halted i).Tracks (s.halted i : Except Value α × Session) := by
  cases i with
  | fault f => exact .of_error (h.counted (c := .failure f) (hi f rfl)) (h.knows (.failure f))
  | panic => exact .of_error (h.counted (c := .panic) trivial) trivial
  | resumed n => exact .of_error ((h.spending n).counted (c := .panic) trivial) trivial

theorem resumed (h : L.Covers s) (n : Nat) :
    (L.halted (.resumed n)).Tracks (s.halted (.resumed n) : Except Value α × Session) :=
  .halted h fun f hf => by cases hf

theorem called {e : Except Value α × Session} (h : L.Tracks e) :
    (L.called e.1).Tracks (Session.called e) := by
  rcases e with ⟨v | a, t⟩
  · cases v with
    | fault n f =>
        exact .of_error (h.covers.counted (c := .passage .callback (.fault n f)) (h.knows _ rfl))
          (h.covers.knows (.passage (.callback n f)))
    | _ => exact h
  · exact h

theorem finished {e : Except Value (List Value) × Session} (h : L.Tracks e) :
    (L.finished e).Tracks (Session.finished e) := by
  rcases e with ⟨v | vs, t⟩
  · have hfair : Cause.Fair L (.passage .departure v) := h.knows v rfl
    have hmakes : Cause.Makes (.passage .departure v) (v.toFault t.machine) :=
      .passage (.departure t.machine v)
    obtain ⟨n, hn⟩ | hf := t.failure_cases v
    · simp only [Ledger.finished, Session.finished, hn]
      exact .resumed h.covers n
    · simp only [Ledger.finished, Session.finished, hf]
      exact .of_error (h.covers.counted hfair) (h.covers.knows hmakes)
  · obtain ⟨n, hn⟩ | ⟨v, hv⟩ := t.take_cases (firstValue vs)
    · simp only [Ledger.finished, Session.finished, hn]
      exact .resumed h.covers n
    · simp only [Ledger.finished, Session.finished, hv]
      exact .of_ok h.covers

theorem closed {e : Except Value Value × Session} (h : L.Tracks e) (l : Location) (r : Ref)
    {directory : Value} (hdirectory : L.Knows directory) :
    (L.closed directory e.1).Tracks (Session.close l r directory e) := by
  have hfair : Cause.Fair L (.passage .copy directory) := hdirectory
  have hclosed : (L.enter (.passage .copy directory)).Covers (e.2.closed l r directory) :=
    ((h.covers.counted hfair).setField r _ (h.covers.knows_renewed directory)).loading _
  rcases e with ⟨v | a, t⟩
  · have hv := h.knows v rfl
    cases v with
    | panic n => exact h
    | _ => exact .of_error hclosed (hv.mono (.enter L _))
  · exact .of_ok hclosed

end Tracks

end Ledger

/-! ### Accounts -/

namespace Run

/-- How a run in a session goes on from one ledger to another.  Only known values are kept or
raised, and every fault is entered when it is made. -/
inductive Account : {α : Type} → Run α → Session → Ledger → Ledger → Prop
  | pure {α : Type} (a : α) (s : Session) (L : Ledger) : Account (pure a) s L L
  | throw {α : Type} {v : Value} (s : Session) {L : Ledger} :
      L.Knows v → Account (throw v : Run α) s L L
  | get (s : Session) (L : Ledger) : Account get s L L
  | log (events : List Event) (s : Session) (L : Ledger) : Account (log events) s L L
  | spend (n : Nat) (s : Session) (L : Ledger) : Account (spend n) s L L
  | write (bytes : Bytes) (s : Session) (L : Ledger) : Account (write bytes) s L L
  | setLoading (f : List Location → List Location) (s : Session) (L : Ledger) :
      Account (setLoading f) s L L
  | newTable {t : Table} (s : Session) {L : Ledger} :
      L.KnowsTable t → Account (newTable t) s L L
  | setField (r : Ref) (k : Value) {v : Value} (s : Session) {L : Ledger} :
      L.Knows v → Account (setField r k v) s L L
  | setGlobal (n : String) {v : Value} (s : Session) {L : Ledger} : L.Knows v →
      Account (modify fun s => { s with globals := s.globals.set (.text n) v }) s L L
  | fault {α : Type} {f : Fault} (s : Session) (L : Ledger) :
      f.planError? = none → Account (fault f : Run α) s L (L.enter (.failure f))
  | panic {α : Type} (s : Session) (L : Ledger) : Account (panic : Run α) s L (L.enter .panic)
  /-- A declaration whose arguments specify no target. -/
  | unspecified {kind : Kind} {arguments : List Value} {s : Session} {i : Interruption}
      (L : Ledger) : Specification.read kind s arguments = .error i →
      Account (declare kind arguments) s L (L.halted i)
  | declared {kind : Kind} {arguments : List Value} {s : Session} {spec : Specification}
      {registry : Registry} (L : Ledger) : Specification.read kind s arguments = .ok spec →
      s.registry.declare kind spec = .ok registry → Account (declare kind arguments) s L L
  | refused {kind : Kind} {arguments : List Value} {s : Session} {spec : Specification}
      {e : PlanError} (L : Ledger) : Specification.read kind s arguments = .ok spec →
      s.registry.declare kind spec = .error e →
      Account (declare kind arguments) s L (L.enter (.refusal s.registry kind spec e))
  | attempt {α : Type} {x : Run α} {s : Session} {L L' : Ledger} :
      Account x s L L' → Account (attempt x) s L L'
  | bind {α β : Type} {x : Run α} {f : α → Run β} {a : α} {s t : Session} {L L' L'' : Ledger} :
      Account x s L L' → x.outcome s = (.ok a, t) → Account (f a) t L' L'' →
        Account (x >>= f) s L L''
  /-- A run whose first part raises a value. -/
  | stop {α β : Type} {x : Run α} (f : α → Run β) {v : Value} {s t : Session} {L L' : Ledger} :
      Account x s L L' → x.outcome s = (.error v, t) → Account (x >>= f) s L L'
  /-- A function of the program that a script has called. -/
  | callback {α : Type} {x : Run α} {s : Session} {L L' : Ledger} :
      Account x s L L' → Account (callback x) s L (L'.called (x.outcome s).1)
  /-- Scripts that are carried out for the program. -/
  | finish {x : Run (List Value)} {s : Session} {L L' : Ledger} :
      Account x s L L' → Account (finish x) s L (L'.finished (x.outcome s))
  /-- What is done while a file is open. -/
  | closing (l : Location) (r : Ref) {directory : Value} {x : Run Value} {s : Session}
      {L L' : Ledger} : Account x s L L' → L.Knows directory →
      Account (closing l r directory x) s L (L'.closed directory (x.outcome s).1)

namespace Account

variable {x : Run α} {s : Session} {L L' : Ledger}

theorem extends_ledger (h : Account x s L L') : L.Extends L' := by
  induction h with
  | pure | throw | get | log | spend | write | setLoading => exact .refl _
  | newTable | setField | setGlobal | declared => exact .refl _
  | fault | panic | refused => exact .enter _ _
  | unspecified => exact Ledger.extends_halted _ _
  | attempt _ ih => exact ih
  | bind _ _ _ ihx ihf => exact ihx.trans ihf
  | stop _ _ _ ih => exact ih
  | callback _ ih => exact ih.trans (Ledger.extends_called _ _)
  | finish _ ih => exact ih.trans (Ledger.extends_finished _ _)
  | closing _ _ _ _ ih => exact ih.trans (Ledger.extends_closed _ _ _)

/-- After a run that has an account all faults are entered, the one that it raises included. -/
theorem tracks (h : Account x s L L') (hs : L.Covers s) : L'.Tracks (x.outcome s) := by
  induction h with
  | pure a s L => exact .of_ok hs
  | throw s hv => exact .of_error hs hv
  | get s L => exact .of_ok hs
  | log events s L => exact .of_ok (hs.logged events)
  | spend n s L => exact .of_ok (hs.spending n)
  | write bytes s L => exact .of_ok (hs.written bytes)
  | setLoading f s L => exact .of_ok (hs.loading _)
  | newTable s ht => exact .of_ok (hs.newTable ht)
  | setField r k s hv => exact .of_ok (hs.setField r k hv)
  | setGlobal n s hv => exact .of_ok (hs.setGlobal _ hv)
  | @fault _ f s L hf =>
      refine Ledger.Tracks.halted (i := .fault f) hs fun f' hf' => ?_
      cases hf'
      exact hf
  | panic s L => exact .of_error (hs.counted (c := .panic) trivial) trivial
  | @unspecified kind arguments s i L hread =>
      rw [outcome_declare, hread]
      refine .halted hs fun f hf => ?_
      subst hf
      exact Specification.planError?_of_read hread
  | @declared kind arguments s spec registry L hread hdeclare =>
      rw [outcome_declare, hread]
      dsimp only
      rw [hdeclare]
      exact .of_ok ((hs.logged _).registry registry)
  | @refused kind arguments s spec e L hread hdeclare =>
      have hrefusal : Cause.Fair L (.refusal s.registry kind spec e) :=
        ⟨Specification.not_isBlank_of_read hread, hdeclare⟩
      rw [outcome_declare, hread]
      dsimp only
      rw [hdeclare]
      exact .of_error ((hs.logged _).counted hrefusal) (hs.knows (.refusal s.registry kind spec e))
  | attempt _ ih => exact .of_ok (ih hs).covers
  | bind hx hxs _ ihx ihf =>
      have hfirst := (ihx hs).covers
      rw [hxs] at hfirst
      rw [outcome_bind_of_ok hxs]
      exact ihf hfirst
  | stop f hx hxs ih =>
      have hends := ih hs
      rw [hxs] at hends
      rw [outcome_bind_of_error hxs]
      exact .of_error hends.covers (hends.knows _ rfl)
  | callback _ ih =>
      rw [outcome_callback]
      exact (ih hs).called
  | finish _ ih =>
      rw [outcome_finish]
      exact (ih hs).finished
  | closing l r haccount hdirectory ih =>
      rw [outcome_closing]
      exact (ih hs).closed l r (hdirectory.mono haccount.extends_ledger)

end Account

end Run

end BuildPlan
