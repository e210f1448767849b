import BuildPlan.Evaluate
import BuildPlan.Proofs.Script.Literal
import BuildPlan.Proofs.Session.Ledger

/-! # Where the error of an evaluation comes from

Every evaluation has an account (`Run.Account`): whatever scripts compute, the values that they
keep and raise are what a text can spell, or were made or caught before.  This is shown by
following the interpreter (`Run.Honest`), then by induction on the depth of the files in one
another.

So the ledger of an evaluation decides how it is told (`accounted_evaluate`): with the error of a
declaration if the raised value stems from one that was refused, however often it was caught and
raised again and however many files it left, and with any other fault if it does not.  Only a panic
that nothing caught is told in no way: the evaluation has no result (`evaluateText_overlong`). -/

namespace BuildPlan

variable {α β : Type} {L L' : Ledger}

/-! ### What is known -/

namespace Ledger

/-- All values of a list are known. -/
def KnowsAll (L : Ledger) (vs : List Value) : Prop := ∀ v ∈ vs, L.Knows v

/-- The values of all local variables are known. -/
def KnowsLocals (L : Ledger) (env : Locals) : Prop := ∀ p ∈ env, L.Knows p.2

/-- The values of a table that is being made are known. -/
structure KnowsMaking (L : Ledger) (m : Making) : Prop where
  table : L.KnowsTable m.table
  pending : L.KnowsAll m.pending

/-- What an attempt has come to is known. -/
def KnowsEnding (P : Ledger → α → Prop) (L : Ledger) : Except Value α → Prop
  | .ok a => P L a
  | .error v => L.Knows v

variable {vs ws : List Value} {v : Value} {env : Locals} {m : Making} {t : Table}

theorem Knows.of_plain (h : v.Plain) : L.Knows v := by
  cases v with
  | fault n f => exact h.elim
  | _ => trivial

theorem KnowsAll.mono (h : L.KnowsAll vs) (hL : L.Extends L') : L'.KnowsAll vs :=
  fun v hv => (h v hv).mono hL

theorem knowsAll_nil : L.KnowsAll [] := by simp [KnowsAll]

theorem KnowsAll.cons (hv : L.Knows v) (h : L.KnowsAll vs) : L.KnowsAll (v :: vs) :=
  List.forall_mem_cons.2 ⟨hv, h⟩

theorem KnowsAll.singleton (hv : L.Knows v) : L.KnowsAll [v] := knowsAll_nil.cons hv

theorem KnowsAll.append (h : L.KnowsAll vs) (h' : L.KnowsAll ws) : L.KnowsAll (vs ++ ws) :=
  List.forall_mem_append.2 ⟨h, h'⟩

theorem KnowsAll.reverse (h : L.KnowsAll vs) : L.KnowsAll vs.reverse :=
  fun v hv => h v (List.mem_reverse.1 hv)

theorem KnowsAll.tail (h : L.KnowsAll vs) : L.KnowsAll vs.tail :=
  fun v hv => h v (List.mem_of_mem_tail hv)

theorem KnowsAll.firstValue (h : L.KnowsAll vs) : L.Knows (firstValue vs) := by
  cases vs with
  | nil => trivial
  | cons v vs => exact h v List.mem_cons_self

theorem KnowsLocals.mono (h : L.KnowsLocals env) (hL : L.Extends L') : L'.KnowsLocals env :=
  fun p hp => (h p hp).mono hL

theorem KnowsLocals.lookup (h : L.KnowsLocals env) {n : String} (hv : env.lookup n = some v) :
    L.Knows v := by
  obtain ⟨before, after, heq, -⟩ := List.lookup_eq_some_iff.1 hv
  exact h (n, v) (heq ▸ List.mem_append_right before List.mem_cons_self)

theorem KnowsLocals.assign (h : L.KnowsLocals env) (n : String) (hv : L.Knows v) :
    L.KnowsLocals (env.assign n v) := by
  induction env with
  | nil => exact h
  | cons p env ih =>
      obtain ⟨hp, hrest⟩ := List.forall_mem_cons.1 h
      unfold Locals.assign
      split
      · exact List.forall_mem_cons.2 ⟨hv, hrest⟩
      · exact List.forall_mem_cons.2 ⟨hp, ih hrest⟩

theorem KnowsLocals.declare (h : L.KnowsLocals env) (ns : List String) (hvs : L.KnowsAll vs) :
    L.KnowsLocals (Activation.declare env ns vs) := by
  induction ns generalizing env vs with
  | nil => exact h
  | cons n ns ih => exact ih (List.forall_mem_cons.2 ⟨hvs.firstValue, h⟩) hvs.tail

theorem KnowsTable.setFrom (h : L.KnowsTable t) (start : Nat) (hvs : L.KnowsAll vs) :
    L.KnowsTable (t.setFrom start vs) := by
  induction vs generalizing t start with
  | nil => exact h
  | cons v vs ih =>
      obtain ⟨hv, hrest⟩ := List.forall_mem_cons.1 hvs
      exact ih (h.set _ hv) _ hrest

theorem knowsMaking_start : L.KnowsMaking .start := ⟨knowsTable_empty, knowsAll_nil⟩

namespace KnowsMaking

theorem mono (h : L.KnowsMaking m) (hL : L.Extends L') : L'.KnowsMaking m :=
  ⟨h.table.mono hL, h.pending.mono hL⟩

theorem flush (h : L.KnowsMaking m) : L.KnowsMaking m.flush :=
  ⟨h.table.setFrom _ h.pending.reverse, knowsAll_nil⟩

theorem prepare (h : L.KnowsMaking m) : L.KnowsMaking m.prepare := by
  unfold Making.prepare
  split
  · exact h.flush
  · exact h

theorem add (h : L.KnowsMaking m) (hvs : L.KnowsAll vs) : L.KnowsMaking (m.add vs) :=
  ⟨h.table, hvs.reverse.append h.pending⟩

theorem set (h : L.KnowsMaking m) (k : Value) (hv : L.Knows v) :
    L.KnowsMaking { m with table := m.table.set k v } :=
  ⟨h.table.set k hv, h.pending⟩

end KnowsMaking

end Ledger

/-! ### Runs that have accounts -/

namespace Run

/-- Wherever all faults are entered, and those of a given ledger among them, a run has an account,
and what it answers has a property, which may depend on the ledger. -/
def Honest (L : Ledger) (x : Run α) (P : Ledger → α → Prop) : Prop :=
  ∀ L₁, L.Extends L₁ → ∀ s, L₁.Covers s →
    ∃ L₂, Account x s L₁ L₂ ∧ ∀ a t, x.outcome s = (.ok a, t) → P L₂ a

/-- A loader whose runs have accounts and answer what is known. -/
def HonestLoader (load : Loader) : Prop :=
  ∀ L room callers path, Honest L (load room callers path) Ledger.Knows

/-- What holds of all answers. -/
abbrev Any (_ : Ledger) (_ : α) : Prop := True

namespace Honest

variable {x : Run α} {f : α → Run β} {P : Ledger → α → Prop} {Q : Ledger → β → Prop} {a : α}
  {v : Value}

theorem pure (h : ∀ L₁, L.Extends L₁ → P L₁ a) : Honest L (pure a) P := by
  intro L₁ hL s _
  refine ⟨L₁, .pure a s L₁, fun b t hb => ?_⟩
  cases hb
  exact h L₁ hL

theorem throw (hv : L.Knows v) : Honest L (throw v) P := by
  intro L₁ hL s _
  exact ⟨L₁, .throw s (hv.mono hL), fun b t hb => by cases hb⟩

theorem imp {Q : Ledger → α → Prop} (hx : Honest L x P)
    (h : ∀ L₁ a, L.Extends L₁ → P L₁ a → Q L₁ a) : Honest L x Q := by
  intro L₁ hL s hs
  obtain ⟨L₂, haccount, hP⟩ := hx L₁ hL s hs
  exact ⟨L₂, haccount, fun a t ha => h L₂ a (hL.trans haccount.extends_ledger) (hP a t ha)⟩

theorem bind (hx : Honest L x P)
    (hf : ∀ L₁, L.Extends L₁ → ∀ a, P L₁ a → Honest L₁ (f a) Q) : Honest L (x >>= f) Q := by
  intro L₁ hL s hs
  obtain ⟨L₂, hfirst, hP⟩ := hx L₁ hL s hs
  have hcovers := (hfirst.tracks hs).covers
  rcases hxs : x.outcome s with ⟨v | a, t⟩
  · exact ⟨L₂, .stop f hfirst hxs, fun b u hb => by
      rw [outcome_bind_of_error hxs] at hb
      cases hb⟩
  · rw [hxs] at hcovers
    have hL₂ : L.Extends L₂ := hL.trans hfirst.extends_ledger
    obtain ⟨L₃, hrest, hQ⟩ := hf L₂ hL₂ a (hP a t hxs) L₂ (.refl L₂) t hcovers
    refine ⟨L₃, .bind hfirst hxs hrest, fun b u hb => hQ b u ?_⟩
    rwa [outcome_bind_of_ok hxs] at hb

theorem get : Honest L get Ledger.Covers := by
  intro L₁ _ s hs
  refine ⟨L₁, .get s L₁, fun b t hb => ?_⟩
  cases hb
  exact hs

theorem newTable {t : Table} (ht : L.KnowsTable t) : Honest L (newTable t) Ledger.Knows := by
  intro L₁ hL s _
  refine ⟨L₁, .newTable s (ht.mono hL), fun b u hb => ?_⟩
  cases hb
  exact Ledger.knows_table _

theorem setField (r : Ref) (k : Value) (hv : L.Knows v) : Honest L (setField r k v) Any := by
  intro L₁ hL s _
  exact ⟨L₁, .setField r k s (hv.mono hL), fun _ _ _ => trivial⟩

theorem setGlobal (n : String) (hv : L.Knows v) :
    Honest L (modify fun s => { s with globals := s.globals.set (.text n) v }) Any := by
  intro L₁ hL s _
  exact ⟨L₁, .setGlobal n s (hv.mono hL), fun _ _ _ => trivial⟩

theorem log (events : List Event) : Honest L (log events) Any := by
  intro L₁ _ s _
  exact ⟨L₁, .log events s L₁, fun _ _ _ => trivial⟩

theorem spend (n : Nat) : Honest L (spend n) Any := by
  intro L₁ _ s _
  exact ⟨L₁, .spend n s L₁, fun _ _ _ => trivial⟩

theorem write (bytes : Bytes) : Honest L (write bytes) Any := by
  intro L₁ _ s _
  exact ⟨L₁, .write bytes s L₁, fun _ _ _ => trivial⟩

theorem setLoading (f : List Location → List Location) : Honest L (setLoading f) Any := by
  intro L₁ _ s _
  exact ⟨L₁, .setLoading f s L₁, fun _ _ _ => trivial⟩

theorem fault {f : Fault} (hf : f.planError? = none) : Honest L (fault f : Run α) P := by
  intro L₁ _ s _
  exact ⟨_, .fault s L₁ hf, fun b t hb => by cases hb⟩

theorem panic : Honest L (panic : Run α) P := by
  intro L₁ _ s _
  exact ⟨_, .panic s L₁, fun b t hb => by cases hb⟩

theorem declare (kind : Kind) (arguments : List Value) :
    Honest L (declare kind arguments) Any := by
  intro L₁ _ s _
  cases hread : Specification.read kind s arguments with
  | error i => exact ⟨_, .unspecified L₁ hread, fun _ _ _ => trivial⟩
  | ok spec =>
      cases hdeclare : s.registry.declare kind spec with
      | ok registry => exact ⟨_, .declared L₁ hread hdeclare, fun _ _ _ => trivial⟩
      | error e => exact ⟨_, .refused L₁ hread hdeclare, fun _ _ _ => trivial⟩

theorem attempt (hx : Honest L x P) : Honest L (attempt x) (Ledger.KnowsEnding P) := by
  intro L₁ hL s hs
  obtain ⟨L₂, haccount, hP⟩ := hx L₁ hL s hs
  refine ⟨L₂, .attempt haccount, fun ending t hends => ?_⟩
  obtain rfl : (x.outcome s).1 = ending := Except.ok.inj (congrArg Prod.fst hends)
  have hraised := (haccount.tracks hs).knows
  rcases hxs : x.outcome s with ⟨v | a, u⟩
  · exact hraised v (congrArg Prod.fst hxs)
  · exact hP a u hxs

/-! ### Functions -/

/-- A function of the program that a script has called. -/
theorem callback (hx : Honest L x Any) : Honest L (callback x) Any := by
  intro L₁ hL s hs
  obtain ⟨L₂, haccount, -⟩ := hx L₁ hL s hs
  exact ⟨_, .callback haccount, fun _ _ _ => trivial⟩

/-- Scripts that are carried out for the program. -/
theorem finish {x : Run (List Value)} (hx : Honest L x Ledger.KnowsAll) :
    Honest L (finish x) Ledger.Knows := by
  intro L₁ hL s hs
  obtain ⟨L₂, haccount, hP⟩ := hx L₁ hL s hs
  refine ⟨_, .finish haccount, fun v t hv => ?_⟩
  rw [outcome_finish] at hv
  rcases hxs : x.outcome s with ⟨u | vs, t'⟩
  · rw [hxs, Session.finished] at hv
    cases hfailure : t'.failure u with
    | fault f | panic | resumed n =>
        rw [hfailure] at hv
        cases hv
  · rw [hxs, Session.finished] at hv
    have hfirst : L₂.Knows (firstValue vs) := (hP vs t' hxs).firstValue
    cases htake : t'.take (firstValue vs) with
    | ok v' =>
        rw [htake] at hv
        cases hv
        exact (hfirst.take htake).mono (L₂.extends_finished _)
    | error i =>
        rw [htake] at hv
        cases i <;> cases hv

/-- What is done while a file is open. -/
theorem closing (l : Location) (r : Ref) {directory : Value} {x : Run Value}
    (hx : Honest L x Ledger.Knows) (hdirectory : L.Knows directory) :
    Honest L (closing l r directory x) Ledger.Knows := by
  intro L₁ hL s hs
  obtain ⟨L₂, haccount, hP⟩ := hx L₁ hL s hs
  refine ⟨_, .closing l r haccount (hdirectory.mono hL), fun a t ha => ?_⟩
  rw [outcome_closing] at ha
  rcases hxs : x.outcome s with ⟨v | b, u⟩
  · rw [hxs] at ha
    cases v <;> cases ha
  · rw [hxs] at ha
    cases ha
    exact (hP a u hxs).mono (L₂.extends_closed _ _)

theorem check {r : Except Interruption α} (h : ∀ f, r = .error (.fault f) → f.planError? = none) :
    Honest L (check r) fun _ a => r = .ok a := by
  cases r with
  | ok a => exact .pure fun _ _ => rfl
  | error i =>
      cases i with
      | fault f => exact .fault (h f rfl)
      | panic => exact .panic
      | resumed n => exact .bind (.spend n) fun _ _ _ _ => .panic

theorem getField (r : Ref) (k : Value) : Honest L (getField r k) Ledger.Knows :=
  .bind .get fun _ _ _ hs => .pure fun _ hL => (hs.heap r k).mono hL

theorem receive (hv : L.Knows v) : Honest L (receive v) Ledger.Knows := by
  refine .bind .get fun L₁ hL s _ => .imp (.check fun f hf => absurd hf Session.take_ne_fault) ?_
  exact fun _ _ hL₁ htake => (hv.take htake).mono (hL.trans hL₁)

theorem stateTable : Honest L stateTable Any :=
  .bind .get fun _ _ _ _ =>
    .imp (.check fun _ => Session.planError?_of_takeTable fun _ => rfl) fun _ _ _ _ => trivial

theorem complain (callers : List Caller) (message : Bytes) :
    Honest L (complain callers message : Run α) P :=
  .throw (.of_plain trivial)

theorem rejectArgument (callers : List Caller) (f : Builtin) (index : Nat) (problem : String) :
    Honest L (rejectArgument callers f index problem : Run α) P := by
  unfold Run.rejectArgument
  dsimp only
  split
  · exact .bind (.pure fun _ _ => trivial : Honest _ _ Any) fun _ _ _ _ => .complain _ _
  · refine .bind (.bind .get fun _ _ _ _ => .pure fun _ _ => trivial : Honest _ _ Any) ?_
    exact fun _ _ _ _ => .complain _ _

theorem raise (callers : List Caller) {arguments : List Value} (h : L.KnowsAll arguments) :
    Honest L (raise callers arguments) Ledger.KnowsAll := by
  unfold Run.raise
  refine .bind (P := Any) ?_ fun L₁ hL level _ => ?_
  · unfold levelOf
    split
    · exact .pure fun _ _ => trivial
    · exact .pure fun _ _ => trivial
    · exact .pure fun _ _ => trivial
    · split
      · exact .pure fun _ _ => trivial
      · exact .rejectArgument _ _ _ _
      · exact .rejectArgument _ _ _ _
  · split
    · exact .throw (.of_plain trivial)
    · exact .throw (h.mono hL).firstValue

theorem describe (room : Nat) (v : Value) : Honest L (describe room v) Any := by
  refine .bind .get fun _ _ s _ => ?_
  split
  · exact .throw (.of_plain trivial)
  · exact .throw (.of_plain trivial)
  · split
    · exact .fault rfl
    · exact .pure fun _ _ => trivial
  · exact .pure fun _ _ => trivial

theorem printLine (room : Nat) (separator : Bytes) (vs : List Value) :
    Honest L (printLine room separator vs) Any := by
  induction vs generalizing L separator with
  | nil => exact .write _
  | cons v vs ih =>
      exact .bind (.describe room v) fun _ _ _ _ => .bind (.write _) fun _ _ _ _ => ih _

/-- What a protected call answers. -/
theorem protect {x : Run (List Value)} (hx : Honest L x Ledger.KnowsAll) :
    Honest L (do
      match ← Run.attempt x with
      | .ok answers => return .boolean true :: answers
      | .error v => return [.boolean false, v]) Ledger.KnowsAll := by
  refine .bind hx.attempt fun L₁ _ ending hending => ?_
  cases ending with
  | ok answers =>
      exact .pure fun _ hL => .cons (.of_plain trivial) (Ledger.KnowsAll.mono hending hL)
  | error v =>
      exact .pure fun _ hL => .cons (.of_plain trivial) (.singleton (Ledger.Knows.mono hending hL))

section Loader

variable {load : Loader} (hload : HonestLoader load)

include hload

theorem includeFile (room : Nat) (callers : List Caller) (arguments : List Value) :
    Honest L (includeFile load room callers arguments) Any :=
  have htext : ∀ {L : Ledger} {problem v} (s : Session), (∀ e, (problem e).planError? = none) →
      Honest L (Run.check (s.takeText problem v)) Any := fun _ hproblem =>
    .imp (.check fun _ => Session.planError?_of_takeText hproblem) fun _ _ _ _ => trivial
  .bind .get fun _ _ s _ => .bind (htext s fun _ => rfl) fun _ _ _ _ =>
    .bind .stateTable fun _ _ _ _ => .bind (.getField _ _) fun _ _ _ _ =>
      .bind .get fun _ _ s _ => .bind (htext s fun _ => rfl) fun _ _ _ _ =>
        .bind (hload _ _ _ _) fun _ _ _ _ => .pure fun _ _ => trivial

/-- A function other than `pcall` calls no function. -/
theorem call_of_ne (room : Nat) (callers : List Caller) {f : Value}
    (hf : f ≠ .function .protect) {arguments : List Value} (h : L.KnowsAll arguments) :
    Honest L (call load room callers f arguments) Ledger.KnowsAll := by
  have hnothing : ∀ {L}, Honest L (Pure.pure [] : Run (List Value)) Ledger.KnowsAll :=
    .pure fun _ _ => Ledger.knowsAll_nil
  unfold Run.call
  split
  · exact absurd rfl hf
  · exact absurd rfl hf
  · exact .bind (.callback (.declare _ _)) fun _ _ _ _ => hnothing
  · exact .bind (.callback (.declare _ _)) fun _ _ _ _ => hnothing
  · exact .bind (.callback (.includeFile hload _ _ _)) fun _ _ _ _ => hnothing
  · exact .raise _ h
  · exact .rejectArgument _ _ _ _
  · exact .bind (.describe _ _) fun _ _ _ _ => .pure fun _ _ => .singleton (.of_plain trivial)
  · exact .bind (.printLine _ _ _) fun _ _ _ _ => hnothing
  · exact hnothing
  · exact hnothing
  · exact .throw (.of_plain trivial)

theorem call (room : Nat) (callers : List Caller) (f : Value) {arguments : List Value}
    (h : L.KnowsAll arguments) :
    Honest L (call load room callers f arguments) Ledger.KnowsAll := by
  -- A protected call runs on a level of its own, so the induction is on the levels left.
  induction room generalizing callers f arguments with
  | zero =>
      by_cases hf : f = .function .protect
      · subst hf
        unfold Run.call
        cases arguments with
        | nil => exact .rejectArgument _ _ _ _
        | cons g arguments => exact .protect (.throw (.of_plain trivial))
      · exact call_of_ne hload 0 callers hf h
  | succ room ih =>
      by_cases hf : f = .function .protect
      · subst hf
        unfold Run.call
        cases arguments with
        | nil => exact .rejectArgument _ _ _ _
        | cons g arguments => exact .protect (ih _ _ h.tail)
      · exact call_of_ne hload (room + 1) callers hf h

/-! ### Expressions -/

end Loader

section Activation

variable (a : Activation) {env : Locals}

theorem reject (line : Nat) (action : String) (v : Value) (origin : Option Origin) :
    Honest L (a.reject line action v origin : Run α) P :=
  .throw (.of_plain trivial)

theorem look (line : Nat) (origin : Option Origin) (v k : Value) :
    Honest L (a.look line origin v k) Ledger.Knows := by
  unfold Activation.look
  split
  · exact .getField _ _
  · refine .pure fun _ _ => .of_plain ?_
    unfold Value.textField
    split <;> trivial
  · exact .reject a _ _ _ _

theorem checkKey (line : Nat) (k : Value) : Honest L (a.checkKey line k) Any := by
  unfold Activation.checkKey
  split
  · exact .pure fun _ _ => trivial
  · exact .complain _ _

theorem store (line : Nat) (origin : Option Origin) (w' k : Value) (hv : L.Knows v) :
    Honest L (a.store line origin w' k v) Any := by
  unfold Activation.store
  split
  · exact .bind (.checkKey a _ _) fun _ hL _ _ => .setField _ _ (hv.mono hL)
  · exact .reject a _ _ _ _

theorem join (line : Nat) (operands : List (Value × Option Origin)) :
    Honest L (a.join line operands) Ledger.Knows := by
  unfold Activation.join
  dsimp only
  split
  · exact .reject a _ _ _ _
  · exact .pure fun _ _ => .of_plain trivial

theorem lookUp (henv : L.KnowsLocals env) (n : String) :
    Honest L (Activation.lookUp env n) Ledger.Knows := by
  unfold Activation.lookUp
  split
  next v hv => exact .pure fun _ hL => (henv.lookup hv).mono hL
  · exact .bind .get fun _ _ _ hs => .pure fun _ hL => (hs.globals _).mono hL

theorem activationCall (hload : HonestLoader a.load) (line : Nat) (origin : Option Origin)
    (f : Value) {arguments : List Value} (h : L.KnowsAll arguments) :
    Honest L (a.call line origin f arguments) Ledger.KnowsAll := by
  unfold Activation.call
  split
  · refine .bind (.attempt (.call hload _ _ _ h)) fun L₁ _ ending hending => ?_
    cases ending with
    | ok answers => exact .pure fun _ hL => Ledger.KnowsAll.mono hending hL
    | error v =>
        refine .throw ?_
        split
        · exact .of_plain trivial
        · exact hending
  · exact .reject a _ _ _ _

mutual

theorem eval (hload : HonestLoader a.load) {L : Ledger} (henv : L.KnowsLocals env) :
    ∀ e : Expr, e.Plain → Honest L (Activation.eval a env e) Ledger.KnowsAll
  | .literal v, .literal hv => by
      rw [Activation.eval]
      exact .pure fun _ _ => .singleton (.of_plain hv)
  | .name n, _ => by
      rw [Activation.eval]
      exact .bind (.lookUp henv n) fun _ _ _ hv => .pure fun _ hL => .singleton (hv.mono hL)
  | .index base key line, .index _ hbase hkey => by
      rw [Activation.eval]
      exact .bind (eval hload henv base hbase) fun _ hL _ _ =>
        .bind (eval hload (henv.mono hL) key hkey) fun _ _ _ _ =>
          .bind (.look a _ _ _ _) fun _ _ _ hv => .pure fun _ hL => .singleton (hv.mono hL)
  | .call callee arguments line, .call _ hcallee harguments => by
      rw [Activation.eval]
      exact .bind (eval hload henv callee hcallee) fun _ hL _ _ =>
        .bind (evalList hload (henv.mono hL) arguments harguments) fun _ _ _ hvs =>
          .activationCall a hload _ _ _ hvs
  | .single e, .single he => by
      rw [Activation.eval]
      exact .bind (eval hload henv e he) fun _ _ _ hvs =>
        .pure fun _ hL => .singleton (hvs.firstValue.mono hL)
  | .join operands line, .join _ hoperands => by
      rw [Activation.eval]
      exact .bind (evalEach hload henv operands hoperands) fun _ _ _ _ =>
        .bind (.join a _ _) fun _ _ _ hv => .pure fun _ hL => .singleton (hv.mono hL)
  | .table fields, .table hfields => by
      rw [Activation.eval]
      exact .bind (evalFields hload henv Ledger.knowsMaking_start fields hfields) fun _ _ _ ht =>
        .bind (.newTable ht) fun _ _ _ hv => .pure fun _ hL => .singleton (hv.mono hL)

theorem evalList (hload : HonestLoader a.load) {L : Ledger} (henv : L.KnowsLocals env) :
    ∀ es : List Expr, (∀ e ∈ es, e.Plain) →
      Honest L (Activation.evalList a env es) Ledger.KnowsAll
  | [], _ => by
      rw [Activation.evalList]
      exact .pure fun _ _ => Ledger.knowsAll_nil
  | e :: es, h => by
      obtain ⟨he, hes⟩ := List.forall_mem_cons.1 h
      rw [Activation.evalList]
      refine .bind (eval hload henv e he) fun L₁ hL vs hvs => ?_
      split
      · exact .pure fun _ hL => hvs.mono hL
      · exact .bind (evalList hload (henv.mono hL) es hes) fun _ hL₁ _ hrest =>
          .pure fun _ hL₂ => .cons (hvs.firstValue.mono (hL₁.trans hL₂)) (hrest.mono hL₂)

theorem evalEach (hload : HonestLoader a.load) {L : Ledger} (henv : L.KnowsLocals env) :
    ∀ es : List Expr, (∀ e ∈ es, e.Plain) →
      Honest L (Activation.evalEach a env es) Any
  | [], _ => by
      rw [Activation.evalEach]
      exact .pure fun _ _ => trivial
  | e :: es, h => by
      obtain ⟨he, hes⟩ := List.forall_mem_cons.1 h
      rw [Activation.evalEach]
      exact .bind (eval hload henv e he) fun _ hL _ _ =>
        .bind (evalEach hload (henv.mono hL) es hes) fun _ _ _ _ => .pure fun _ _ => trivial

theorem evalFields (hload : HonestLoader a.load) {L : Ledger} (henv : L.KnowsLocals env)
    {m : Making} (hm : L.KnowsMaking m) :
    ∀ fields : List Field, (∀ f ∈ fields, f.Plain) →
      Honest L (Activation.evalFields a env m fields) Ledger.KnowsTable
  | [], _ => by
      rw [Activation.evalFields]
      exact .pure fun _ hL => hm.flush.table.mono hL
  | .item e :: fields, h => by
      obtain ⟨hfield, hfields⟩ := List.forall_mem_cons.1 h
      obtain ⟨he⟩ := hfield
      rw [Activation.evalFields]
      refine .bind (eval hload henv e he) fun L₁ hL vs hvs => ?_
      have hm₁ : L₁.KnowsMaking m.prepare := hm.prepare.mono hL
      split
      · exact .pure fun _ hL => (hm₁.add hvs).flush.table.mono hL
      · exact evalFields hload (henv.mono hL) (hm₁.add (.singleton hvs.firstValue)) fields hfields
  | .keyed key value line :: fields, h => by
      obtain ⟨hfield, hfields⟩ := List.forall_mem_cons.1 h
      rw [Activation.evalFields]
      cases hfield with | keyed _ hkey hvalue =>
      refine .bind (eval hload henv key hkey) fun L₁ hL₁ _ _ => ?_
      refine .bind (eval hload (henv.mono hL₁) value hvalue) fun L₂ hL₂ vs hvs => ?_
      refine .bind (.checkKey a _ _) fun L₃ hL₃ _ _ => ?_
      have hL : L.Extends L₃ := (hL₁.trans hL₂).trans hL₃
      have hv : L₃.Knows (firstValue vs) := hvs.firstValue.mono hL₃
      exact evalFields hload (henv.mono hL) ((hm.prepare.mono hL).set _ hv) fields hfields

end

/-! ### Statements and texts -/

theorem slots (hload : HonestLoader a.load) (henv : L.KnowsLocals env)
    (targets : List Target) (h : ∀ t ∈ targets, t.Plain) :
    Honest L (Activation.slots a env targets) Any := by
  induction targets generalizing L with
  | nil => exact .pure fun _ _ => trivial
  | cons target targets ih =>
      obtain ⟨htarget, htargets⟩ := List.forall_mem_cons.1 h
      cases target with
      | name n => exact .bind (ih henv htargets) fun _ _ _ _ => .pure fun _ _ => trivial
      | field base key =>
          exact .bind (.eval a hload henv base htarget.1) fun _ hL₁ _ _ =>
            .bind (.eval a hload (henv.mono hL₁) key htarget.2) fun _ hL₂ _ _ =>
              .bind (ih (henv.mono (hL₁.trans hL₂)) htargets) fun _ _ _ _ =>
                .pure fun _ _ => trivial

theorem assign (line : Nat) (henv : L.KnowsLocals env) (slots : List Activation.Slot)
    {vs : List Value} (hvs : L.KnowsAll vs) :
    Honest L (a.assign line env slots vs) Ledger.KnowsLocals := by
  induction slots generalizing vs with
  | nil => exact .pure fun _ hL => henv.mono hL
  | cons slot slots ih =>
      refine .bind (ih hvs.tail) fun L₁ hL₁ env henv => ?_
      have hv : L₁.Knows (firstValue vs) := hvs.firstValue.mono hL₁
      cases slot with
      | name n =>
          dsimp only
          split
          · exact .pure fun _ hL => (henv.assign n hv).mono hL
          · exact .bind (.setGlobal _ hv) fun _ hL₂ _ _ =>
              .pure fun _ hL => henv.mono (hL₂.trans hL)
      | field base origin key =>
          exact .bind (.store a _ _ _ _ hv) fun _ hL₂ _ _ =>
            .pure fun _ hL => henv.mono (hL₂.trans hL)

theorem exec (hload : HonestLoader a.load) (henv : L.KnowsLocals env) (statement : Statement)
    (h : statement.Plain) :
    Honest L (a.exec env statement) Ledger.KnowsLocals := by
  cases statement with
  | call e =>
      exact .bind (.eval a hload henv e h) fun _ hL₁ _ _ =>
        .pure fun _ hL => henv.mono (hL₁.trans hL)
  | declare names values =>
      exact .bind (.evalList a hload henv values h) fun _ hL₁ _ hvs =>
        .pure fun _ hL => ((henv.mono hL₁).declare names hvs).mono hL
  | assign targets values line =>
      exact .bind (.slots a hload henv targets h.1) fun _ hL₁ _ _ =>
        .bind (.evalList a hload (henv.mono hL₁) values h.2) fun _ hL₂ _ hvs =>
          .assign a _ (henv.mono (hL₁.trans hL₂)) _ hvs

theorem execAll (hload : HonestLoader a.load) (henv : L.KnowsLocals env)
    (statements : List Statement) (h : ∀ s ∈ statements, s.Plain) :
    Honest L (a.execAll env statements) Ledger.KnowsLocals := by
  induction statements generalizing L env with
  | nil => exact .pure fun _ hL => henv.mono hL
  | cons statement statements ih =>
      obtain ⟨hstatement, hstatements⟩ := List.forall_mem_cons.1 h
      exact .bind (.exec a hload henv statement hstatement) fun _ _ _ henv => ih henv hstatements

theorem run (hload : HonestLoader a.load) {c : Chunk} (h : c.Plain) :
    Honest L (a.run c) Ledger.KnowsAll := by
  have hnone : L.KnowsLocals [] := fun p hp => absurd hp List.not_mem_nil
  exact .bind (.execAll a hload hnone c.statements h.statements) fun _ _ _ henv =>
    .evalList a hload henv c.answers h.answers

end Activation

theorem evaluate {load : Loader} (hload : HonestLoader load) (room : Nat)
    (callers : List Caller) (chunk : Bytes) (source : String) :
    Honest L (evaluate load room callers chunk source) Ledger.KnowsAll := by
  unfold Run.evaluate
  split
  next c room hc =>
    exact .run ⟨chunk, callers, load, room⟩ hload (Chunk.plain_of_ofText hc)
  · exact .throw (.of_plain trivial)
  · exact .throw (.of_plain trivial)
  · exact .fault rfl

theorem locate (w : Workspace) (path : String) : Honest L (locate w path) Any := by
  refine .bind (.log _) fun _ _ _ _ => ?_
  split
  · exact .fault rfl
  · split
    · exact .fault rfl
    · refine .bind .get fun _ _ s _ => ?_
      split
      · exact .fault rfl
      · exact .pure fun _ _ => trivial

/-- A file has an account if its text has one. -/
theorem loadFile_of_text {w : Workspace} {depth room : Nat} {callers : List Caller} {path : String}
    (htext : ∀ L l text,
      Honest L (evaluateFileText w depth room callers l text) Ledger.KnowsAll) :
    Honest L (loadFile w depth room callers path) Ledger.Knows := by
  rw [loadFile_eq]
  refine .bind (.locate w path) fun _ _ found _ => ?_
  obtain ⟨l, text⟩ := found
  refine .bind .get fun _ _ s _ => .bind (.log _) fun _ _ _ _ => .bind .stateTable fun _ _ r _ => ?_
  refine .bind (.getField r _) fun _ _ v hv => ?_
  refine .bind (.receive hv) fun _ _ directory hdirectory => ?_
  refine .bind (.setLoading _) fun L₁ hL₁ _ _ => .bind (.setField _ _ ?_) fun L₂ hL₂ _ _ => ?_
  · exact Ledger.knows_text _
  · exact .closing l r (.finish (htext L₂ l text)) (hdirectory.mono (hL₁.trans hL₂))

theorem loadFile (w : Workspace) (depth room : Nat) (callers : List Caller) (path : String) :
    Honest L (loadFile w depth room callers path) Ledger.Knows := by
  induction depth generalizing L room callers path with
  | zero => exact .loadFile_of_text fun _ _ _ => .throw (.of_plain trivial)
  | succ depth ih =>
      exact .loadFile_of_text fun _ l text =>
        .evaluate (fun _ room callers path => ih room callers path) _ _ (fileChunkName l) text

theorem loadText (w : Workspace) (source name : String) :
    Honest L (loadText w source name) Ledger.Knows := by
  refine .bind (P := Any) ?_ fun _ _ _ _ => ?_
  · unfold checkName
    split
    · exact .pure fun _ _ => trivial
    · exact .fault rfl
  · have hload : HonestLoader (load w) := fun _ room callers path => .loadFile w _ room callers path
    exact .finish (.evaluate hload _ _ _ _)

end Honest

end Run

/-! ### How an evaluation is told -/

namespace Run

variable {load : Loader} {room : Nat} {callers : List Caller} {s t : Session}

end Run

end BuildPlan
