import BuildPlan.Proofs.Session.Outcome
import BuildPlan.Proofs.Specification

/-! # What scripts can do to a session

A script reads its session, makes tables, faults and functions, sets fields and global variables,
declares targets, prints, hands panics over to the program, and has files evaluated by its loader.
It has no other way to change its session, and no way to tell two loaders apart but by what they
answer: `Run.Uniform` relates two runs that are the same but for their loaders, with one rule for
each of these operations.

The evaluation of every text is of this kind (`Run.uniform_evaluate`), shown once by following
the interpreter.  What all operations keep is therefore kept by every script, and where two loaders
answer alike, scripts go alike (`Run.Uniform.outcome_eq`). -/

namespace BuildPlan

namespace Run

variable {α β : Type} {load load' : Loader}

/-- Two runs that go on alike, the one with `load` and the other with `load'`. -/
inductive Uniform (load load' : Loader) : {α : Type} → Run α → Run α → Prop
  | pure {α : Type} (a : α) : Uniform load load' (pure a) (pure a)
  | throw {α : Type} (v : Value) : Uniform load load' (throw v : Run α) (throw v)
  | get : Uniform load load' get get
  | serial : Uniform load load' serial serial
  | spend (n : Nat) : Uniform load load' (spend n) (spend n)
  | write (bytes : Bytes) : Uniform load load' (write bytes) (write bytes)
  | newTable (t : Table) : Uniform load load' (newTable t) (newTable t)
  | setField (r : Ref) (k v : Value) : Uniform load load' (setField r k v) (setField r k v)
  | setGlobal (n : String) (v : Value) :
      Uniform load load' (modify fun s => { s with globals := s.globals.set (.text n) v })
        (modify fun s => { s with globals := s.globals.set (.text n) v })
  | declare (kind : Kind) (arguments : List Value) :
      Uniform load load' (declare kind arguments) (declare kind arguments)
  | load (room : Nat) (callers : List Caller) (path : String) :
      Uniform load load' (load room callers path) (load' room callers path)
  | attempt {α : Type} {x x' : Run α} :
      Uniform load load' x x' → Uniform load load' (attempt x) (attempt x')
  | bind {α β : Type} {x x' : Run α} {f f' : α → Run β} :
      Uniform load load' x x' → (∀ a, Uniform load load' (f a) (f' a)) →
        Uniform load load' (x >>= f) (x' >>= f')

namespace Uniform

/-! ### Faults and checks -/

theorem fault (f : Fault) : Uniform load load' (fault f : Run α) (Run.fault f) :=
  .bind .serial fun _ => .throw _

theorem panic : Uniform load load' (panic : Run α) Run.panic :=
  .bind .serial fun _ => .throw _

theorem check (r : Except Interruption α) : Uniform load load' (check r) (Run.check r) := by
  cases r with
  | ok a => exact .pure a
  | error i =>
      cases i with
      | fault f => exact .fault f
      | panic => exact .panic
      | resumed n => exact .bind (.spend n) fun _ => .panic

theorem getField (r : Ref) (k : Value) :
    Uniform load load' (getField r k) (Run.getField r k) :=
  .bind .get fun _ => .pure _

theorem stateTable : Uniform load load' stateTable Run.stateTable :=
  .bind .get fun _ => .check _

theorem complain (callers : List Caller) (message : Bytes) :
    Uniform load load' (complain callers message : Run α) (Run.complain callers message) :=
  .throw _

theorem globalName (f : Builtin) : Uniform load load' (globalName f) (Run.globalName f) :=
  .bind .get fun _ => .pure _

theorem rejectArgument (callers : List Caller) (f : Builtin) (index : Nat) (problem : String) :
    Uniform load load' (rejectArgument callers f index problem : Run α)
      (Run.rejectArgument callers f index problem) := by
  unfold Run.rejectArgument
  dsimp only
  split
  · exact .bind (.pure _) fun _ => .complain _ _
  · exact .bind (.globalName f) fun _ => .complain _ _

/-! ### Functions -/

theorem raise (callers : List Caller) (arguments : List Value) :
    Uniform load load' (raise callers arguments) (Run.raise callers arguments) := by
  unfold Run.raise
  refine .bind ?_ fun level => ?_
  · unfold levelOf
    split
    · exact .pure _
    · exact .pure _
    · exact .pure _
    · split
      · exact .pure _
      · exact .rejectArgument _ _ _ _
      · exact .rejectArgument _ _ _ _
  · split
    · exact .throw _
    · exact .throw _

theorem includeFile (room : Nat) (callers : List Caller) (arguments : List Value) :
    Uniform load load' (includeFile load room callers arguments)
      (Run.includeFile load' room callers arguments) :=
  .bind .get fun _ => .bind (.check _) fun _ => .bind .stateTable fun _ =>
    .bind (.getField _ _) fun _ => .bind .get fun _ => .bind (.check _) fun _ =>
      .bind (.load _ _ _) fun _ => .pure _

theorem receive (v : Value) : Uniform load load' (receive v) (Run.receive v) :=
  .bind .get fun _ => .check _

/-- What the program makes of scripts that it carries out. -/
theorem finish {x x' : Run (List Value)} (h : Uniform load load' x x') :
    Uniform load load' (finish x) (Run.finish x') := by
  refine .bind (.attempt h) fun ending => ?_
  cases ending with
  | ok vs => exact .receive _
  | error v => exact .bind .get fun _ => .check _

/-- What a function of the program does for a script. -/
theorem callback {x x' : Run α} (h : Uniform load load' x x') :
    Uniform load load' (callback x) (Run.callback x') := by
  refine .bind (.attempt h) fun ending => ?_
  rcases ending with v | a
  · cases v with
    | fault n f => exact .fault _
    | _ => exact .throw _
  · exact .pure a

theorem describe (room : Nat) (v : Value) :
    Uniform load load' (describe room v) (Run.describe room v) := by
  refine .bind .get fun s => ?_
  split
  · exact .throw _
  · exact .throw _
  · split
    · exact .fault _
    · exact .pure _
  · exact .pure _

theorem printLine (room : Nat) (separator : Bytes) (vs : List Value) :
    Uniform load load' (printLine room separator vs) (Run.printLine room separator vs) := by
  induction vs generalizing separator with
  | nil => exact .write _
  | cons v vs ih => exact .bind (.describe room v) fun _ => .bind (.write _) fun _ => ih _

/-- A function other than `pcall` calls no function. -/
theorem call_of_ne (room : Nat) (callers : List Caller) {f : Value}
    (hf : f ≠ .function .protect) (arguments : List Value) :
    Uniform load load' (call load room callers f arguments)
      (Run.call load' room callers f arguments) := by
  unfold Run.call
  split
  · exact absurd rfl hf
  · exact absurd rfl hf
  · exact .bind (.callback (.declare _ _)) fun _ => .pure _
  · exact .bind (.callback (.declare _ _)) fun _ => .pure _
  · exact .bind (.callback (.includeFile _ _ _)) fun _ => .pure _
  · exact .raise _ _
  · exact .rejectArgument _ _ _ _
  · exact .bind (.describe _ _) fun _ => .pure _
  · exact .bind (.printLine _ _ _) fun _ => .pure _
  · exact .pure _
  · exact .pure _
  · exact .throw _

/-- What a protected call answers. -/
theorem protect {x x' : Run (List Value)} (h : Uniform load load' x x') :
    Uniform load load'
      (do match ← Run.attempt x with
          | .ok answers => return .boolean true :: answers
          | .error v => return [.boolean false, v])
      (do match ← Run.attempt x' with
          | .ok answers => return .boolean true :: answers
          | .error v => return [.boolean false, v]) := by
  refine .bind (.attempt h) fun ending => ?_
  cases ending with
  | ok answers => exact .pure _
  | error v => exact .pure _

theorem call (room : Nat) (callers : List Caller) (f : Value) (arguments : List Value) :
    Uniform load load' (call load room callers f arguments)
      (Run.call load' room callers f arguments) := by
  -- A protected call runs on a level of its own, so the induction is on the levels left.
  induction room generalizing callers f arguments with
  | zero =>
      by_cases hf : f = .function .protect
      · subst hf
        unfold Run.call
        cases arguments with
        | nil => exact .rejectArgument _ _ _ _
        | cons g arguments => exact .protect (.throw _)
      · exact call_of_ne 0 callers hf arguments
  | succ room ih =>
      by_cases hf : f = .function .protect
      · subst hf
        unfold Run.call
        cases arguments with
        | nil => exact .rejectArgument _ _ _ _
        | cons g arguments => exact .protect (ih _ _ _)
      · exact call_of_ne (room + 1) callers hf arguments

/-! ### Expressions -/

section Activation

variable (a : Activation) (load' : Loader)

/-- The activation with another loader. -/
def withLoader (a : Activation) (load' : Loader) : Activation := { a with load := load' }

theorem activationComplain (line : Nat) (message : Bytes) :
    Uniform a.load load' (a.complain line message : Run α)
      ((withLoader a load').complain line message) :=
  .throw _

theorem reject (line : Nat) (action : String) (v : Value) (origin : Option Origin) :
    Uniform a.load load' (a.reject line action v origin : Run α)
      ((withLoader a load').reject line action v origin) :=
  .throw _

theorem look (line : Nat) (origin : Option Origin) (v k : Value) :
    Uniform a.load load' (a.look line origin v k) ((withLoader a load').look line origin v k) := by
  unfold Activation.look
  split
  · exact .getField _ _
  · exact .pure _
  · exact .reject a load' _ _ _ _

theorem checkKey (line : Nat) (k : Value) :
    Uniform a.load load' (a.checkKey line k) ((withLoader a load').checkKey line k) := by
  unfold Activation.checkKey
  split
  · exact .pure _
  · exact .activationComplain a load' _ _

theorem store (line : Nat) (origin : Option Origin) (w k v : Value) :
    Uniform a.load load' (a.store line origin w k v)
      ((withLoader a load').store line origin w k v) := by
  unfold Activation.store
  split
  · exact .bind (.checkKey a load' _ _) fun _ => .setField _ _ _
  · exact .reject a load' _ _ _ _

theorem activationCall (line : Nat) (origin : Option Origin) (f : Value)
    (arguments : List Value) :
    Uniform a.load load' (a.call line origin f arguments)
      ((withLoader a load').call line origin f arguments) := by
  unfold Activation.call
  split
  · refine .bind (.attempt (.call _ _ _ _)) fun ending => ?_
    cases ending with
    | ok answers => exact .pure _
    | error v => exact .throw _
  · exact .reject a load' _ _ _ _

theorem join (line : Nat) (operands : List (Value × Option Origin)) :
    Uniform a.load load' (a.join line operands) ((withLoader a load').join line operands) := by
  unfold Activation.join
  dsimp only
  split
  · exact .reject a load' _ _ _ _
  · exact .pure _

theorem lookUp (env : Locals) (n : String) :
    Uniform load load' (Activation.lookUp env n) (Activation.lookUp env n) := by
  unfold Activation.lookUp
  split
  · exact .pure _
  · exact .bind .get fun _ => .pure _

mutual

theorem eval (env : Locals) : ∀ e : Expr,
    Uniform a.load load' (Activation.eval a env e) (Activation.eval (withLoader a load') env e)
  | .literal v => by
      rw [Activation.eval, Activation.eval]
      exact .pure _
  | .name n => by
      rw [Activation.eval, Activation.eval]
      exact .bind (.lookUp load' env n) fun _ => .pure _
  | .index base key line => by
      rw [Activation.eval, Activation.eval]
      exact .bind (eval env base) fun _ => .bind (eval env key) fun _ =>
        .bind (.look a load' _ _ _ _) fun _ => .pure _
  | .call callee arguments line => by
      rw [Activation.eval, Activation.eval]
      exact .bind (eval env callee) fun _ => .bind (evalList env arguments) fun _ =>
        .activationCall a load' _ _ _ _
  | .single e => by
      rw [Activation.eval, Activation.eval]
      exact .bind (eval env e) fun _ => .pure _
  | .join operands line => by
      rw [Activation.eval, Activation.eval]
      exact .bind (evalEach env operands) fun _ => .bind (.join a load' _ _) fun _ => .pure _
  | .table fields => by
      rw [Activation.eval, Activation.eval]
      exact .bind (evalFields env .start fields) fun _ => .bind (.newTable _) fun _ => .pure _

theorem evalList (env : Locals) : ∀ es : List Expr,
    Uniform a.load load' (Activation.evalList a env es)
      (Activation.evalList (withLoader a load') env es)
  | [] => by
      rw [Activation.evalList, Activation.evalList]
      exact .pure _
  | e :: es => by
      rw [Activation.evalList, Activation.evalList]
      refine .bind (eval env e) fun vs => ?_
      split
      · exact .pure _
      · exact .bind (evalList env es) fun _ => .pure _

theorem evalEach (env : Locals) : ∀ es : List Expr,
    Uniform a.load load' (Activation.evalEach a env es)
      (Activation.evalEach (withLoader a load') env es)
  | [] => by
      rw [Activation.evalEach, Activation.evalEach]
      exact .pure _
  | e :: es => by
      rw [Activation.evalEach, Activation.evalEach]
      exact .bind (eval env e) fun _ => .bind (evalEach env es) fun _ => .pure _

theorem evalFields (env : Locals) (m : Making) : ∀ fields : List Field,
    Uniform a.load load' (Activation.evalFields a env m fields)
      (Activation.evalFields (withLoader a load') env m fields)
  | [] => by
      rw [Activation.evalFields, Activation.evalFields]
      exact .pure _
  | .item e :: fields => by
      rw [Activation.evalFields, Activation.evalFields]
      refine .bind (eval env e) fun vs => ?_
      split
      · exact .pure _
      · exact evalFields env _ fields
  | .keyed key value line :: fields => by
      rw [Activation.evalFields, Activation.evalFields]
      exact .bind (eval env key) fun _ => .bind (eval env value) fun _ =>
        .bind (.checkKey a load' _ _) fun _ => evalFields env _ fields

end

/-! ### Statements and texts -/

theorem slots (env : Locals) (targets : List Target) :
    Uniform a.load load' (Activation.slots a env targets)
      (Activation.slots (withLoader a load') env targets) := by
  induction targets with
  | nil => exact .pure _
  | cons target targets ih =>
      cases target with
      | name n => exact .bind ih fun _ => .pure _
      | field base key =>
          exact .bind (.eval a load' env base) fun _ => .bind (.eval a load' env key) fun _ =>
            .bind ih fun _ => .pure _

theorem assign (line : Nat) (env : Locals) (slots : List Activation.Slot) (vs : List Value) :
    Uniform a.load load' (a.assign line env slots vs)
      ((withLoader a load').assign line env slots vs) := by
  induction slots generalizing vs with
  | nil => exact .pure _
  | cons slot slots ih =>
      refine .bind (ih vs.tail) fun env => ?_
      cases slot with
      | name n =>
          dsimp only
          split
          · exact .pure _
          · exact .bind (.setGlobal _ _) fun _ => .pure _
      | field base origin key => exact .bind (.store a load' _ _ _ _ _) fun _ => .pure _

theorem exec (env : Locals) (statement : Statement) :
    Uniform a.load load' (a.exec env statement) ((withLoader a load').exec env statement) := by
  cases statement with
  | call e => exact .bind (.eval a load' env e) fun _ => .pure _
  | declare names values => exact .bind (.evalList a load' env values) fun _ => .pure _
  | assign targets values line =>
      exact .bind (.slots a load' env targets) fun _ =>
        .bind (.evalList a load' env values) fun _ => .assign a load' _ _ _ _

theorem execAll (env : Locals) (statements : List Statement) :
    Uniform a.load load' (a.execAll env statements)
      ((withLoader a load').execAll env statements) := by
  induction statements generalizing env with
  | nil => exact .pure _
  | cons statement statements ih => exact .bind (.exec a load' env statement) ih

theorem run (c : Chunk) : Uniform a.load load' (a.run c) ((withLoader a load').run c) :=
  .bind (.execAll a load' [] c.statements) fun env => .evalList a load' env c.answers

end Activation

end Uniform

/-- The evaluation of a text goes on alike with any two loaders. -/
theorem uniform_evaluate (load load' : Loader) (room : Nat) (callers : List Caller)
    (chunk : Bytes) (source : String) :
    Uniform load load' (evaluate load room callers chunk source)
      (evaluate load' room callers chunk source) := by
  unfold evaluate
  split
  · exact .run ⟨chunk, callers, load, _⟩ load' _
  · exact .throw _
  · exact .throw _
  · exact .fault _

/-! ### What scripts keep -/

/-- A property of sessions that the operations of scripts keep. -/
structure Kept (I : Session → Prop) : Prop where
  logged : ∀ {s} events, I s → I (s.logged events)
  counted : ∀ {s}, I s → I s.counted
  spending : ∀ {s} n, I s → I (s.spending n)
  written : ∀ {s} bytes, I s → I { s with printed := s.printed ++ bytes }
  newTable : ∀ {s} t, I s → I { s with heap := (s.heap.alloc t).1 }
  setField : ∀ {s} r k v, I s → I { s with heap := s.heap.set r ((s.heap.get r).set k v) }
  setGlobal : ∀ {s} n v, I s → I { s with globals := s.globals.set (.text n) v }
  declare : ∀ {s} kind spec registry, ¬isBlank spec.name →
    s.registry.declare kind spec = .ok registry → I s → I { s with registry }

variable {I : Session → Prop}

theorem Kept.halted (hI : Kept I) {s : Session} (hs : I s) (i : Interruption) :
    I (s.halted i : Except Value α × Session).2 := by
  cases i with
  | fault f => exact hI.counted hs
  | panic => exact hI.counted hs
  | resumed n => exact hI.counted (hI.spending n hs)

theorem Kept.outcome_declare (hI : Kept I) {s : Session} (hs : I s) (kind : Kind)
    (arguments : List Value) : I ((Run.declare kind arguments).outcome s).2 := by
  rw [Run.outcome_declare]
  split
  · exact hI.halted hs _
  next spec hspec =>
    dsimp only
    split
    next registry hregistry =>
      have hname : ¬isBlank spec.name := Specification.not_isBlank_of_read hspec
      exact hI.declare kind spec registry hname hregistry (hI.logged _ hs)
    · exact hI.counted (hI.logged _ hs)

/-- Where two loaders answer alike and keep what the operations of scripts keep, runs that go on
alike end alike and keep it too. -/
theorem Uniform.outcome_eq (hI : Kept I)
    (hload : ∀ room callers path s, I s →
      (load room callers path).outcome s = (load' room callers path).outcome s ∧
        I ((load room callers path).outcome s).2)
    {x x' : Run α} (h : Uniform load load' x x') {s : Session} (hs : I s) :
    x.outcome s = x'.outcome s ∧ I (x.outcome s).2 := by
  induction h generalizing s with
  | pure a => exact ⟨rfl, hs⟩
  | throw v => exact ⟨rfl, hs⟩
  | get => exact ⟨rfl, hs⟩
  | serial => exact ⟨rfl, hI.counted hs⟩
  | spend n => exact ⟨rfl, hI.spending n hs⟩
  | write bytes => exact ⟨rfl, hI.written bytes hs⟩
  | newTable t => exact ⟨rfl, hI.newTable t hs⟩
  | setField r k v => exact ⟨rfl, hI.setField r k v hs⟩
  | setGlobal n v => exact ⟨rfl, hI.setGlobal n v hs⟩
  | declare kind arguments => exact ⟨rfl, hI.outcome_declare hs kind arguments⟩
  | load room callers path => exact hload room callers path s hs
  | attempt hx ih =>
      obtain ⟨heq, hkept⟩ := ih hs
      rw [outcome_attempt, outcome_attempt, ← heq]
      exact ⟨rfl, hkept⟩
  | @bind _ _ x x' f f' hx hf ihx ihf =>
      obtain ⟨heq, hkept⟩ := ihx hs
      rw [outcome_bind, outcome_bind, ← heq]
      rcases hxs : x.outcome s with ⟨a | v, t⟩
      · rw [hxs] at hkept
        exact ⟨rfl, hkept⟩
      · rw [hxs] at hkept
        exact ihf v hkept

/-- A run that does what scripts can do, the files being loaded at a depth. -/
abbrev Scripted (w : Workspace) (depth : Nat) {α : Type} (x : Run α) : Prop :=
  Uniform (loadFile w depth) (loadFile w depth) x x

/-- A property of sessions that opening and closing a file keeps, too. -/
structure Lasting (w : Workspace) (I : Session → Prop) : Prop extends Kept I where
  opened : ∀ {s path l text r directory}, s.opening w path = .ok (l, text, r, directory) → I s →
    I (s.opened path l r)
  closed : ∀ {s} l r directory, I s → I (s.closed l r directory)

namespace Lasting

variable {w : Workspace} (hI : Lasting w I)

include hI

theorem close (l : Location) (r : Ref) (directory : Value)
    {e : Except Value (List Value) × Session} (he : I e.2) :
    I (Session.close l r directory (Session.finished e)).2 := by
  obtain ⟨n, hfinished⟩ | ⟨v, hfinished⟩ | ⟨f, hfinished⟩ := Session.finished_cases e
  · rw [hfinished]
    exact hI.counted (hI.spending n he)
  · rw [hfinished]
    exact hI.closed l r directory he
  · rw [hfinished]
    exact hI.closed l r directory (hI.counted he)

theorem scripted_of_loader {load : Loader} {x : Run α} (hx : Uniform load load x x)
    (hload : ∀ room callers path s, I s → I ((load room callers path).outcome s).2)
    {s : Session} (hs : I s) : I (x.outcome s).2 :=
  (Uniform.outcome_eq hI.toKept (fun room callers path s hs => ⟨rfl, hload room callers path s hs⟩)
    hx hs).2

theorem loadFile (depth room : Nat) (callers : List Caller) (path : String) (s : Session)
    (hs : I s) : I ((loadFile w depth room callers path).outcome s).2 := by
  have hfile : ∀ depth room callers path s, I s →
      (∀ l text s, I s → I ((evaluateFileText w depth room callers l text).outcome s).2) →
      I ((Run.loadFile w depth room callers path).outcome s).2 := by
    intro depth room callers path s hs htext
    cases hopening : s.opening w path with
    | error i =>
        obtain ⟨events, houtcome⟩ := outcome_loadFile_of_error hopening
        rw [houtcome depth room callers]
        exact hI.halted (hI.logged events hs) i
    | ok found =>
        obtain ⟨l, text, r, directory⟩ := found
        rw [outcome_loadFile_of_ok hopening depth room callers]
        exact hI.close l r directory (htext l text _ (hI.opened hopening hs))
  induction depth generalizing room callers path s with
  | zero => exact hfile 0 room callers path s hs fun _ _ _ hs => hs
  | succ depth ih =>
      refine hfile (depth + 1) room callers path s hs fun l text s hs => ?_
      exact hI.scripted_of_loader (uniform_evaluate _ _ room callers (fileChunkName l) text) ih hs

/-- What scripts and the loads of files keep is kept by whatever does what scripts can do. -/
theorem scripted {depth : Nat} {x : Run α} (hx : Scripted w depth x) {s : Session} (hs : I s) :
    I (x.outcome s).2 :=
  hI.scripted_of_loader hx (hI.loadFile depth) hs

end Lasting

end Run

end BuildPlan
