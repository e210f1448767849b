import Mathlib.Data.List.Forall2
import BuildPlan.Proofs.Declarative.Item
import BuildPlan.Proofs.Session.Outcome
import BuildPlan.Proofs.Table

/-! # Evaluating declarations

The arguments of a declaration are written out, so evaluating them changes nothing but the heap,
which gets new tables (`Heap.Grows`), and what the declaration function then reads from these is
what the text says (`Specification.read_of_holds`). -/

namespace BuildPlan

/-! ### Heaps that grow -/

/-- The second heap has all tables of the first one, and maybe more. -/
structure Heap.Grows (h h' : Heap) : Prop where
  size : h.tables.size ≤ h'.tables.size
  get : ∀ r : Ref, r.index < h.tables.size → h'.get r = h.get r

namespace Heap.Grows

variable {h h' h'' : Heap}

theorem refl (h : Heap) : h.Grows h := ⟨Nat.le_refl _, fun _ _ => rfl⟩

theorem trans (hh' : h.Grows h') (hh'' : h'.Grows h'') : h.Grows h'' where
  size := Nat.le_trans hh'.size hh''.size
  get r hr := by
    rw [hh''.get r (Nat.lt_of_lt_of_le hr hh'.size), hh'.get r hr]

theorem alloc (h : Heap) (t : Table) : h.Grows (h.alloc t).1 where
  size := by simp [Heap.alloc]
  get r hr := by
    have hne : r.index ≠ h.tables.size := Nat.ne_of_lt hr
    simp [Heap.get, Heap.alloc, Array.getElem?_push, hne]

end Heap.Grows

theorem Heap.get_alloc (h : Heap) (t : Table) : (h.alloc t).1.get (h.alloc t).2 = t := by
  simp [Heap.get, Heap.alloc]

/-! ### Values that say what is written -/

/-- A string value with the bytes of a text. -/
def Value.Says (v : Value) (s : String) : Prop :=
  ∃ bytes, v = .string bytes ∧ Utf8.decode bytes = .ok s

theorem Value.Says.toText {v : Value} {s : String} (h : v.Says s) : v.toText = .ok s := by
  obtain ⟨bytes, rfl, hbytes⟩ := h
  simp [Value.toText, Value.bytes?, hbytes, Except.mapError]

theorem Value.Says.ne_nil {v : Value} {s : String} (h : v.Says s) : v ≠ .nil := by
  obtain ⟨bytes, rfl, -⟩ := h
  exact Value.noConfusion

/-- A value in a heap is what is written: a string, or a table with strings. -/
def Literal.Is (h : Heap) : Literal → Value → Prop
  | .text s, v => v.Says s
  | .list ss, v => ∃ r : Ref, v = .table r ∧ r.index < h.tables.size ∧ (h.get r).Tight ∧
      List.Forall₂ Value.Says (h.get r).sequence ss

theorem Literal.Is.of_grows {h h' : Heap} {lit : Literal} {v : Value} (hv : lit.Is h v)
    (hh' : h.Grows h') : lit.Is h' v := by
  cases lit with
  | text s => exact hv
  | list ss =>
      obtain ⟨r, rfl, hr, htight, hsequence⟩ := hv
      have hget := hh'.get r hr
      exact ⟨r, rfl, Nat.lt_of_lt_of_le hr hh'.size, hget ▸ htight, hget ▸ hsequence⟩

/-- The fields of a table are what is written. -/
def Table.Holds (h : Heap) (t : Table) (entries : List (Bytes × Literal)) : Prop :=
  ∀ key, match entries.reverse.lookup key with
    | some lit => lit.Is h (t.get (.string key))
    | none => t.get (.string key) = .nil

namespace Table.Holds

variable {h h' : Heap} {t : Table} {entries : List (Bytes × Literal)}

theorem empty (h : Heap) : Table.empty.Holds h [] := fun _ => rfl

theorem of_grows (ht : t.Holds h entries) (hh' : h.Grows h') : t.Holds h' entries := by
  intro key
  have hkey := ht key
  split
  next lit hlit =>
    rw [hlit] at hkey
    exact Literal.Is.of_grows hkey hh'
  next hnone =>
    rw [hnone] at hkey
    exact hkey

theorem set (ht : t.Holds h entries) (key : Bytes) {lit : Literal} {v : Value} (hv : lit.Is h v) :
    (t.set (.string key) v).Holds h (entries ++ [(key, lit)]) := by
  intro other
  rw [List.reverse_append, List.reverse_singleton, List.singleton_append, List.lookup_cons]
  by_cases hother : other = key
  · subst hother
    rw [beq_self_eq_true]
    dsimp only
    rw [Table.get_set_self]
    exact hv
  · rw [beq_eq_false_iff_ne.2 hother]
    dsimp only
    have hne : (Value.string other).key ≠ (Value.string key).key :=
      fun h => hother (Value.string.inj h)
    rw [Table.get_set_of_ne t v hne]
    exact ht other

end Table.Holds

/-! ### Reading what was evaluated -/

namespace Specification

variable {kind : Kind} {s : Session} {r : Ref}

theorem readEntries_eq_ok {target : String} {vs : List Value} {ss : List String}
    (h : List.Forall₂ Value.Says vs ss) : readEntries kind target s vs = .ok ss := by
  induction h with
  | nil => rfl
  | cons hv _ ih =>
      obtain ⟨bytes, rfl, hbytes⟩ := hv
      simp only [readEntries, Session.take, hbytes, ih]
      rfl

/-- There is room for the names in a table that has nothing behind them. -/
theorem hasRoom_of_tight (h : (s.heap.get r).Tight) : HasRoom s r :=
  Nat.le_trans (h _ (s.machine.isBorder_length _ _ _)) (Nat.le_max_right _ _)

theorem readName_eq_ok {t : Table} {name : String} (h : (t.get (.text "name")).Says name)
    (hblank : ¬isBlank name) : readName kind s t = .ok name := by
  obtain ⟨bytes, hbytes, hdecode⟩ := h
  have htext : (Value.string bytes).toText = .ok name := Value.Says.toText ⟨bytes, rfl, hdecode⟩
  simp only [readName, hbytes, Session.take, htext, if_neg hblank]

theorem read_eq_ok {name : String} {requirements : List String}
    (hname : readName kind s (s.heap.get r) = .ok name)
    (hrequirements : readRequirements kind name s (s.heap.get r) = .ok requirements)
    (more : List Value) : read kind s (.table r :: more) = .ok ⟨name, requirements⟩ := by
  unfold read
  rw [List.headD_cons, Session.takeTable_eq_ok_iff.2 rfl]
  simp only [bind, Except.bind, hname, hrequirements, pure, Except.pure]

/-- A declaration function reads from a table what the text says. -/
theorem read_of_holds {entries : List (Bytes × Literal)} {spec : Specification}
    (ht : (s.heap.get r).Holds s.heap entries) (h : ofEntries? kind entries = some spec) :
    read kind s [.table r] = .ok spec := by
  have hname := ht (Utf8.encode "name")
  have hlist := ht (Utf8.encode kind.field)
  unfold ofEntries? at h
  split at h
  next name requirements hname' hlist' =>
    rw [hname'] at hname
    rw [hlist'] at hlist
    split at h
    · cases h
    next hblank =>
      cases h
      obtain ⟨r', hr', -, htight, hsequence⟩ := hlist
      change (s.heap.get r).get (.text kind.field) = .table r' at hr'
      refine read_eq_ok (readName_eq_ok hname hblank) ?_ []
      simp only [readRequirements, hr', Session.take, readList,
        if_pos (hasRoom_of_tight htight), readEntries_eq_ok hsequence]
  next name hname' hlist' =>
    rw [hname'] at hname
    rw [hlist'] at hlist
    split at h
    next hproject =>
      obtain ⟨rfl, hblank⟩ := hproject
      cases h
      change (s.heap.get r).get (.text Kind.project.field) = .nil at hlist
      refine read_eq_ok (readName_eq_ok hname hblank) ?_ []
      simp only [readRequirements, hlist, Session.take]
    · cases h
  · cases h

end Specification

/-! ### Evaluating what is written -/

namespace Activation

open Run

variable (a : Activation) (env : Locals)

theorem eval_of_bytes? {e : Expr} {bytes : Bytes} (h : e.bytes? = some bytes) (s : Session) :
    (eval a env e).outcome s = (.ok [.string bytes], s) := by
  unfold Expr.bytes? at h
  split at h
  · cases h
    rw [eval]
    exact outcome_pure _
  · cases h

theorem eval_of_text? {e : Expr} {text : String} (h : e.text? = some text) :
    ∃ v : Value, v.Says text ∧ ∀ s, (eval a env e).outcome s = (.ok [v], s) := by
  unfold Expr.text? at h
  obtain ⟨bytes, hbytes, hdecode⟩ := Option.bind_eq_some_iff.1 h
  refine ⟨.string bytes, ⟨bytes, rfl, ?_⟩, eval_of_bytes? a env hbytes⟩
  cases hd : Utf8.decode bytes with
  | error e =>
      rw [hd] at hdecode
      cases hdecode
  | ok s =>
      rw [hd] at hdecode
      cases hdecode
      rfl

/-- The texts of a list are stored as the items of a table. -/
theorem evalFields_of_texts {fields : List Field} {texts : List String}
    (h : fields.mapM Field.text? = some texts) {m : Making} {vs : List Value} (hm : m.Holds vs) :
    ∃ ws : List Value, List.Forall₂ Value.Says ws texts ∧
      ∀ s, (evalFields a env m fields).outcome s = (.ok (Table.empty.setFrom 1 (vs ++ ws)), s) := by
  induction fields generalizing m vs texts with
  | nil =>
      cases h
      refine ⟨[], .nil, fun s => ?_⟩
      rw [evalFields, List.append_nil, hm.table_flush]
      exact outcome_pure _
  | cons field fields ih =>
      obtain ⟨text, texts', htext, hrest, rfl⟩ := mapM_cons_eq_some h
      cases field with
      | keyed key value line => cases htext
      | item e =>
          obtain ⟨v, hv, heval⟩ := eval_of_text? a env htext
          have hadd : (m.prepare.add [v]).Holds (vs ++ [v]) := hm.prepare.add [v]
          obtain ⟨ws, hws, hfields⟩ := ih hrest hadd
          refine ⟨v :: ws, .cons hv hws, fun s => ?_⟩
          rw [evalFields, outcome_bind_of_ok (heval s), List.append_cons]
          cases fields with
          | nil =>
              have hdone := hfields s
              rw [evalFields] at hdone
              rw [if_pos List.isEmpty_nil]
              exact hdone
          | cons next fields => exact hfields s

theorem nil_not_mem_of_texts {vs : List Value} {texts : List String}
    (h : List.Forall₂ Value.Says vs texts) : Value.nil ∉ vs := by
  induction h with
  | nil => exact List.not_mem_nil
  | cons hv _ ih =>
      intro hmem
      rcases List.mem_cons.1 hmem with hnil | hmem
      · exact hv.ne_nil hnil.symm
      · exact ih hmem

/-- What is written out evaluates to itself; a list becomes a new table. -/
theorem eval_of_constant? {e : Expr} {lit : Literal} (h : e.constant? = some lit) (s : Session) :
    ∃ v heap, (eval a env e).outcome s = (.ok [v], { s with heap }) ∧ s.heap.Grows heap ∧
      lit.Is heap v := by
  unfold Expr.constant? at h
  split at h
  next fields =>
    obtain ⟨texts, htexts, rfl⟩ := Option.map_eq_some_iff.1 h
    obtain ⟨ws, hws, hfields⟩ := evalFields_of_texts a env htexts Making.holds_start
    have hnil := nil_not_mem_of_texts hws
    refine ⟨.table (s.heap.alloc (Table.empty.setFrom 1 ws)).2, _, ?_,
      Heap.Grows.alloc s.heap (Table.empty.setFrom 1 ws), _, rfl, ?_, ?_, ?_⟩
    · rw [eval, outcome_bind_of_ok (hfields s), outcome_bind_of_ok (outcome_newTable _)]
      exact outcome_pure _
    · simp [Heap.alloc]
    · rw [Heap.get_alloc]
      exact Table.tight_setFrom hnil
    · rw [Heap.get_alloc, Table.sequence_setFrom hnil]
      exact hws
  · obtain ⟨text, htext, rfl⟩ := Option.map_eq_some_iff.1 h
    obtain ⟨v, hv, heval⟩ := eval_of_text? a env htext
    exact ⟨v, s.heap, heval s, .refl _, hv⟩

/-- The fields of a declaration become the fields of a table. -/
theorem evalFields_of_entries {fields : List Field} {entries : List (Bytes × Literal)}
    (h : fields.mapM Field.entry? = some entries) {m : Making}
    {before : List (Bytes × Literal)} (hpending : m.pending = []) (s : Session)
    (hm : m.table.Holds s.heap before) :
    ∃ t heap, (evalFields a env m fields).outcome s = (.ok t, { s with heap }) ∧
      s.heap.Grows heap ∧ t.Holds heap (before ++ entries) := by
  induction fields generalizing m before entries s with
  | nil =>
      obtain rfl : [] = entries := Option.some.inj h
      refine ⟨m.table, s.heap, ?_, .refl _, by rwa [List.append_nil]⟩
      have hflush : m.flush.table = m.table := by simp [Making.flush, hpending, Table.setFrom]
      rw [evalFields, hflush]
      exact outcome_pure _
  | cons field fields ih =>
      obtain ⟨entry, entries', hentry, hrest, rfl⟩ := mapM_cons_eq_some h
      cases field with
      | item e => cases hentry
      | keyed key value line =>
          obtain ⟨bytes, hbytes, hentry⟩ := Option.bind_eq_some_iff.1 hentry
          obtain ⟨lit, hlit, hentry⟩ := Option.bind_eq_some_iff.1 hentry
          cases hentry
          have hprepare : m.prepare = m := by simp [Making.prepare, hpending, Making.batch]
          obtain ⟨v, heap, hvalue, hgrows, hv⟩ :=
            eval_of_constant? a env hlit s
          obtain ⟨t, heap', hfields, hgrows', ht⟩ :=
            ih hrest (m := { m with table := m.table.set (.string bytes) v }) hpending
              { s with heap } ((hm.of_grows hgrows).set bytes hv)
          refine ⟨t, heap', ?_, hgrows.trans hgrows', ?_⟩
          · rw [evalFields, hprepare, outcome_bind_of_ok (eval_of_bytes? a env hbytes _),
              outcome_bind_of_ok hvalue]
            exact hfields
          · rwa [List.append_assoc] at ht

/-- The table that a declaration function is given says what the text says. -/
theorem eval_of_declaration? {kind : Kind} {e : Expr} {item : Item}
    (h : e.declaration? kind = some item) (s : Session) :
    ∃ r heap spec, item = .declaration kind spec ∧
      (eval a env e).outcome s = (.ok [.table r], { s with heap }) ∧ s.heap.Grows heap ∧
        Specification.read kind { s with heap } [.table r] = .ok spec := by
  unfold Expr.declaration? at h
  split at h
  next fields =>
    obtain ⟨entries, hentries, h⟩ := Option.bind_eq_some_iff.1 h
    obtain ⟨spec, hspec, h⟩ := Option.bind_eq_some_iff.1 h
    cases h
    obtain ⟨t, heap, hfields, hgrows, ht⟩ := evalFields_of_entries a env hentries
      (m := .start) rfl s (Table.Holds.empty s.heap)
    have halloc : heap.Grows (heap.alloc t).1 := Heap.Grows.alloc heap t
    refine ⟨(heap.alloc t).2, (heap.alloc t).1, spec, rfl, ?_, hgrows.trans halloc, ?_⟩
    · rw [eval, outcome_bind_of_ok hfields, outcome_bind_of_ok (outcome_newTable _)]
      exact outcome_pure _
    · refine Specification.read_of_holds ?_ hspec
      rw [Heap.get_alloc]
      exact ht.of_grows halloc
  · cases h

end Activation

/-! ### Calls -/

/-- The function that declares targets of a kind. -/
def Kind.builtin : Kind → Builtin
  | .project => .project
  | .composite => .compositeTarget

namespace Activation

open Run

variable {a : Activation} {s : Session}

theorem outcome_lookUp_global {n : String} {v : Value} (h : s.globals.get (.text n) = v) :
    (lookUp [] n).outcome s = (.ok v, s) := by
  subst h
  rfl

/-- On the last level there is no room for what a function raises, so nothing is known of it. -/
theorem outcome_call (line : Nat) (origin : Option Origin) (f : Builtin) (arguments : List Value) :
    (a.call line origin (.function f) arguments).outcome s =
      match (Run.call a.load a.room (a.callersAt line origin) (.function f) arguments).outcome s
      with
      | (.ok answers, t) => (.ok answers, t)
      | (.error v, t) => (.error (if a.room = 0 then exhausted else v), t) := by
  unfold call
  rw [outcome_bind_of_ok (outcome_attempt _)]
  rcases (Run.call a.load a.room (a.callersAt line origin) (.function f) arguments).outcome s with
    ⟨v | answers, t⟩
  · rfl
  · rfl

/-- A call of a global function evaluates its argument, then the function. -/
theorem outcome_eval_call {n : String} {f : Builtin} {e : Expr} {v : Value} {t : Session}
    (hf : s.globals.get (.text n) = .function f) (he : (eval a [] e).outcome s = (.ok [v], t))
    (line : Nat) :
    (eval a [] (.call (.name n) [e] line)).outcome s =
      (a.call line ((Expr.name n).origin []) (.function f) [v]).outcome t := by
  have hname : (eval a [] (.name n)).outcome s = (.ok [.function f], s) := by
    rw [eval, outcome_bind_of_ok (outcome_lookUp_global hf)]
    exact outcome_pure _
  have hargument : (evalList a [] [e]).outcome s = (.ok [v], t) := by
    rw [evalList, outcome_bind_of_ok he]
    exact outcome_pure _
  rw [eval, outcome_bind_of_ok hname, outcome_bind_of_ok hargument]
  rfl

/-- A function that declares targets reads its arguments and then declares what they specify. -/
theorem outcome_call_of_kind (load : Loader) (room : Nat) (callers : List Caller) (kind : Kind)
    (arguments : List Value) :
    (Run.call load room callers (.function kind.builtin) arguments).outcome s =
      match Session.called ((Run.declare kind arguments).outcome s) with
      | (.ok _, t) => (.ok [], t)
      | (.error v, t) => (.error v, t) := by
  have hdeclare : (Run.call load room callers (.function kind.builtin) arguments).outcome s =
      (do callback (Run.declare kind arguments); Pure.pure [] : Run (List Value)).outcome s := by
    cases kind <;> rw [Kind.builtin, Run.call]
  rw [hdeclare, outcome_bind, outcome_callback]
  rcases Session.called ((Run.declare kind arguments).outcome s) with ⟨v | a, t⟩
  · rfl
  · rfl

/-- A function that declares targets, given a table that specifies one. -/
theorem outcome_call_builtin {kind : Kind} {arguments : List Value} {spec : Specification}
    (hread : Specification.read kind s arguments = .ok spec) (load : Loader) (room : Nat)
    (callers : List Caller) :
    (Run.call load room callers (.function kind.builtin) arguments).outcome s =
      let t := s.logged (s.registry.declareEvents kind spec)
      match s.registry.declare kind spec with
      | .ok registry => (.ok [], { t with registry })
      | .error e =>
          (.error (.fault t.counted.made (.callback (.plan e))), t.counted.counted) := by
  rw [outcome_call_of_kind, outcome_declare, hread]
  dsimp only
  cases s.registry.declare kind spec with
  | ok registry => rfl
  | error e => rfl

end Activation

end BuildPlan
