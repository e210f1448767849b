import BuildPlan.Proofs.Script.Reader

/-! # What a text can spell

The constants of a chunk are those that its text spells: nil, booleans, numbers and strings.
Faults and panics are made by runs alone, so no text has one in it (`Chunk.plain_of_ofText`).

The tokens of a text spell none (`Token.plain_ofText`), and readers take the constants of what they
read from the tokens: `Reader.Keeps` says that of a reader, with one lemma for each. -/

namespace BuildPlan

/-- A value that a text can spell: any but a fault or a panic. -/
def Value.Plain : Value → Prop
  | .fault _ _ | .panic _ => False
  | _ => True

/-! ### Tokens -/

/-- A token that spells no fault and no panic. -/
def Lexeme.Plain : Lexeme → Prop
  | .literal v => v.Plain
  | _ => True

namespace Numeral

theorem plain_of_value? {cs : List Char} {v : Value} (h : value? cs = some v) : v.Plain := by
  unfold value? at h
  split at h
  · obtain ⟨p, -, rfl⟩ := Option.map_eq_some_iff.1 h
    split <;> trivial
  · obtain ⟨p, -, rfl⟩ := Option.map_eq_some_iff.1 h
    split <;> trivial
  · obtain ⟨p, -, rfl⟩ := Option.map_eq_some_iff.1 h
    split <;> trivial

theorem plain_of_read? {cs rest : List Char} {v : Value} (h : read? cs = some (v, rest)) :
    v.Plain := by
  have hvalue : ∀ taken after, (value? taken).map (·, after) = some (v, rest) → v.Plain := by
    intro taken after hmap
    obtain ⟨u, hu, huv⟩ := Option.map_eq_some_iff.1 hmap
    cases huv
    exact plain_of_value? hu
  unfold read? at h
  dsimp only at h
  split at h
  · split at h
    · cases h
    · exact hvalue _ _ h
  · exact hvalue _ _ h

theorem plain_of_negate? {v v' : Value} (h : negate? v = some v') : v'.Plain := by
  unfold negate? at h
  split at h <;> cases h <;> trivial

end Numeral

namespace Token

theorem plain_ofWord (word : String) : (Lexeme.ofWord word).Plain := by
  have hwords : ∀ p ∈ Lexeme.words, p.2.Plain := by
    simp [Lexeme.words, Lexeme.Plain, Value.Plain]
  unfold Lexeme.ofWord
  split
  next lexeme hlookup =>
    obtain ⟨before, after, heq, -⟩ := List.lookup_eq_some_iff.1 hlookup
    exact hwords (word, lexeme) (heq ▸ List.mem_append_right before List.mem_cons_self)
  · split <;> trivial

theorem plain_of_number? {cs rest : List Char} {lexeme : Lexeme} {count : Nat}
    (h : number? cs = some (.token lexeme count rest)) : lexeme.Plain := by
  obtain ⟨⟨v, after⟩, hread, heq⟩ := Option.map_eq_some_iff.1 h
  cases heq
  exact Numeral.plain_of_read? hread

theorem plain_of_bracket? {cs rest : List Char} {lexeme : Lexeme} {count : Nat}
    (h : bracket? cs = some (.token lexeme count rest)) : lexeme.Plain := by
  unfold bracket? at h
  split at h
  · obtain ⟨⟨content, after⟩, -, heq⟩ := Option.map_eq_some_iff.1 h
    cases heq
    trivial
  · split at h
    · cases h
    · cases h
      trivial

theorem plain_of_comment? {cs rest : List Char} {lexeme : Lexeme} {count : Nat}
    (h : comment? cs = some (.token lexeme count rest)) : lexeme.Plain := by
  unfold comment? at h
  split at h
  · obtain ⟨⟨content, after⟩, -, heq⟩ := Option.map_eq_some_iff.1 h
    cases heq
  · cases h

theorem plain_of_item? {steps count : Nat} {c : Char} {cs rest : List Char} {lexeme : Lexeme}
    (h : item? steps c cs = some (.token lexeme count rest)) : lexeme.Plain := by
  unfold item? at h
  split at h
  · cases h
  · split at h
    · cases h
      exact plain_ofWord _
    · split at h
      · exact plain_of_number? h
      · split at h
        · obtain ⟨⟨bytes, more, after⟩, -, heq⟩ := Option.map_eq_some_iff.1 h
          cases heq
          trivial
        · split at h
          · exact plain_of_comment? h
          · exact plain_of_bracket? h
          · cases h
            trivial
          · cases h
            trivial
          · cases h
            trivial
          · split at h
            · exact plain_of_number? h
            · cases h
              trivial
          · cases h
            trivial

theorem plain_readAll (steps line : Nat) (before : List Token) (cs : List Char)
    (hbefore : ∀ t ∈ before, t.lexeme.Plain) :
    ∀ t ∈ readAll steps line before cs, t.lexeme.Plain := by
  have hlast : ∀ (m : Sign) line (before : List Token), (∀ t ∈ before, t.lexeme.Plain) →
      ∀ t ∈ ((⟨.sign m, line⟩ : Token) :: before).reverse, t.lexeme.Plain := by
    intro m line before hbefore t ht
    rcases List.mem_cons.1 (List.mem_reverse.1 ht) with rfl | ht
    · trivial
    · exact hbefore t ht
  induction steps generalizing line before cs with
  | zero =>
      cases cs with
      | nil => exact hlast _ _ _ hbefore
      | cons c cs => exact hlast _ _ _ hbefore
  | succ steps ih =>
      cases cs with
      | nil => exact hlast _ _ _ hbefore
      | cons c cs =>
          unfold readAll
          split
          · exact hlast _ _ _ hbefore
          · exact ih _ _ _ hbefore
          next lexeme count rest hitem =>
            refine ih _ _ _ fun t ht => ?_
            rcases List.mem_cons.1 ht with rfl | ht
            · exact plain_of_item? hitem
            · exact hbefore t ht

/-- The tokens of a text spell no fault. -/
theorem plain_ofText (source : String) : ∀ t ∈ ofText source, t.lexeme.Plain :=
  plain_readAll _ _ [] _ (by simp)

end Token

/-! ### Expressions -/

mutual

/-- An expression whose constants a text can spell. -/
inductive Expr.Plain : Expr → Prop
  | literal {v : Value} : v.Plain → Expr.Plain (.literal v)
  | name (n : String) : Expr.Plain (.name n)
  | index {base key : Expr} (line : Nat) :
      base.Plain → key.Plain → Expr.Plain (.index base key line)
  | call {callee : Expr} {arguments : List Expr} (line : Nat) :
      callee.Plain → (∀ e ∈ arguments, e.Plain) → Expr.Plain (.call callee arguments line)
  | single {e : Expr} : e.Plain → Expr.Plain (.single e)
  | join {operands : List Expr} (line : Nat) :
      (∀ e ∈ operands, e.Plain) → Expr.Plain (.join operands line)
  | table {fields : List Field} : (∀ f ∈ fields, f.Plain) → Expr.Plain (.table fields)

/-- A field whose constants a text can spell. -/
inductive Field.Plain : Field → Prop
  | item {e : Expr} : e.Plain → Field.Plain (.item e)
  | keyed {key value : Expr} (line : Nat) :
      key.Plain → value.Plain → Field.Plain (.keyed key value line)

end

/-- A target whose constants a text can spell. -/
def Target.Plain : Target → Prop
  | .name _ => True
  | .field base key => base.Plain ∧ key.Plain

/-- A statement whose constants a text can spell. -/
def Statement.Plain : Statement → Prop
  | .call e => e.Plain
  | .declare _ es => ∀ e ∈ es, e.Plain
  | .assign targets es _ => (∀ t ∈ targets, t.Plain) ∧ ∀ e ∈ es, e.Plain

/-- A chunk whose constants a text can spell. -/
structure Chunk.Plain (c : Chunk) : Prop where
  statements : ∀ s ∈ c.statements, s.Plain
  answers : ∀ e ∈ c.answers, e.Plain

namespace Expr.Plain

variable {e e' : Expr} {line : Nat}

theorem onLine (h : e.Plain) (line : Nat) : (e.onLine line).Plain := by
  cases h with
  | index _ hbase hkey => exact .index line hbase hkey
  | literal h => exact .literal h
  | name n => exact .name n
  | call line hcallee harguments => exact .call line hcallee harguments
  | single h => exact .single h
  | join line h => exact .join line h
  | table h => exact .table h

theorem enclosed (h : e.Plain) : e.enclosed.Plain := by
  unfold Expr.enclosed
  split
  · exact .single h
  · exact .single h
  · exact .single h
  · exact h

theorem joined (h : e.Plain) (h' : e'.Plain) (line : Nat) : (e.joined e' line).Plain := by
  unfold Expr.joined
  split
  · cases h' with
    | join _ hoperands => exact .join _ (List.forall_mem_cons.2 ⟨h, hoperands⟩)
  · exact .join _ (List.forall_mem_cons.2 ⟨h, List.forall_mem_singleton.2 h'⟩)

theorem target? {target : Target} (h : e.Plain) (htarget : e.target? = some target) :
    target.Plain := by
  cases h with
  | name n =>
      cases htarget
      trivial
  | index line hbase hkey =>
      cases htarget
      exact ⟨hbase, hkey⟩
  | literal h => cases htarget
  | call line hcallee harguments => cases htarget
  | single h => cases htarget
  | join line h => cases htarget
  | table h => cases htarget

end Expr.Plain

/-- An operand whose constants a text can spell. -/
def Operand.Plain (o : Operand) : Prop := o.expr.Plain

/-- A reading of tokens that spell no fault. -/
def Reading.Plain (s : Reading) : Prop := ∀ t ∈ s.tokens, t.lexeme.Plain

/-! ### Readers -/

namespace Reader

variable {α β : Type} {x : Reader α} {f : α → Reader β} {P P' : α → Prop} {Q : β → Prop}

/-- Where the tokens spell no fault, all answers have a property, and the tokens that are left
spell none either. -/
def Keeps (x : Reader α) (P : α → Prop) : Prop :=
  ∀ s a t, s.Plain → x.run s = .ok (a, t) → t.Plain ∧ P a

namespace Keeps

theorem pure {a : α} (h : P a) : Keeps (pure a) P := by
  intro s b t hs hb
  cases hb
  exact ⟨hs, h⟩

theorem refuse (r : Refusal) : Keeps (refuse r) P := by
  intro s a t _ h
  cases h

theorem bind (hx : x.Keeps P) (hf : ∀ a, P a → (f a).Keeps Q) : (x >>= f).Keeps Q := by
  intro s b t hs h
  obtain ⟨a, u, ha, hb⟩ := run_bind_eq_ok.1 h
  obtain ⟨hu, hP⟩ := hx s a u hs ha
  exact hf a hP u b t hu hb

theorem mono (hx : x.Keeps P) (h : ∀ a, P a → P' a) : x.Keeps P' := by
  intro s a t hs ha
  obtain ⟨ht, hP⟩ := hx s a t hs ha
  exact ⟨ht, h a hP⟩

theorem map {g : α → β} (hx : x.Keeps fun a => Q (g a)) : (g <$> x).Keeps Q := by
  rw [map_eq_pure_bind]
  exact hx.bind fun _ ha => .pure ha

theorem get : Keeps get Reading.Plain := by
  intro s a t hs h
  cases h
  exact ⟨hs, hs⟩

theorem set {s : Reading} (h : s.Plain) : Keeps (set s) fun _ => True := by
  intro _ a t _ hset
  cases hset
  exact ⟨h, trivial⟩

theorem modify {g : Reading → Reading} (h : ∀ s, (g s).tokens = s.tokens) :
    Keeps (modify g) fun _ => True := by
  intro s a t hs hmodify
  cases hmodify
  refine ⟨fun token htoken => hs token ?_, trivial⟩
  rwa [← h s]

end Keeps

/-! ### Tokens and registers -/

theorem keeps_current : current.Keeps fun t => t.lexeme.Plain := by
  refine .bind .get fun s hs => ?_
  split
  next t rest htokens => exact .pure (hs t (htokens ▸ List.mem_cons_self))
  · exact .refuse _

theorem keeps_advance : advance.Keeps fun _ => True := by
  intro s u t hs h
  refine ⟨fun token htoken => hs token ?_, trivial⟩
  rw [advance_of_ok h] at htoken
  exact List.mem_of_mem_tail htoken

theorem keeps_sees (m : Sign) : (sees m).Keeps fun _ => True :=
  .bind keeps_current fun _ _ => .pure trivial

theorem keeps_accept (m : Sign) : (accept m).Keeps fun _ => True := by
  refine .bind (keeps_sees m) fun seen _ => ?_
  cases seen with
  | true => exact .bind keeps_advance fun _ _ => .pure trivial
  | false => exact .pure trivial

theorem keeps_expect (m : Sign) : (expect m).Keeps fun _ => True := by
  refine .bind (keeps_accept m) fun found _ => ?_
  cases found with
  | true => exact .pure trivial
  | false => exact .refuse _

theorem keeps_name : name.Keeps fun _ => True := by
  refine .bind keeps_current fun t _ => ?_
  split
  · exact .bind keeps_advance fun _ _ => .pure trivial
  · exact .refuse _

theorem keeps_seesNext (m : Sign) : (seesNext m).Keeps fun _ => True := by
  refine .bind .get fun s _ => ?_
  split
  · extract_lets done
    have hdone : ∀ u, (done u).Keeps fun _ => True := fun _ => .pure trivial
    split
    · exact .bind (.refuse _ : Keeps _ fun _ => True) fun u _ => hdone u
    · exact hdone ()
  · exact .pure trivial

theorem keeps_reserve (count : Nat) : (reserve count).Keeps fun _ => True := by
  refine .bind .get fun s hs => ?_
  extract_lets done
  have hdone : ∀ u, (done u).Keeps fun _ => True := fun _ => .set hs
  split
  · exact .bind (.refuse _ : Keeps _ fun _ => True) fun u _ => hdone u
  · exact hdone ()

theorem keeps_release (count : Nat) : (release count).Keeps fun _ => True :=
  .modify fun _ => rfl

theorem keeps_releaseTo (used : Nat) : (releaseTo used).Keeps fun _ => True :=
  .modify fun _ => rfl

theorem keeps_note (v : Value) : (note v).Keeps fun _ => True := by
  refine .bind .get fun s hs => ?_
  split
  · exact .pure trivial
  · split
    · exact .bind (.set hs) fun _ _ => .pure trivial
    · exact .pure trivial

theorem keeps_noteLoaded (v : Value) : (noteLoaded v).Keeps fun _ => True := by
  unfold noteLoaded
  extract_lets needed
  split
  · exact .bind (keeps_note v) fun _ _ => .pure trivial
  · exact .pure trivial

end Reader

/-! ### Operands -/

namespace Operand

open Reader

variable {o : Operand}

theorem plain_constant {v : Value} (h : v.Plain) : (constant v).Plain := .literal h

theorem keeps_settle (h : o.Plain) : o.settle.Keeps Operand.Plain := by
  unfold settle
  split
  · exact .bind (keeps_release _) fun _ _ => .bind .get fun s _ => .pure (h.onLine s.line)
  · exact .pure h
  · exact .pure h

theorem keeps_push (h : o.Plain) : o.push.Keeps Operand.Plain := by
  refine .bind (keeps_settle h) fun p hp => .bind (keeps_release _) fun _ _ =>
    .bind (keeps_reserve 1) fun _ _ => ?_
  extract_lets done
  have hdone : ∀ u, (done u).Keeps Operand.Plain := fun _ => .pure hp
  split
  · exact .bind (keeps_noteLoaded _) fun u _ => hdone u
  · exact hdone ()

theorem keeps_hold (h : o.Plain) : o.hold.Keeps Operand.Plain := by
  refine .bind (keeps_settle h) fun p hp => ?_
  split
  · exact .pure hp
  · exact .pure hp
  · exact keeps_push hp

theorem keeps_keep (h : o.Plain) : o.keep.Keeps Operand.Plain := by
  unfold keep
  split
  · refine .bind (keeps_note _) fun first _ => ?_
    split
    · exact .pure h
    · exact keeps_push h
  · exact keeps_hold h

theorem keeps_keepKey (h : o.Plain) : o.keepKey.Keeps Operand.Plain := by
  unfold keepKey
  split
  · refine .bind (keeps_note _) fun first _ => ?_
    split
    · exact .pure h
    · exact keeps_push h
  · split
    · exact .pure h
    · exact keeps_hold h
  · exact keeps_hold h

theorem keeps_index {base key : Operand} (hbase : base.Plain) (hkey : key.Plain) :
    (base.index key).Keeps Operand.Plain :=
  .bind (keeps_keepKey hkey) fun _ hp => .bind .get fun s _ => .pure (.index s.line hbase hp)

theorem keeps_ofName (n : String) : (ofName n).Keeps Operand.Plain := by
  refine .bind .get fun s _ => ?_
  split
  · exact .pure (.name n)
  · refine .bind (keeps_note _) fun first _ => ?_
    split
    · exact .pure (.name n)
    · exact .bind (keeps_reserve 2) fun _ _ => .pure (.name n)

theorem keeps_negate (h : o.Plain) : o.negate.Keeps Operand.Plain := by
  unfold negate
  split
  · split
    · exact .refuse _
    · split
      · exact .bind (keeps_push h) fun _ _ => .bind (keeps_release 1) fun _ _ =>
          .pure (.literal trivial)
      · exact .pure (plain_constant trivial)
    next hnegate => exact .pure (plain_constant (Numeral.plain_of_negate? hnegate))
  · exact .refuse _

theorem keeps_join {left right : Operand} (hleft : left.Plain) (hright : right.Plain)
    (line : Nat) : (left.join right line).Keeps Operand.Plain :=
  .bind (keeps_push hright) fun _ hp => .bind (keeps_release 1) fun _ _ =>
    .pure (Expr.Plain.joined hleft hp line)

theorem keeps_enclose (h : o.Plain) : o.enclose.Keeps Operand.Plain :=
  .bind (keeps_settle h) fun _ hp => .pure (Expr.Plain.enclosed hp)

end Operand

/-! ### Expressions -/

namespace Expr

open Reader

/-- Expressions, of which the last one is still an operand. -/
def PlainList (p : List Expr × Operand) : Prop := (∀ e ∈ p.1, e.Plain) ∧ p.2.Plain

theorem PlainList.append {es : List Expr} {last last' : Operand} (h : PlainList (es, last))
    (hlast : last'.Plain) : ∀ e ∈ es ++ [last'.expr], e.Plain :=
  List.forall_mem_append.2 ⟨h.1, List.forall_mem_singleton.2 hlast⟩

theorem keeps_finish (used : Nat) {before : List Field} {waiting : Option Operand} (count : Nat)
    (hbefore : ∀ f ∈ before, f.Plain) (hwaiting : ∀ o ∈ waiting, o.Plain) :
    (readFields.finish used before waiting count).Keeps fun fields => ∀ f ∈ fields, f.Plain := by
  unfold readFields.finish
  refine .bind (keeps_expect _) fun _ _ => ?_
  extract_lets rest
  have hrest : ∀ before : List Field, (∀ f ∈ before, f.Plain) →
      (rest before).Keeps fun fields => ∀ f ∈ fields, f.Plain := by
    intro before hbefore
    unfold rest
    extract_lets done
    have hdone : ∀ u, (done u).Keeps fun fields => ∀ f ∈ fields, f.Plain :=
      fun _ => .pure fun f hf => hbefore f (List.mem_reverse.1 hf)
    split
    · exact hdone ()
    · exact .bind (keeps_releaseTo _) fun u _ => hdone u
  split
  · exact .bind (.pure hbefore) hrest
  next o =>
    have ho : o.Plain := hwaiting o rfl
    have hitem : ∀ p : Operand, p.Plain →
        ((pure (.item p.expr :: before) : Reader (List Field)) >>= rest).Keeps fun fields =>
          ∀ f ∈ fields, f.Plain :=
      fun p hp => .bind (.pure (List.forall_mem_cons.2 ⟨.item hp, hbefore⟩)) hrest
    split
    · exact .bind (.pure ho) hitem
    · exact .bind (Operand.keeps_push ho) hitem

section

variable {inner : Bool → Reader Operand} (h : ∀ joins, (inner joins).Keeps Operand.Plain)

include h

theorem keeps_readList (steps : Nat) : (readList inner steps).Keeps PlainList := by
  induction steps with
  | zero => exact .refuse _
  | succ steps ih =>
      refine .bind (h true) fun o ho => .bind (keeps_accept _) fun more _ => ?_
      cases more with
      | false => exact .pure ⟨by simp, ho⟩
      | true =>
          exact .bind (Operand.keeps_push ho) fun o ho => .bind ih fun p hp =>
            .pure ⟨List.forall_mem_cons.2 ⟨ho, hp.1⟩, hp.2⟩

theorem keeps_readKey : (readKey inner).Keeps Operand.Plain :=
  .bind (keeps_expect _) fun _ _ => .bind (h true) fun _ ho =>
    .bind (Operand.keeps_settle ho) fun _ hp => .bind (keeps_expect _) fun _ _ => .pure hp

theorem keeps_readKeyed : (readKeyed inner).Keeps Field.Plain := by
  unfold readKeyed
  refine .bind .get fun s _ => ?_
  extract_lets used rest
  have hrest : ∀ key : Operand, key.Plain → (rest key).Keeps Field.Plain := fun key hkey =>
    .bind (keeps_expect _) fun _ _ => .bind (Operand.keeps_keepKey hkey) fun _ hkey =>
      .bind (h true) fun _ hvalue => .bind (Operand.keeps_keep hvalue) fun _ hvalue =>
        .bind .get fun s _ => .bind (keeps_releaseTo _) fun _ _ => .pure (.keyed s.line hkey hvalue)
  refine .bind (keeps_sees _) fun bracket _ => ?_
  split
  · exact .bind (keeps_readKey h) hrest
  · exact .bind keeps_name fun n _ =>
      .bind (.pure (Operand.plain_constant trivial)) fun key hkey => hrest key hkey

theorem keeps_readFields (used steps : Nat) (before : List Field) (waiting : Option Operand)
    (count : Nat) (hbefore : ∀ f ∈ before, f.Plain) (hwaiting : ∀ o ∈ waiting, o.Plain) :
    (readFields inner used steps before waiting count).Keeps fun fields =>
      ∀ f ∈ fields, f.Plain := by
  induction steps generalizing before waiting count with
  | zero => exact .refuse _
  | succ steps ih =>
      unfold readFields
      refine .bind (keeps_sees _) fun closed _ => ?_
      split
      · exact keeps_finish used count hbefore hwaiting
      · extract_lets tail next
        have htail : ∀ p : List Field × Option Operand × Nat, (∀ f ∈ p.1, f.Plain) →
            (∀ o ∈ p.2.1, o.Plain) → (tail p).Keeps fun fields => ∀ f ∈ fields, f.Plain := by
          rintro ⟨before, waiting, count⟩ hbefore hwaiting
          refine .bind (keeps_accept _) fun comma _ => ?_
          extract_lets more
          have hmore : ∀ b, (more b).Keeps fun fields => ∀ f ∈ fields, f.Plain := by
            intro b
            cases b with
            | true => exact ih before waiting count hbefore hwaiting
            | false => exact keeps_finish used count hbefore hwaiting
          cases comma with
          | true => exact .bind (.pure trivial : Keeps _ fun _ => True) fun b _ => hmore b
          | false => exact .bind (keeps_accept _) fun b _ => hmore b
        have hnext : ∀ p : List Field × Nat, (∀ f ∈ p.1, f.Plain) →
            (next p).Keeps fun fields => ∀ f ∈ fields, f.Plain := by
          rintro ⟨before, count⟩ hbefore
          refine .bind keeps_current fun t _ => ?_
          extract_lets field
          have hfield : ∀ keyed, (field keyed).Keeps fun fields => ∀ f ∈ fields, f.Plain := by
            intro keyed
            cases keyed with
            | true =>
                refine .bind (keeps_readKeyed h) fun f hf => ?_
                exact htail (f :: before, none, count)
                  (List.forall_mem_cons.2 ⟨hf, hbefore⟩) (by simp)
            | false =>
                refine .bind (h true) fun o ho => ?_
                exact htail (before, some o, count + 1) hbefore (by simpa using ho)
          split
          · exact .bind (keeps_seesNext _) fun keyed _ => hfield keyed
          · exact .bind (.pure trivial : Keeps _ fun _ => True) fun keyed _ => hfield keyed
        split
        · exact hnext (before, count) hbefore
        next o =>
          refine .bind (Operand.keeps_push (hwaiting o rfl)) fun o ho => ?_
          extract_lets store
          have hstore : ∀ u, (store u).Keeps fun fields => ∀ f ∈ fields, f.Plain :=
            fun _ => hnext (.item o.expr :: before, _)
              (List.forall_mem_cons.2 ⟨.item ho, hbefore⟩)
          split
          · exact .bind (keeps_releaseTo _) fun u _ => hstore u
          · exact hstore ()

theorem keeps_readTable (steps : Nat) : (readTable inner steps).Keeps Operand.Plain :=
  .bind (keeps_reserve 1) fun _ _ => .bind .get fun _ _ => .bind (keeps_expect _) fun _ _ =>
    .bind (keeps_readFields h _ _ [] none 0 (by simp) (by simp)) fun _ hfields =>
      .pure (.table hfields)

theorem keeps_readArguments (steps : Nat) :
    (readArguments inner steps).Keeps fun es => ∀ e ∈ es, e.Plain := by
  refine .bind keeps_current fun t ht => ?_
  split
  next v hv =>
    have hv : v.Plain := by
      rw [hv] at ht
      exact ht
    exact .bind keeps_advance fun _ _ => .bind (Operand.keeps_push (Operand.plain_constant hv))
      fun _ ho => .pure (List.forall_mem_singleton.2 ho)
  · exact .bind (keeps_readTable h steps) fun _ ho => .bind (Operand.keeps_push ho) fun _ hp =>
      .pure (List.forall_mem_singleton.2 hp)
  · refine .bind (keeps_expect _) fun _ _ => .bind (keeps_accept _) fun closed _ => ?_
    split
    · exact .pure (by simp)
    · refine .bind (keeps_readList h steps) fun p hp => .bind (keeps_expect _) fun _ _ => ?_
      split
      · exact .bind (.pure hp.2) fun _ hlast => .pure (hp.append hlast)
      · exact .bind (Operand.keeps_push hp.2) fun _ hlast => .pure (hp.append hlast)

theorem keeps_readSuffixes (all steps : Nat) (o : Operand) (ho : o.Plain) :
    (readSuffixes inner all steps o).Keeps Operand.Plain := by
  induction steps generalizing o with
  | zero => exact .refuse _
  | succ steps ih =>
      have hcall : ∀ line, (do
          let o ← o.push
          let used := (← MonadState.get).used
          let es ← readArguments inner all
          releaseTo used
          readSuffixes inner all steps ⟨.call o.expr es line, .answers⟩).Keeps Operand.Plain :=
        fun line => .bind (Operand.keeps_push ho) fun _ ho => .bind .get fun _ _ =>
          .bind (keeps_readArguments h all) fun _ hes => .bind (keeps_releaseTo _) fun _ _ =>
            ih _ (.call line ho hes)
      unfold readSuffixes
      refine .bind keeps_current fun t _ => ?_
      split
      · exact .bind (Operand.keeps_hold ho) fun _ ho => .bind keeps_advance fun _ _ =>
          .bind keeps_name fun n _ =>
            .bind (Operand.keeps_index ho (Operand.plain_constant trivial)) fun p hp => ih p hp
      · exact .bind (Operand.keeps_hold ho) fun _ ho => .bind (keeps_readKey h) fun _ hkey =>
          .bind (Operand.keeps_index ho hkey) fun p hp => ih p hp
      · exact hcall t.line
      · exact hcall t.line
      · exact hcall t.line
      · exact .pure ho

theorem keeps_readPath (steps : Nat) : (readPath inner steps).Keeps Operand.Plain := by
  unfold readPath
  refine .bind (keeps_accept _) fun paren _ => ?_
  extract_lets rest
  have hrest : ∀ first : Operand, first.Plain → (rest first).Keeps Operand.Plain :=
    fun first hfirst => keeps_readSuffixes h steps steps first hfirst
  split
  · exact .bind (h true) fun _ ho => .bind (keeps_expect _) fun _ _ =>
      .bind (Operand.keeps_enclose ho) hrest
  · exact .bind keeps_name fun n _ => .bind (Operand.keeps_ofName n) hrest

theorem keeps_readOperand (steps : Nat) : (readOperand inner steps).Keeps Operand.Plain := by
  refine .bind keeps_current fun t ht => ?_
  split
  next v hv =>
    have hv : v.Plain := by
      rw [hv] at ht
      exact ht
    exact .bind keeps_advance fun _ _ => .pure (Operand.plain_constant hv)
  · exact keeps_readTable h steps
  · exact .bind keeps_advance fun _ _ => .bind (h false) fun _ ho =>
      .bind (Operand.keeps_settle ho) fun _ hp => Operand.keeps_negate hp
  · exact keeps_readPath h steps

end

theorem keeps_read (steps room : Nat) (joins : Bool) :
    (read steps room joins).Keeps Operand.Plain := by
  induction room generalizing joins with
  | zero => exact .refuse _
  | succ room ih =>
      unfold read
      refine .bind (keeps_readOperand ih steps) fun left hleft => ?_
      refine .bind (keeps_sees _) fun join _ => ?_
      split
      · exact .bind keeps_current fun _ _ => .bind keeps_advance fun _ _ =>
          .bind (Operand.keeps_push hleft) fun _ hleft => .bind (ih true) fun _ hright =>
            Operand.keeps_join hleft hright _
      · exact .pure hleft

end Expr

/-! ### Statements and texts -/

namespace Operand

open Reader

theorem keeps_adjust (targets values : Nat) {last : Operand} (h : last.Plain) :
    (adjust targets values last).Keeps Operand.Plain := by
  have hrest : ∀ last : Operand, last.Plain → (do
      reserve (targets - values)
      release (values - targets)
      return last : Reader Operand).Keeps Operand.Plain := fun _ hlast =>
    .bind (keeps_reserve _) fun _ _ => .bind (keeps_release _) fun _ _ => .pure hlast
  unfold adjust
  split
  · exact .bind (.pure h) hrest
  · exact .bind (keeps_push h) hrest

end Operand

namespace Statement

open Reader

theorem keeps_readNames (steps : Nat) (before : List String) :
    (readNames steps before).Keeps fun _ => True := by
  induction steps generalizing before with
  | zero => exact .refuse _
  | succ steps ih =>
      unfold readNames
      refine .bind keeps_name fun n _ => .bind .get fun s _ => ?_
      extract_lets rest
      have hrest : ∀ u, (rest u).Keeps fun _ => True := by
        intro u
        refine .bind (keeps_accept _) fun comma _ => ?_
        split
        · exact ih _
        · exact .pure trivial
      split
      · exact .bind (.refuse _ : Keeps _ fun _ => True) fun u _ => hrest u
      · exact hrest ()

theorem keeps_readDeclaration (steps room : Nat) :
    (readDeclaration steps room).Keeps Statement.Plain := by
  unfold readDeclaration
  refine .bind (keeps_readNames _ _) fun names _ => .bind (keeps_accept _) fun equals _ => ?_
  extract_lets rest
  have hrest : ∀ values : List Expr, (∀ e ∈ values, e.Plain) →
      (rest values).Keeps Statement.Plain := fun values hvalues =>
    .bind (.modify fun _ => rfl) fun _ _ => .pure hvalues
  split
  · exact .bind (Expr.keeps_readList (Expr.keeps_read steps room) steps) fun p hp =>
      .bind (Operand.keeps_adjust _ _ hp.2) fun _ hlast => .bind (.pure (hp.append hlast)) hrest
  · exact .bind (keeps_reserve _) fun _ _ => .bind (.pure (by simp)) hrest

theorem keeps_store {o last : Operand} (h : last.Plain) :
    (readAssignment.store o last).Keeps Operand.Plain := by
  unfold readAssignment.store
  split
  · refine .bind (Operand.keeps_settle h) fun p hp => ?_
    extract_lets done
    have hdone : ∀ u, (done u).Keeps Operand.Plain := fun _ => .pure hp
    split
    · exact .bind (keeps_noteLoaded _) fun u _ => hdone u
    · exact hdone ()
  · exact Operand.keeps_keep h

/-- The step of the induction on the room: what follows a target is read on the next level. -/
theorem keeps_readAssignment_of (steps room : Nat)
    (hnext : ∀ r, room = r + 1 → ∀ before needed o, (∀ t ∈ before, t.Plain) → o.Plain →
      (readAssignment steps r before needed o).Keeps Statement.Plain)
    (before : List Target) (needed : List String) (o : Operand) (hbefore : ∀ t ∈ before, t.Plain)
    (ho : o.Plain) : (readAssignment steps room before needed o).Keeps Statement.Plain := by
  unfold readAssignment
  split
  · exact .refuse _
  next target htarget =>
    have htargets : ∀ t ∈ target :: before, t.Plain :=
      List.forall_mem_cons.2 ⟨Expr.Plain.target? ho htarget, hbefore⟩
    refine .bind (keeps_accept _) fun comma _ => ?_
    split
    · extract_lets needed
      refine .bind (Expr.keeps_readPath (Expr.keeps_read steps _) steps) fun next ho => ?_
      extract_lets rest
      have hrest : ∀ needed, (rest needed).Keeps Statement.Plain := by
        intro needed
        unfold rest
        split
        · exact .refuse _
        · exact hnext _ rfl _ needed next htargets ho
      split
      · extract_lets copied
        have hcopied : ∀ u, (copied u).Keeps Statement.Plain := fun _ =>
          .bind (.pure trivial : Keeps _ fun _ => True) fun needed _ => hrest needed
        split
        · exact .bind (keeps_reserve _) fun u _ => hcopied u
        · exact hcopied ()
      · exact .bind (.pure trivial : Keeps _ fun _ => True) fun needed _ => hrest needed
    · refine .bind (keeps_expect _) fun _ _ => ?_
      extract_lets targets
      refine .bind (Expr.keeps_readList (Expr.keeps_read steps _) steps) fun p hp => ?_
      have hassigned : ∀ last : Operand, last.Plain → (do
          return .assign targets (p.1 ++ [last.expr]) (← get).line : Reader Statement).Keeps
            Statement.Plain := fun last hlast => .bind .get fun _ _ =>
        .pure ⟨fun t ht => htargets t (List.mem_reverse.1 ht), hp.append hlast⟩
      dsimp only
      split
      · exact .bind (keeps_store hp.2) hassigned
      · exact .bind (Operand.keeps_adjust _ _ hp.2) hassigned

theorem keeps_readAssignment (steps room : Nat) (before : List Target) (needed : List String)
    (o : Operand) (hbefore : ∀ t ∈ before, t.Plain) (ho : o.Plain) :
    (readAssignment steps room before needed o).Keeps Statement.Plain := by
  induction room generalizing before needed o with
  | zero =>
      refine keeps_readAssignment_of steps 0 (fun r hr => ?_) before needed o hbefore ho
      cases hr
  | succ room ih =>
      refine keeps_readAssignment_of steps _ (fun r hr => ?_) before needed o hbefore ho
      obtain rfl := Nat.succ.inj hr
      exact ih

theorem keeps_readAction (steps room : Nat) :
    (readAction steps room).Keeps Statement.Plain := by
  refine .bind (Expr.keeps_readPath (Expr.keeps_read steps room) steps) fun o ho =>
    .bind (keeps_sees _) fun equals _ => .bind (keeps_sees _) fun comma _ => ?_
  split
  · exact keeps_readAssignment steps room [] [] o (by simp) ho
  · split
    · exact .pure ho
    · exact .refuse _

theorem keeps_read (steps room : Nat) :
    (read steps room).Keeps fun found => ∀ s ∈ found, s.Plain := by
  unfold read
  refine .bind keeps_current fun t _ => ?_
  extract_lets rest
  have hrest : ∀ found : Option Statement, (∀ s ∈ found, s.Plain) →
      (rest found).Keeps fun found => ∀ s ∈ found, s.Plain :=
    fun found hfound => .bind (.modify fun _ => rfl) fun _ _ => .pure hfound
  have hsome : ∀ {x : Reader Statement}, x.Keeps Statement.Plain →
      (some <$> x).Keeps fun found => ∀ s ∈ found, s.Plain :=
    fun hx => .map (hx.mono fun s hs => by simpa using hs)
  split
  · exact .bind keeps_advance fun _ _ => .bind (.pure (by simp)) hrest
  · exact .bind keeps_advance fun _ _ => .bind (hsome (keeps_readDeclaration steps room)) hrest
  · exact .bind (hsome (keeps_readAction steps room)) hrest

end Statement

namespace Chunk

open Reader

theorem keeps_readAnswers (steps room : Nat) :
    (readAnswers steps room).Keeps fun es => ∀ e ∈ es, e.Plain := by
  unfold readAnswers
  refine .bind (keeps_sees _) fun finish _ => .bind (keeps_sees _) fun semicolon _ => ?_
  extract_lets rest
  have hrest : ∀ es : List Expr, (∀ e ∈ es, e.Plain) →
      (rest es).Keeps fun es => ∀ e ∈ es, e.Plain := by
    intro es hes
    refine .bind (keeps_accept _) fun _ _ => .bind (keeps_sees _) fun finish _ => ?_
    split
    · exact .pure hes
    · exact .refuse _
  split
  · exact .bind (.pure (by simp)) hrest
  · refine .bind (Expr.keeps_readList (Expr.keeps_read steps room) steps) fun p hp => ?_
    have hanswered : ∀ last : Operand, last.Plain →
        ((pure (p.1 ++ [last.expr]) : Reader (List Expr)) >>= rest).Keeps fun es =>
          ∀ e ∈ es, e.Plain := fun last hlast => .bind (.pure (hp.append hlast)) hrest
    dsimp only
    split
    · exact .bind (.pure hp.2) hanswered
    · split
      · exact .bind (Operand.keeps_hold hp.2) hanswered
      · exact .bind (Operand.keeps_push hp.2) hanswered

theorem keeps_readStatements (all room steps : Nat) (before : List Statement)
    (hbefore : ∀ s ∈ before, s.Plain) :
    (readStatements all room steps before).Keeps Chunk.Plain := by
  have hreverse : ∀ before : List Statement, (∀ s ∈ before, s.Plain) →
      ∀ s ∈ before.reverse, s.Plain := fun _ h s hs => h s (List.mem_reverse.1 hs)
  induction steps generalizing before with
  | zero => exact .refuse _
  | succ steps ih =>
      unfold readStatements
      refine .bind (keeps_sees _) fun finish _ => ?_
      split
      · exact .pure ⟨hreverse before hbefore, by simp⟩
      · split
        · exact .refuse _
        · refine .bind (keeps_accept _) fun returns _ => ?_
          split
          · exact .bind (keeps_readAnswers all _) fun _ hanswers =>
              .pure ⟨hreverse before hbefore, hanswers⟩
          · refine .bind (Statement.keeps_read all _) fun found hfound => ?_
            split
            · exact ih _ (List.forall_mem_cons.2 ⟨hfound _ rfl, hbefore⟩)
            · exact ih _ hbefore

/-- The constants of a chunk that was read are those that a text can spell. -/
theorem plain_of_ofText {room : Nat} {text : String} {c : Chunk} (h : ofText room text = .ok c) :
    c.Plain := by
  have hstart : Reading.Plain ⟨Token.ofText text, 1, 0, [], []⟩ := Token.plain_ofText text
  rcases ofText_of_ok h with ⟨r, answers, -, hanswers, rfl⟩ | ⟨-, hstatements⟩
  · obtain ⟨t, hrun⟩ := run_of_readTokens hanswers
    exact ⟨by simp, (keeps_readAnswers _ r _ _ _ hstart hrun).2⟩
  · obtain ⟨t, hrun⟩ := run_of_readTokens hstatements
    exact (keeps_readStatements _ room _ [] (by simp) _ _ _ hstart hrun).2

end Chunk

end BuildPlan
