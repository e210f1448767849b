import BuildPlan.Proofs.Declarative.Item
import BuildPlan.Proofs.Script.Reader
import BuildPlan.Proofs.Script.Room

/-! # Reading declarative files

What a declarative file says does not depend on how many levels are free when it is read, as long
as it can be read at all (`Chunk.items?_of_ofText`): more room reads the same statements, and a text
that is also a list of expressions says the same either way.  On the last level there is no room
for a declaration (`Chunk.inclusion_of_ofText_one`). -/

namespace BuildPlan

/-! ### Operands -/

namespace Operand

open Reader

/-- An expression as it is, or as it is looked up on some line. -/
def Keeps (o p : Operand) : Prop := p.expr = o.expr ∨ ∃ line, p.expr = o.expr.onLine line

theorem Keeps.trans {o p q : Operand} (hp : o.Keeps p) (hq : p.Keeps q) : o.Keeps q := by
  have honLine : ∀ (e : Expr) line line', (e.onLine line).onLine line' = e.onLine line' := by
    intro e line line'
    cases e <;> rfl
  rcases hq with hq | ⟨line', hq⟩
  · rcases hp with hp | ⟨line, hp⟩
    · exact .inl (hq.trans hp)
    · exact .inr ⟨line, hq.trans hp⟩
  · rcases hp with hp | ⟨line, hp⟩
    · exact .inr ⟨line', by rw [hq, hp]⟩
    · exact .inr ⟨line', by rw [hq, hp, honLine]⟩

theorem gives_settle (o : Operand) : o.settle.Gives o.Keeps := by
  unfold settle
  split
  · exact .bind_any fun _ => .bind_any fun s => .pure (.inr ⟨s.line, rfl⟩)
  · exact .pure (.inl rfl)
  · exact .pure (.inl rfl)

theorem gives_push (o : Operand) : o.push.Gives o.Keeps := by
  refine .bind (gives_settle o) fun p hp => .bind_any fun _ => .bind_any fun _ => ?_
  extract_lets done
  have hdone : ∀ u, (done u).Gives o.Keeps := fun u => .pure hp
  split
  · exact .bind_any hdone
  · exact hdone ()

theorem gives_hold (o : Operand) : o.hold.Gives o.Keeps := by
  refine .bind (gives_settle o) fun p hp => ?_
  split
  · exact .pure hp
  · exact .pure hp
  · exact (gives_push p).mono fun q hq => hp.trans hq

end Operand

/-! ### The last level -/

namespace Expr

open Reader

/-- A call has no table with fields as its argument. -/
def Shallow (e : Expr) : Prop :=
  ∀ callee fields line, e = .call callee [.table fields] line → fields = []

section

variable {inner : Bool → Reader Operand} (h : ∀ joins, (inner joins).Refuses)

include h

theorem refuses_readKey : (readKey inner).Refuses := .bind_any fun _ => (h true).bind _

theorem refuses_readList (steps : Nat) : (readList inner steps).Refuses := by
  cases steps with
  | zero => exact .refuse _
  | succ steps => exact (h true).bind _

theorem refuses_readKeyed : (readKeyed inner).Refuses := by
  unfold readKeyed
  refine .bind_any fun _ => ?_
  extract_lets used rest
  have hrest : ∀ key, (rest key).Refuses := fun key =>
    .bind_any fun _ => .bind_any fun _ => (h true).bind _
  refine .bind_any fun bracket => ?_
  split
  · exact .bind_any hrest
  · exact .bind_any fun _ => .bind_any hrest

theorem gives_readFields (used steps count : Nat) :
    (readFields inner used steps [] none count).Gives (· = []) := by
  cases steps with
  | zero => exact .refuse _
  | succ steps =>
      unfold readFields
      refine .bind_any fun closed => ?_
      split
      · unfold readFields.finish
        refine .bind_any fun _ => .bind (P := (· = [])) (.pure rfl) fun before hbefore => ?_
        subst hbefore
        split
        · exact .pure rfl
        · exact .bind_any fun _ => .pure rfl
      · extract_lets tail next
        refine .bind_any fun p => .bind_any fun t => ?_
        extract_lets field
        have hfield : ∀ keyed, (field keyed).Gives (· = []) := by
          intro keyed
          cases keyed with
          | true => exact (refuses_readKeyed h).bind _
          | false => exact (h true).bind _
        split
        · exact .bind_any hfield
        · exact .bind_any hfield

theorem gives_readTable (steps : Nat) :
    (readTable inner steps).Gives fun o => o.expr = .table [] :=
  .bind_any fun _ => .bind_any fun _ => .bind_any fun _ =>
    .bind (gives_readFields h _ _ _) fun _ hfields => .pure (congrArg _ hfields)

theorem gives_readArguments (steps : Nat) :
    (readArguments inner steps).Gives fun es => ∀ fields, es = [.table fields] → fields = [] := by
  refine .bind_any fun t => ?_
  split
  next v _ =>
    refine .bind_any fun _ => .bind (Operand.gives_push _) fun o ho => .pure fun fields hes => ?_
    have hexpr : o.expr = .literal v := by
      rcases ho with ho | ⟨line, ho⟩
      · exact ho
      · exact ho
    rw [hexpr] at hes
    cases hes
  · refine .bind (gives_readTable h steps) fun o ho =>
      .bind (Operand.gives_push _) fun p hp => .pure fun fields hes => ?_
    have hexpr : p.expr = .table [] := by
      rcases hp with hp | ⟨line, hp⟩
      · rw [hp, ho]
      · rw [hp, ho]
        rfl
    rw [hexpr] at hes
    cases hes
    rfl
  · refine .bind_any fun _ => .bind_any fun closed => ?_
    split
    · exact .pure fun fields hes => by cases hes
    · exact (refuses_readList h steps).bind _

theorem gives_readSuffixes (all steps : Nat) (o : Operand) (ho : o.expr.Shallow) :
    (readSuffixes inner all steps o).Gives fun p => p.expr.Shallow := by
  induction steps generalizing o with
  | zero => exact .refuse _
  | succ steps ih =>
      have hindex : ∀ base key, (Operand.index base key).Gives fun p => p.expr.Shallow :=
        fun base key => .bind_any fun _ => .bind_any fun _ => .pure fun _ _ _ he => by cases he
      have hcall : ∀ callee es line, (∀ fields, es = [.table fields] → fields = []) →
          (Expr.call callee es line).Shallow := by
        intro callee es line hes callee' fields line' he
        cases he
        exact hes fields rfl
      unfold readSuffixes
      refine .bind_any fun t => ?_
      split
      · exact .bind_any fun _ => .bind_any fun _ => .bind_any fun _ =>
          .bind (hindex _ _) fun p hp => ih p hp
      · exact .bind_any fun _ => (refuses_readKey h).bind _
      · exact .bind_any fun _ => .bind_any fun _ => .bind (gives_readArguments h all) fun es hes =>
          .bind_any fun _ => ih _ (hcall _ _ _ hes)
      · exact .bind_any fun _ => .bind_any fun _ => .bind (gives_readArguments h all) fun es hes =>
          .bind_any fun _ => ih _ (hcall _ _ _ hes)
      · exact .bind_any fun _ => .bind_any fun _ => .bind (gives_readArguments h all) fun es hes =>
          .bind_any fun _ => ih _ (hcall _ _ _ hes)
      · exact .pure ho

theorem gives_readPath (steps : Nat) :
    (readPath inner steps).Gives fun o => o.expr.Shallow := by
  unfold readPath
  refine .bind_any fun paren => ?_
  split
  · exact (h true).bind _
  · refine .bind_any fun n => .bind ?_ fun o ho => gives_readSuffixes h steps steps o ho
    unfold Operand.ofName
    refine .bind_any fun s => ?_
    split
    · exact .pure fun _ _ _ he => by cases he
    · refine .bind_any fun first => ?_
      split
      · exact .pure fun _ _ _ he => by cases he
      · exact .bind_any fun _ => .pure fun _ _ _ he => by cases he

end

theorem refuses_read_zero (steps : Nat) (joins : Bool) : (read steps 0 joins).Refuses :=
  .refuse _

/-- A call without a table that has fields declares nothing. -/
theorem Shallow.inclusion {e : Expr} (he : e.Shallow) {item : Item} (hitem : e.item? = some item) :
    ∃ path, item = .inclusion path := by
  have hno : ∀ kind (e' : Expr), (∀ fields, e' = .table fields → fields = []) →
      e'.declaration? kind ≠ some item := by
    intro kind e' hfields hdeclaration
    unfold declaration? at hdeclaration
    split at hdeclaration
    next fields =>
      obtain rfl := hfields fields rfl
      cases hdeclaration
    · cases hdeclaration
  unfold item? at hitem
  split at hitem
  next f e' line =>
    have hfields : ∀ fields, e' = .table fields → fields = [] := by
      rintro fields rfl
      exact he (.name f) fields line rfl
    split at hitem
    · exact absurd hitem (hno _ e' hfields)
    · split at hitem
      · exact absurd hitem (hno _ e' hfields)
      · split at hitem
        · obtain ⟨path, -, rfl⟩ := Option.map_eq_some_iff.1 hitem
          exact ⟨path, rfl⟩
        · cases hitem
  · cases hitem

end Expr

namespace Statement

open Reader

/-- A statement includes a file if it says anything. -/
def OnlyIncludes (s : Statement) : Prop :=
  ∀ item, s.item? = some item → ∃ path, item = .inclusion path

theorem gives_readAssignment_zero (steps : Nat) (before : List Target) (needed : List String)
    (o : Operand) : (readAssignment steps 0 before needed o).Gives OnlyIncludes := by
  unfold readAssignment
  split
  · exact .refuse _
  · refine .bind_any fun comma => ?_
    split
    · extract_lets needed
      refine .bind_any fun next => ?_
      extract_lets rest
      have hrest : ∀ needed, (rest needed).Gives OnlyIncludes := fun _ => .refuse _
      split
      · extract_lets copied
        have hcopied : ∀ u, (copied u).Gives OnlyIncludes := fun _ => .bind_any hrest
        split
        · exact .bind_any hcopied
        · exact hcopied ()
      · exact .bind_any hrest
    · refine .bind_any fun _ => ?_
      exact (Expr.refuses_readList (Expr.refuses_read_zero steps) steps).bind _

theorem gives_readDeclaration (steps room : Nat) :
    (readDeclaration steps room).Gives OnlyIncludes := by
  unfold readDeclaration
  refine .bind_any fun names => .bind_any fun equals => ?_
  extract_lets rest
  have hrest : ∀ values, (rest values).Gives OnlyIncludes := fun values =>
    .bind_any fun _ => .pure fun item hitem => by cases hitem
  split
  · exact .bind_any fun _ => .bind_any fun _ => .bind_any hrest
  · exact .bind_any fun _ => .bind_any hrest

theorem gives_readAction_zero (steps : Nat) : (readAction steps 0).Gives OnlyIncludes := by
  refine .bind (Expr.gives_readPath (Expr.refuses_read_zero steps) steps) fun o ho =>
    .bind_any fun equals => .bind_any fun comma => ?_
  split
  · exact gives_readAssignment_zero steps [] [] o
  · split
    · exact .pure fun item hitem => ho.inclusion hitem
    · exact .refuse _

theorem gives_read_zero (steps : Nat) :
    (read steps 0).Gives fun found => ∀ s ∈ found, s.OnlyIncludes := by
  unfold read
  refine .bind_any fun t => ?_
  extract_lets rest
  have hrest : ∀ found : Option Statement, (∀ s ∈ found, s.OnlyIncludes) →
      (rest found).Gives fun found => ∀ s ∈ found, s.OnlyIncludes :=
    fun found hfound => .bind_any fun _ => .pure hfound
  have hsome : ∀ {x : Reader Statement}, x.Gives OnlyIncludes →
      (some <$> x).Gives fun found => ∀ s ∈ found, s.OnlyIncludes := by
    intro x hx
    refine .map (hx.mono fun s hs s' hs' => ?_)
    obtain rfl : s = s' := Option.some.inj hs'
    exact hs
  split
  · exact .bind_any fun _ => .bind (P := (· = none)) (.pure rfl) fun found hfound =>
      hrest found (by simp [hfound])
  · exact .bind_any fun _ => .bind (hsome (gives_readDeclaration steps 0)) hrest
  · exact .bind (hsome (gives_readAction_zero steps)) hrest

end Statement

namespace Chunk

open Reader

theorem gives_readAnswers_zero (steps : Nat) : (readAnswers steps 0).Gives (· = []) := by
  unfold readAnswers
  refine .bind_any fun finish => .bind_any fun semicolon => ?_
  extract_lets rest
  split
  · refine .bind (P := (· = [])) (.pure rfl) fun answers hanswers =>
      .bind_any fun _ => .bind_any fun _ => ?_
    split
    · exact .pure hanswers
    · exact .refuse _
  · exact (Expr.refuses_readList (Expr.refuses_read_zero steps) steps).bind _

theorem gives_readStatements_one (all steps : Nat) (before : List Statement)
    (hbefore : ∀ s ∈ before, s.OnlyIncludes) :
    (readStatements all 1 steps before).Gives fun c =>
      c.answers = [] ∧ ∀ s ∈ c.statements, s.OnlyIncludes := by
  induction steps generalizing before with
  | zero => exact .refuse _
  | succ steps ih =>
      have hreverse : ∀ s ∈ before.reverse, s.OnlyIncludes := fun s hs =>
        hbefore s (List.mem_reverse.1 hs)
      unfold readStatements
      refine .bind_any fun finish => ?_
      split
      · exact .pure ⟨rfl, hreverse⟩
      · refine .bind_any fun returns => ?_
        split
        · exact .bind (gives_readAnswers_zero all) fun answers hanswers =>
            .pure ⟨hanswers, hreverse⟩
        · refine .bind (Statement.gives_read_zero all) fun found hfound => ?_
          split
          next s =>
            refine ih _ fun s' hs' => ?_
            rcases List.mem_cons.1 hs' with rfl | hs'
            · exact hfound _ rfl
            · exact hbefore s' hs'
          · exact ih _ hbefore

/-- There is no room for a declaration on the last level. -/
theorem inclusion_of_ofText_one {text : String} {c : Chunk} (hc : ofText 1 text = .ok c)
    {items : List Item} (hitems : c.items? = some items) :
    ∀ item ∈ items, ∃ path, item = .inclusion path := by
  have hchunk : c.answers = [] ∧ ∀ s ∈ c.statements, s.OnlyIncludes := by
    rcases ofText_of_ok hc with ⟨r, answers, hr, hanswers, rfl⟩ | ⟨-, hstatements⟩
    · obtain rfl : 0 = r := Nat.succ.inj hr
      obtain ⟨t, hrun⟩ := run_of_readTokens hanswers
      exact ⟨gives_readAnswers_zero _ _ _ _ hrun, by simp⟩
    · obtain ⟨t, hrun⟩ := run_of_readTokens hstatements
      exact gives_readStatements_one _ _ [] (by simp) _ _ _ hrun
  obtain ⟨done, hdone, hitems⟩ := Option.bind_eq_some_iff.1 hitems
  rw [hchunk.1] at hitems
  obtain rfl : done = items := by simpa using hitems
  intro item hitem
  obtain ⟨s, hs, hsitem⟩ := exists_of_mem_mapM hdone hitem
  exact hchunk.2 s hs item hsitem

end Chunk

/-! ### The two readings of a text -/

namespace Reader

/-- The text is over, but for a semicolon. -/
def Ends (tokens : List Token) : Prop :=
  first? tokens = some (.sign .finish) ∨
    first? tokens = some (.sign .semicolon) ∧ first? tokens.tail = some (.sign .finish)

end Reader

namespace Expr

open Reader

variable {inner : Bool → Reader Operand} {s t : Reading} {o : Operand}

theorem first?_of_readPath {steps : Nat} (h : (readPath inner steps).run s = .ok (o, t)) :
    first? s.tokens = some (.sign .leftParen) ∨ ∃ n, first? s.tokens = some (.name n) := by
  obtain ⟨paren, u, haccept, hrest⟩ := run_bind_eq_ok.1 h
  obtain ⟨hparen, -, hsame⟩ := accept_of_ok haccept
  cases paren with
  | true => exact .inl (of_decide_eq_true hparen.symm)
  | false =>
      obtain rfl := hsame rfl
      obtain ⟨n, v, hname, -⟩ := run_bind_eq_ok.1 hrest
      exact .inr (name_of_ok hname)

theorem eq_leftParen_of_readPath {steps : Nat} (h : (readPath inner steps).run s = .ok (o, t))
    {m : Sign} (hm : first? s.tokens = some (.sign m)) : m = .leftParen := by
  rcases first?_of_readPath h with hparen | ⟨n, hname⟩
  · rw [hm] at hparen
    cases hparen
    rfl
  · rw [hm] at hname
    cases hname

/-- An operand that begins like a variable is read as one. -/
theorem readOperand_of_first? {steps : Nat} (h : (readOperand inner steps).run s = .ok (o, t))
    (hfirst : ∀ v, first? s.tokens ≠ some (.literal v))
    (hbrace : first? s.tokens ≠ some (.sign .leftBrace))
    (hminus : first? s.tokens ≠ some (.sign .minus)) :
    (readPath inner steps).run s = .ok (o, t) := by
  obtain ⟨token, u, hcurrent, hrest⟩ := run_bind_eq_ok.1 h
  obtain ⟨rfl, htoken⟩ := current_of_ok hcurrent
  split at hrest
  next v hv => exact absurd (hv ▸ htoken) (hfirst v)
  next hv => exact absurd (hv ▸ htoken) hbrace
  next hv => exact absurd (hv ▸ htoken) hminus
  · exact hrest

theorem readList_of_ok {steps : Nat} {es : List Expr} {last : Operand}
    (h : (readList inner steps).run s = .ok ((es, last), t)) :
    ∃ o u, (inner true).run s = .ok (o, u) ∧
      (first? u.tokens ≠ some (.sign .comma) ∧ es = [] ∧ last = o ∧ t = u ∨
        first? u.tokens = some (.sign .comma) ∧ ∃ p es', o.Keeps p ∧ es = p.expr :: es') := by
  cases steps with
  | zero => cases h
  | succ steps =>
      obtain ⟨o, u, hinner, hrest⟩ := run_bind_eq_ok.1 h
      refine ⟨o, u, hinner, ?_⟩
      obtain ⟨comma, v, haccept, hmore⟩ := run_bind_eq_ok.1 hrest
      obtain ⟨hcomma, -, hsame⟩ := accept_of_ok haccept
      cases comma with
      | false =>
          obtain rfl := hsame rfl
          cases hmore
          exact .inl ⟨of_decide_eq_false hcomma.symm, rfl, rfl, rfl⟩
      | true =>
          obtain ⟨p, w, hpush, hlist⟩ := run_bind_eq_ok.1 hmore
          obtain ⟨⟨es', last'⟩, w', -, hpure⟩ := run_bind_eq_ok.1 hlist
          cases hpure
          exact .inr ⟨of_decide_eq_true hcomma.symm, p, es', Operand.gives_push o v p w hpush, rfl⟩

theorem read_of_ok {steps room : Nat} (h : (read steps room true).run s = .ok (o, t)) :
    ∃ r left u, room = r + 1 ∧ (readOperand (read steps r) steps).run s = .ok (left, u) ∧
      (o = left ∧ t = u ∨ first? u.tokens = some (.sign .join)) := by
  cases room with
  | zero => cases h
  | succ room =>
      obtain ⟨left, u, hleft, hrest⟩ := run_bind_eq_ok.1 h
      refine ⟨room, left, u, rfl, hleft, ?_⟩
      obtain ⟨join, v, hsees, hmore⟩ := run_bind_eq_ok.1 hrest
      obtain ⟨rfl, hjoin⟩ := sees_of_ok hsees
      cases join with
      | false =>
          cases hmore
          exact .inl ⟨rfl, rfl⟩
      | true => exact .inr (of_decide_eq_true hjoin.symm)

/-- What can begin an operand. -/
theorem first?_of_readOperand {steps : Nat} (h : (readOperand inner steps).run s = .ok (o, t))
    {m : Sign} (hm : first? s.tokens = some (.sign m)) :
    m = .leftBrace ∨ m = .minus ∨ m = .leftParen := by
  by_cases hbrace : first? s.tokens = some (.sign .leftBrace)
  · rw [hm] at hbrace
    cases hbrace
    exact .inl rfl
  · by_cases hminus : first? s.tokens = some (.sign .minus)
    · rw [hm] at hminus
      cases hminus
      exact .inr (.inl rfl)
    · have hpath := readOperand_of_first? h (by simp [hm]) hbrace hminus
      exact .inr (.inr (eq_leftParen_of_readPath hpath hm))

/-- What can be assigned to declares nothing. -/
theorem item?_of_target? {p : Operand} (htarget : o.expr.target?.isSome) (hp : o.Keeps p) :
    p.expr.item? = none := by
  have hitem : ∀ e : Expr, e.target?.isSome →
      e.item? = none ∧ ∀ line, (e.onLine line).item? = none := by
    intro e he
    cases e <;> simp [target?, item?, onLine] at he ⊢
  rcases hp with hp | ⟨line, hp⟩
  · rw [hp]
    exact (hitem _ htarget).1
  · rw [hp]
    exact (hitem _ htarget).2 line

end Expr

namespace Statement

open Reader

variable {s t : Reading}

theorem readAction_of_ok {steps room : Nat} {statement : Statement}
    (h : (readAction steps room).run s = .ok (statement, t)) :
    ∃ o u, (Expr.readPath (Expr.read steps room) steps).run s = .ok (o, u) ∧
      (first? u.tokens ≠ some (.sign .comma) ∧ o.isCall ∧ statement = .call o.expr ∧ t = u ∨
        first? u.tokens ≠ some (.sign .join) ∧ o.expr.target?.isSome) := by
  obtain ⟨o, u, hpath, hrest⟩ := run_bind_eq_ok.1 h
  refine ⟨o, u, hpath, ?_⟩
  obtain ⟨equals, v, hsees, hmore⟩ := run_bind_eq_ok.1 hrest
  obtain ⟨rfl, hequals⟩ := sees_of_ok hsees
  obtain ⟨comma, v', hsees', haction⟩ := run_bind_eq_ok.1 hmore
  obtain ⟨rfl, hcomma⟩ := sees_of_ok hsees'
  split at haction
  next hassigns =>
    right
    refine ⟨fun hjoin => ?_, ?_⟩
    · rw [hjoin] at hequals hcomma
      rw [hequals, hcomma] at hassigns
      cases hassigns
    · unfold readAssignment at haction
      split at haction
      · cases haction
      next target htarget => rw [htarget]; rfl
  next hassigns =>
    simp only [Bool.or_eq_true, not_or, Bool.not_eq_true] at hassigns
    obtain ⟨rfl, rfl⟩ := hassigns
    split at haction
    next hcall =>
      cases haction
      exact .inl ⟨of_decide_eq_false hcomma.symm, hcall, rfl, rfl⟩
    · cases haction

/-- What can begin a statement. -/
theorem read_of_ok {steps room : Nat} {found : Option Statement}
    (h : (read steps room).run s = .ok (found, t)) :
    (first? s.tokens = some (.sign .semicolon) ∧ found = none ∧ t.tokens = s.tokens.tail) ∨
      first? s.tokens = some (.sign .localWord) ∨
      ∃ statement u, (readAction steps room).run s = .ok (statement, u) ∧
        found = some statement ∧ t.tokens = u.tokens := by
  unfold read at h
  obtain ⟨token, u, hcurrent, hrest⟩ := run_bind_eq_ok.1 h
  obtain ⟨rfl, htoken⟩ := current_of_ok hcurrent
  extract_lets rest at hrest
  have hrest' : ∀ {u found'}, (rest found').run u = .ok (found, t) →
      found = found' ∧ t.tokens = u.tokens := by
    intro u found' hdone
    obtain ⟨v, v', hmodify, hpure⟩ := run_bind_eq_ok.1 hdone
    cases hmodify
    cases hpure
    exact ⟨rfl, rfl⟩
  split at hrest
  next hv =>
    obtain ⟨v, v', hadvance, hpure⟩ := run_bind_eq_ok.1 hrest
    obtain ⟨hfound, htokens⟩ := hrest' hpure
    exact .inl ⟨hv ▸ htoken, hfound, htokens.trans (advance_of_ok hadvance)⟩
  next hv => exact .inr (.inl (hv ▸ htoken))
  · obtain ⟨v, v', hsome, hdone⟩ := run_bind_eq_ok.1 hrest
    obtain ⟨hfound, htokens⟩ := hrest' hdone
    rw [map_eq_pure_bind] at hsome
    obtain ⟨statement, w, haction, hpure⟩ := run_bind_eq_ok.1 hsome
    cases hpure
    exact .inr (.inr ⟨statement, _, haction, hfound, htokens⟩)

end Statement

namespace Chunk

open Reader

variable {s t : Reading}

/-- One step of reading statements. -/
theorem readStatements_of_ok {all room steps : Nat} {before : List Statement} {c : Chunk}
    (h : (readStatements all (room + 1) steps before).run s = .ok (c, t)) :
    (first? s.tokens = some (.sign .finish) ∧ c = ⟨before.reverse, []⟩) ∨
      first? s.tokens = some (.sign .returnWord) ∨
      ∃ steps' found u, first? s.tokens ≠ some (.sign .finish) ∧
        (Statement.read all room).run s = .ok (found, u) ∧
        (readStatements all (room + 1) steps' (found.toList ++ before)).run u = .ok (c, t) := by
  cases steps with
  | zero => cases h
  | succ steps =>
      unfold readStatements at h
      obtain ⟨finish, u, hsees, hrest⟩ := run_bind_eq_ok.1 h
      obtain ⟨rfl, hfinish⟩ := sees_of_ok hsees
      cases finish with
      | true =>
          cases hrest
          exact .inl ⟨of_decide_eq_true hfinish.symm, rfl⟩
      | false =>
          obtain ⟨returns, v, haccept, hstatement⟩ := run_bind_eq_ok.1 hrest
          obtain ⟨hreturns, -, hsame⟩ := accept_of_ok haccept
          cases returns with
          | true => exact .inr (.inl (of_decide_eq_true hreturns.symm))
          | false =>
              obtain rfl := hsame rfl
              obtain ⟨found, w, hread, hfollow⟩ := run_bind_eq_ok.1 hstatement
              refine .inr (.inr ⟨steps, found, w, of_decide_eq_false hfinish.symm, hread, ?_⟩)
              cases found with
              | none => exact hfollow
              | some statement => exact hfollow

theorem readStatements_of_finish {all room steps : Nat} {before : List Statement} {c : Chunk}
    (hfinish : first? s.tokens = some (.sign .finish))
    (h : (readStatements all (room + 1) steps before).run s = .ok (c, t)) :
    c = ⟨before.reverse, []⟩ := by
  rcases readStatements_of_ok h with ⟨-, hc⟩ | hreturn | ⟨_, _, _, hno, -⟩
  · exact hc
  · rw [hfinish] at hreturn
    cases hreturn
  · exact absurd hfinish hno

/-- Reading statements ends where the text does. -/
theorem readStatements_of_ends {all room steps : Nat} {before : List Statement} {c : Chunk}
    (hends : Ends s.tokens)
    (h : (readStatements all (room + 1) steps before).run s = .ok (c, t)) :
    c = ⟨before.reverse, []⟩ := by
  rcases hends with hfinish | ⟨hsemicolon, hfinish⟩
  · exact readStatements_of_finish hfinish h
  · rcases readStatements_of_ok h with ⟨-, hc⟩ | hreturn | ⟨steps', found, u, -, hread, hrest⟩
    · exact hc
    · rw [hsemicolon] at hreturn
      cases hreturn
    · rcases Statement.read_of_ok hread with ⟨-, rfl, htokens⟩ | hlocal | ⟨_, _, haction, -⟩
      · exact readStatements_of_finish (htokens ▸ hfinish) hrest
      · rw [hsemicolon] at hlocal
        cases hlocal
      · obtain ⟨o, v, hpath, -⟩ := run_bind_eq_ok.1 haction
        cases Expr.eq_leftParen_of_readPath hpath hsemicolon

/-- What answers a text may have: none, or a list of expressions that the text ends with. -/
theorem readAnswers_of_ok {steps room : Nat} {answers : List Expr}
    (h : (readAnswers steps room).run s = .ok (answers, t)) :
    answers = [] ∧ Ends s.tokens ∨
      first? s.tokens ≠ some (.sign .finish) ∧ first? s.tokens ≠ some (.sign .semicolon) ∧
      ∃ es last u last' v,
        (Expr.readList (Expr.read steps room) steps).run s = .ok ((es, last), u) ∧
        answers = es ++ [last'.expr] ∧ last.Keeps last' ∧
        (es = [] → last.isCall → last' = last ∧ v = u) ∧ Ends v.tokens := by
  unfold readAnswers at h
  obtain ⟨finish, u, hsees, hsemicolon⟩ := run_bind_eq_ok.1 h
  obtain ⟨rfl, hfinish⟩ := sees_of_ok hsees
  obtain ⟨semicolon, v, hsees', hanswers⟩ := run_bind_eq_ok.1 hsemicolon
  obtain ⟨rfl, hsemicolon⟩ := sees_of_ok hsees'
  extract_lets rest at hanswers
  have hrest : ∀ {found w}, (rest found).run w = .ok (answers, t) →
      answers = found ∧ Ends w.tokens := by
    intro found w hdone
    obtain ⟨accepted, w', haccept, hdone⟩ := run_bind_eq_ok.1 hdone
    obtain ⟨haccepted, htail, hsame⟩ := accept_of_ok haccept
    obtain ⟨finish', w'', hsees, hdone⟩ := run_bind_eq_ok.1 hdone
    obtain ⟨rfl, hfinish'⟩ := sees_of_ok hsees
    cases finish' with
    | false => cases hdone
    | true =>
        cases hdone
        have hend := of_decide_eq_true hfinish'.symm
        cases accepted with
        | true => exact ⟨rfl, .inr ⟨of_decide_eq_true haccepted.symm, htail rfl ▸ hend⟩⟩
        | false => exact ⟨rfl, .inl (hsame rfl ▸ hend)⟩
  split at hanswers
  next hover =>
    obtain ⟨found, w, hpure, hdone⟩ := run_bind_eq_ok.1 hanswers
    cases hpure
    exact .inl (hrest hdone)
  next hover =>
    simp only [Bool.or_eq_true, not_or, Bool.not_eq_true] at hover
    obtain ⟨rfl, rfl⟩ := hover
    refine .inr ⟨of_decide_eq_false hfinish.symm, of_decide_eq_false hsemicolon.symm, ?_⟩
    obtain ⟨⟨es, last⟩, w, hlist, hlast⟩ := run_bind_eq_ok.1 hanswers
    dsimp only at hlast
    have hdone : ∀ {last' : Operand} {v}, (pure (es ++ [last'.expr]) >>= rest).run v =
        .ok (answers, t) → answers = es ++ [last'.expr] ∧ Ends v.tokens := by
      intro last' v hlast
      obtain ⟨found, v', hpure, hfound⟩ := run_bind_eq_ok.1 hlast
      cases hpure
      exact hrest hfound
    refine ⟨es, last, w, ?_⟩
    split at hlast
    next hcall =>
      obtain ⟨last', v', hpure, hend⟩ := run_bind_eq_ok.1 hlast
      cases hpure
      obtain ⟨hes, hends⟩ := hdone hend
      exact ⟨_, _, hlist, hes, .inl rfl, fun _ _ => ⟨rfl, rfl⟩, hends⟩
    next hcall =>
      split at hlast
      · obtain ⟨last', v', hhold, hend⟩ := run_bind_eq_ok.1 hlast
        obtain ⟨hes, hends⟩ := hdone hend
        exact ⟨_, _, hlist, hes, Operand.gives_hold last w last' v' hhold,
          fun _ h => absurd h hcall, hends⟩
      · obtain ⟨last', v', hpush, hend⟩ := run_bind_eq_ok.1 hlast
        obtain ⟨hes, hends⟩ := hdone hend
        exact ⟨_, _, hlist, hes, Operand.gives_push last w last' v' hpush,
          fun _ h => absurd h hcall, hends⟩

theorem readStatements_of_join {all room steps : Nat} {before : List Statement} {c : Chunk}
    (hjoin : first? s.tokens = some (.sign .join)) :
    (readStatements all (room + 1) steps before).run s ≠ .ok (c, t) := by
  intro h
  rcases readStatements_of_ok h with ⟨hfinish, -⟩ | hreturn | ⟨_, _, _, -, hread, -⟩
  · rw [hjoin] at hfinish
    cases hfinish
  · rw [hjoin] at hreturn
    cases hreturn
  · rcases Statement.read_of_ok hread with ⟨hsemicolon, -⟩ | hlocal | ⟨_, _, haction, -⟩
    · rw [hjoin] at hsemicolon
      cases hsemicolon
    · rw [hjoin] at hlocal
      cases hlocal
    · obtain ⟨o, v, hpath, -⟩ := Statement.readAction_of_ok haction
      cases Expr.eq_leftParen_of_readPath hpath hjoin

/-- The first expression of a list is the variable or call that the first statement begins with,
unless a join follows it. -/
theorem read_eq_readPath {steps room : Nat} {o p : Operand} {u v : Reading}
    (hread : (Expr.read steps room true).run s = .ok (o, u))
    (hpath : (Expr.readPath (Expr.read steps room) steps).run s = .ok (p, v)) :
    o = p ∧ u = v ∨ first? v.tokens = some (.sign .join) := by
  obtain ⟨r, left, w, rfl, hoperand, hend⟩ := Expr.read_of_ok hread
  have hfirst := Expr.first?_of_readPath hpath
  have hleft : (Expr.readPath (Expr.read steps r) steps).run s = .ok (left, w) := by
    rcases hfirst with hfirst | ⟨n, hfirst⟩
    · exact Expr.readOperand_of_first? hoperand (by simp [hfirst]) (by simp [hfirst])
        (by simp [hfirst])
    · exact Expr.readOperand_of_first? hoperand (by simp [hfirst]) (by simp [hfirst])
        (by simp [hfirst])
  have hsame : (left, w) = (p, v) := by
    rcases Expr.within_readPath (Expr.within_read steps (Nat.le_succ r)) steps s with h | h
    · rw [hleft] at h
      cases h
    · rw [hleft, hpath] at h
      exact Except.ok.inj h
  cases hsame
  exact hend

/-- A text that is a list of expressions says the same when it is read as statements. -/
theorem items?_of_readAnswers {steps room : Nat} {answers : List Expr} {c : Chunk} {u : Reading}
    (hanswers : (readAnswers steps room).run s = .ok (answers, t))
    (hstatements : (readStatements steps (room + 1) steps []).run s = .ok (c, u))
    {items : List Item} (hitems : answers.mapM Expr.item? = some items) :
    c.items? = some items := by
  rcases readAnswers_of_ok hanswers with ⟨rfl, hends⟩ |
    ⟨hfinish, hsemicolon, es, last, v, last', v', hlist, rfl, hkeeps, hcall, hends⟩
  · rw [readStatements_of_ends hends hstatements]
    obtain rfl : [] = items := Option.some.inj hitems
    rfl
  obtain ⟨o, w, hread, hmore⟩ := Expr.readList_of_ok hlist
  have hsign : ∀ m, first? s.tokens = some (.sign m) →
      m = .leftBrace ∨ m = .minus ∨ m = .leftParen := by
    intro m hm
    obtain ⟨r, left, w', -, hoperand, -⟩ := Expr.read_of_ok hread
    exact Expr.first?_of_readOperand hoperand hm
  rcases readStatements_of_ok hstatements with
    ⟨hfinish', -⟩ | hreturn | ⟨_, _, z, -, hstatement, hrest⟩
  · exact absurd hfinish' hfinish
  · rcases hsign _ hreturn with h | h | h <;> cases h
  rcases Statement.read_of_ok hstatement with
    ⟨hsemicolon', -⟩ | hlocal | ⟨st, z', haction, rfl, htokens⟩
  · exact absurd hsemicolon' hsemicolon
  · rcases hsign _ hlocal with h | h | h <;> cases h
  obtain ⟨p, w', hpath, hends'⟩ := Statement.readAction_of_ok haction
  rcases read_eq_readPath hread hpath with ⟨rfl, rfl⟩ | hjoin
  · rcases hends' with ⟨hcomma, hisCall, rfl, rfl⟩ | ⟨-, htarget⟩
    · rcases hmore with ⟨-, rfl, rfl, rfl⟩ | ⟨hcomma', -⟩
      · obtain ⟨rfl, rfl⟩ := hcall rfl hisCall
        rw [readStatements_of_ends (htokens ▸ hends) hrest]
        obtain ⟨item, items', hitem, hnil, rfl⟩ := mapM_cons_eq_some hitems
        obtain rfl : [] = items' := Option.some.inj hnil
        change Chunk.items? ⟨[.call last'.expr], []⟩ = some [item]
        simp [items?, Statement.item?, hitem]
      · exact absurd hcomma' hcomma
    · -- What can be assigned to is no call that declares or includes anything.
      rcases hmore with ⟨-, rfl, rfl, -⟩ | ⟨-, q, es', hq, rfl⟩
      · obtain ⟨item, items', hitem, -⟩ := mapM_cons_eq_some hitems
        rw [Expr.item?_of_target? htarget hkeeps] at hitem
        cases hitem
      · obtain ⟨item, items', hitem, -⟩ := mapM_cons_eq_some hitems
        rw [Expr.item?_of_target? htarget hq] at hitem
        cases hitem
  · rcases hends' with ⟨-, -, -, rfl⟩ | ⟨hno, -⟩
    · exact absurd hrest (readStatements_of_join (htokens ▸ hjoin))
    · exact absurd hjoin hno

/-- A text that can be read can be read with more room. -/
theorem isOk_ofText_of_le {text : String} {room room' : Nat} (h : room ≤ room')
    (hc : (ofText room text).isOk) : (ofText room' text).isOk := by
  cases hread : ofText room text with
  | error refusal =>
      rw [hread] at hc
      cases hc
  | ok c =>
      rcases ofText_of_ok hread with ⟨r, answers, rfl, hanswers, -⟩ | ⟨-, hstatements⟩
      · obtain ⟨r', rfl⟩ : ∃ r', room' = r' + 1 := ⟨room' - 1, by omega⟩
        have hanswers' := readTokens_eq_ok_of_within
          (within_readAnswers _ (Nat.le_of_succ_le_succ h)) hanswers
        unfold ofText
        dsimp only
        rw [hanswers']
        rfl
      · have hstatements' := readTokens_eq_ok_of_within (within_readStatements _ _ h []) hstatements
        unfold ofText
        dsimp only
        split
        · rfl
        · rw [hstatements']
          rfl

/-- What a declarative text says is the same on every level on which it can be read. -/
theorem items?_of_ofText {text : String} {room room' : Nat} (h : room ≤ room') {c c' : Chunk}
    (hc : ofText room text = .ok c) (hc' : ofText room' text = .ok c') {items : List Item}
    (hitems : c'.items? = some items) : c.items? = some items := by
  rcases ofText_of_ok hc with ⟨r, answers, rfl, hanswers, rfl⟩ | ⟨-, hstatements⟩
  · obtain ⟨r', rfl⟩ : ∃ r', room' = r' + 1 := ⟨room' - 1, by omega⟩
    have hsame := readTokens_eq_ok_of_within
      (within_readAnswers _ (Nat.le_of_succ_le_succ h)) hanswers
    rcases ofText_of_ok hc' with ⟨s, answers', hs, hanswers', rfl⟩ | ⟨hno, -⟩
    · obtain rfl : r' = s := Nat.succ.inj hs
      rw [hsame] at hanswers'
      cases hanswers'
      exact hitems
    · exact absurd hsame (hno r' answers rfl)
  · have hsame := readTokens_eq_ok_of_within (within_readStatements _ _ h []) hstatements
    rcases ofText_of_ok hc' with ⟨s, answers, rfl, hanswers, rfl⟩ | ⟨-, hstatements'⟩
    · obtain ⟨t, hrun⟩ := run_of_readTokens hanswers
      obtain ⟨u, hrun'⟩ := run_of_readTokens hsame
      have hanswersItems : answers.mapM Expr.item? = some items := by
        simpa [items?] using hitems
      exact items?_of_readAnswers hrun hrun' hanswersItems
    · rw [hsame] at hstatements'
      cases hstatements'
      exact hitems

end Chunk

end BuildPlan
