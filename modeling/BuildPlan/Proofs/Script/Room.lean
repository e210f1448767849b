import BuildPlan.Script.Chunk.Parser

/-! # Reading with more room

How deeply the parts of a text may be nested depends on how many levels are still free when it is
read.  More room changes nothing but that a text which was refused for its depth may be read:
a reader with less room either does what the one with more room does, or gives up
(`Reader.Within`).  The lemmas follow the readers one by one; each is the same on both sides up to
the readers of the level below. -/

namespace BuildPlan

namespace Reader

variable {α β : Type}

/-- A reader does what another one does, or finds that there is not enough room. -/
def Within (x y : Reader α) : Prop := ∀ s, x.run s = .error .tooDeep ∨ x.run s = y.run s

namespace Within

theorem refl (x : Reader α) : x.Within x := fun _ => .inr rfl

theorem tooDeep (y : Reader α) : Within (refuse .tooDeep) y := fun _ => .inl rfl

theorem bind {x y : Reader α} {f g : α → Reader β} (hx : x.Within y)
    (hf : ∀ a, (f a).Within (g a)) : (x >>= f).Within (y >>= g) := by
  intro s
  rw [StateT.run_bind, StateT.run_bind]
  rcases hx s with hx | hx
  · rw [hx]
    exact .inl rfl
  · rw [hx]
    cases hy : y.run s with
    | error e => exact .inr rfl
    | ok p => exact hf p.1 p.2

theorem map {x y : Reader α} (f : α → β) (hx : x.Within y) : (f <$> x).Within (f <$> y) := by
  rw [map_eq_pure_bind, map_eq_pure_bind]
  exact hx.bind fun _ => .refl _

end Within

end Reader

namespace Expr

open Reader

section

variable {inner inner' : Bool → Reader Operand} (h : ∀ joins, (inner joins).Within (inner' joins))

include h

theorem within_readList (steps : Nat) : (readList inner steps).Within (readList inner' steps) := by
  induction steps with
  | zero => exact .refl _
  | succ steps ih =>
      refine .bind (h true) fun o => .bind (.refl _) fun more => ?_
      cases more with
      | false => exact .refl _
      | true => exact .bind (.refl _) fun o => .bind ih fun _ => .refl _

theorem within_readKey : (readKey inner).Within (readKey inner') := by
  refine .bind (.refl _) fun _ => .bind (h true) fun _ => .refl _

theorem within_readKeyed : (readKeyed inner).Within (readKeyed inner') := by
  unfold readKeyed
  refine .bind (.refl _) fun _ => ?_
  extract_lets used rest rest'
  have hrest : ∀ key, (rest key).Within (rest' key) := fun key =>
    .bind (.refl _) fun _ => .bind (.refl _) fun _ => .bind (h true) fun _ => .refl _
  refine .bind (.refl _) fun bracket => ?_
  split
  · exact .bind (within_readKey h) hrest
  · exact .bind (.refl _) fun _ => .bind (.refl _) hrest

theorem within_readFields (used steps : Nat) (before : List Field) (waiting : Option Operand)
    (count : Nat) :
    (readFields inner used steps before waiting count).Within
      (readFields inner' used steps before waiting count) := by
  induction steps generalizing before waiting count with
  | zero => exact .refl _
  | succ steps ih =>
      unfold readFields
      refine .bind (.refl _) fun closed => ?_
      split
      · exact .refl _
      · extract_lets tail next tail' next'
        have htail : ∀ q, (tail q).Within (tail' q) := by
          rintro ⟨before, waiting, count⟩
          refine .bind (.refl _) fun comma => ?_
          extract_lets more more'
          have hmore : ∀ b, (more b).Within (more' b) := by
            intro b
            cases b with
            | true => exact ih _ _ _
            | false => exact .refl _
          cases comma with
          | true => exact .bind (.refl _) hmore
          | false => exact .bind (.refl _) hmore
        have hnext : ∀ p, (next p).Within (next' p) := by
          rintro ⟨before, count⟩
          refine .bind (.refl _) fun t => ?_
          extract_lets field field'
          have hfield : ∀ keyed, (field keyed).Within (field' keyed) := by
            intro keyed
            cases keyed with
            | true => exact .bind (within_readKeyed h) fun f => .bind (.refl _) htail
            | false => exact .bind (h true) fun o => .bind (.refl _) htail
          split
          · exact .bind (.refl _) hfield
          · exact .bind (.refl _) hfield
        split
        · exact .bind (.refl _) hnext
        · refine .bind (.refl _) fun o => ?_
          extract_lets store store'
          have hstore : ∀ u, (store u).Within (store' u) := fun u => .bind (.refl _) hnext
          split
          · exact .bind (.refl _) hstore
          · exact hstore ()

theorem within_readTable (steps : Nat) : (readTable inner steps).Within (readTable inner' steps) :=
  .bind (.refl _) fun _ => .bind (.refl _) fun _ => .bind (.refl _) fun _ =>
    .bind (within_readFields h _ _ _ _ _) fun _ => .refl _

theorem within_readArguments (steps : Nat) :
    (readArguments inner steps).Within (readArguments inner' steps) := by
  refine .bind (.refl _) fun t => ?_
  split
  · exact .refl _
  · exact .bind (within_readTable h steps) fun _ => .refl _
  · refine .bind (.refl _) fun _ => .bind (.refl _) fun closed => ?_
    split
    · exact .refl _
    · exact .bind (within_readList h steps) fun _ => .refl _

theorem within_readSuffixes (all steps : Nat) (o : Operand) :
    (readSuffixes inner all steps o).Within (readSuffixes inner' all steps o) := by
  induction steps generalizing o with
  | zero => exact .refl _
  | succ steps ih =>
      unfold readSuffixes
      refine .bind (.refl _) fun t => ?_
      split
      · exact .bind (.refl _) fun _ => .bind (.refl _) fun _ => .bind (.refl _) fun _ =>
          .bind (.refl _) ih
      · exact .bind (.refl _) fun _ => .bind (within_readKey h) fun _ => .bind (.refl _) ih
      · exact .bind (.refl _) fun _ => .bind (.refl _) fun _ =>
          .bind (within_readArguments h all) fun _ => .bind (.refl _) fun _ => ih _
      · exact .bind (.refl _) fun _ => .bind (.refl _) fun _ =>
          .bind (within_readArguments h all) fun _ => .bind (.refl _) fun _ => ih _
      · exact .bind (.refl _) fun _ => .bind (.refl _) fun _ =>
          .bind (within_readArguments h all) fun _ => .bind (.refl _) fun _ => ih _
      · exact .refl _

theorem within_readPath (steps : Nat) : (readPath inner steps).Within (readPath inner' steps) := by
  unfold readPath
  refine .bind (.refl _) fun paren => ?_
  extract_lets rest rest'
  have hrest : ∀ first, (rest first).Within (rest' first) :=
    fun first => within_readSuffixes h steps steps first
  split
  · exact .bind (h true) fun _ => .bind (.refl _) fun _ => .bind (.refl _) hrest
  · exact .bind (.refl _) fun _ => .bind (.refl _) hrest

theorem within_readOperand (steps : Nat) :
    (readOperand inner steps).Within (readOperand inner' steps) := by
  refine .bind (.refl _) fun t => ?_
  split
  · exact .refl _
  · exact within_readTable h steps
  · exact .bind (.refl _) fun _ => .bind (h false) fun _ => .refl _
  · exact within_readPath h steps

end

/-- With more room an expression is read as with less, if there was enough. -/
theorem within_read (steps : Nat) {room room' : Nat} (h : room ≤ room') (joins : Bool) :
    (read steps room joins).Within (read steps room' joins) := by
  induction room generalizing room' joins with
  | zero => exact .tooDeep _
  | succ room ih =>
      obtain ⟨room', rfl⟩ : ∃ r, room' = r + 1 := ⟨room' - 1, by omega⟩
      have hinner := fun joins => ih (Nat.le_of_succ_le_succ h) joins
      unfold read
      refine .bind (within_readOperand hinner steps) fun left => .bind (.refl _) fun join => ?_
      split
      · exact .bind (.refl _) fun _ => .bind (.refl _) fun _ => .bind (.refl _) fun _ =>
          .bind (hinner true) fun _ => .refl _
      · exact .refl _

end Expr

/-! ### Statements and texts -/

namespace Statement

open Reader

variable {room room' : Nat}

theorem within_readDeclaration (steps : Nat) (h : room ≤ room') :
    (readDeclaration steps room).Within (readDeclaration steps room') := by
  unfold readDeclaration
  refine .bind (.refl _) fun names => .bind (.refl _) fun equals => ?_
  extract_lets rest
  split
  · exact .bind (Expr.within_readList (Expr.within_read steps h) steps) fun _ => .refl _
  · exact .refl _

/-- The step of the induction on the room: what follows a target is read on the next level. -/
theorem within_readAssignment_of (steps : Nat) (h : room ≤ room')
    (hnext : ∀ r r', room = r + 1 → room' = r' + 1 → ∀ before needed o,
      (readAssignment steps r before needed o).Within (readAssignment steps r' before needed o))
    (before : List Target) (needed : List String) (o : Operand) :
    (readAssignment steps room before needed o).Within
      (readAssignment steps room' before needed o) := by
  unfold readAssignment
  split
  · exact .refl _
  · refine .bind (.refl _) fun comma => ?_
    split
    · extract_lets needed
      refine .bind (Expr.within_readPath (Expr.within_read steps h) steps) fun next => ?_
      extract_lets rest rest'
      have hrest : ∀ needed, (rest needed).Within (rest' needed) := by
        intro needed
        unfold rest rest'
        split
        · exact .tooDeep _
        · split
          · omega
          · exact hnext _ _ rfl rfl _ _ _
      split
      · extract_lets copied copied'
        have hcopied : ∀ u, (copied u).Within (copied' u) := fun _ => .bind (.refl _) hrest
        split
        · exact .bind (.refl _) hcopied
        · exact hcopied ()
      · exact .bind (.refl _) hrest
    · refine .bind (.refl _) fun _ => ?_
      exact .bind (Expr.within_readList (Expr.within_read steps h) steps) fun _ => .refl _

theorem within_readAssignment (steps : Nat) (h : room ≤ room') (before : List Target)
    (needed : List String) (o : Operand) :
    (readAssignment steps room before needed o).Within
      (readAssignment steps room' before needed o) := by
  induction room generalizing room' before needed o with
  | zero =>
      refine within_readAssignment_of steps h (fun r r' hr => ?_) before needed o
      cases hr
  | succ room ih =>
      refine within_readAssignment_of steps h (fun r r' hr hr' => ?_) before needed o
      obtain rfl := Nat.succ.inj hr
      exact ih (by omega)

theorem within_readAction (steps : Nat) (h : room ≤ room') :
    (readAction steps room).Within (readAction steps room') := by
  refine .bind (Expr.within_readPath (Expr.within_read steps h) steps) fun o =>
    .bind (.refl _) fun equals => .bind (.refl _) fun comma => ?_
  split
  · exact within_readAssignment steps h [] [] o
  · exact .refl _

theorem within_read (steps : Nat) (h : room ≤ room') :
    (read steps room).Within (read steps room') := by
  unfold read
  refine .bind (.refl _) fun t => ?_
  extract_lets rest
  split
  · exact .refl _
  · exact .bind (.refl _) fun _ => .bind (.map some (within_readDeclaration steps h)) fun _ =>
      .refl _
  · exact .bind (.map some (within_readAction steps h)) fun _ => .refl _

end Statement

namespace Chunk

open Reader

variable {room room' : Nat}

theorem within_readAnswers (steps : Nat) (h : room ≤ room') :
    (readAnswers steps room).Within (readAnswers steps room') := by
  unfold readAnswers
  refine .bind (.refl _) fun finish => .bind (.refl _) fun semicolon => ?_
  extract_lets rest
  split
  · exact .refl _
  · exact .bind (Expr.within_readList (Expr.within_read steps h) steps) fun _ => .refl _

theorem within_readStatements (all steps : Nat) (h : room ≤ room') (before : List Statement) :
    (readStatements all room steps before).Within (readStatements all room' steps before) := by
  induction steps generalizing before with
  | zero => exact .refl _
  | succ steps ih =>
      unfold readStatements
      refine .bind (.refl _) fun finish => ?_
      split
      · exact .refl _
      · cases room with
        | zero => exact .tooDeep _
        | succ room =>
            obtain ⟨room', rfl⟩ : ∃ r, room' = r + 1 := ⟨room' - 1, by omega⟩
            have hroom : room ≤ room' := Nat.le_of_succ_le_succ h
            dsimp only
            refine .bind (.refl _) fun returns => ?_
            split
            · exact .bind (within_readAnswers all hroom) fun _ => .refl _
            · refine .bind (Statement.within_read all hroom) fun statement => ?_
              split
              · exact ih _
              · exact ih _

theorem readTokens_of_within {α : Type} {x y : Reader α} (h : x.Within y) (tokens : List Token) :
    readTokens x tokens = .error .tooDeep ∨ readTokens x tokens = readTokens y tokens := by
  unfold readTokens
  split
  · exact .inr rfl
  · rcases h ⟨tokens, 1, 0, [], []⟩ with hx | hx
    · exact .inl (by rw [hx]; rfl)
    · exact .inr (by rw [hx])

theorem readTokens_eq_ok_of_within {α : Type} {x y : Reader α} {tokens : List Token} {a : α}
    (h : x.Within y) (hx : readTokens x tokens = .ok a) : readTokens y tokens = .ok a := by
  rcases readTokens_of_within h tokens with hdeep | hsame
  · rw [hdeep] at hx
    cases hx
  · rw [← hsame, hx]

end Chunk

end BuildPlan
