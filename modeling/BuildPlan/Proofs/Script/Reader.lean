import BuildPlan.Script.Chunk.Parser

/-! # What readers come to

A reader that takes a text comes to an answer and to a reading further on.  What all its answers
have in common (`Reader.Gives`) is shown by following it step by step; the `_of_ok` lemmas say
what the steps that look at tokens found and took. -/

namespace BuildPlan

namespace Reader

variable {α β : Type} {x : Reader α} {f : α → Reader β} {P : α → Prop} {Q : β → Prop}

/-- All that a reader gives has a property. -/
def Gives (x : Reader α) (P : α → Prop) : Prop := ∀ s a t, x.run s = .ok (a, t) → P a

/-- A reader that refuses every text. -/
def Refuses (x : Reader α) : Prop := x.Gives fun _ => False

theorem run_bind_eq_ok {s : Reading} {p : β × Reading} :
    (x >>= f).run s = .ok p ↔ ∃ a t, x.run s = .ok (a, t) ∧ (f a).run t = .ok p := by
  rw [StateT.run_bind]
  constructor
  · intro h
    cases hx : x.run s with
    | error e =>
        rw [hx] at h
        cases h
    | ok q =>
        rw [hx] at h
        exact ⟨q.1, q.2, rfl, h⟩
  · rintro ⟨a, t, hx, hf⟩
    rw [hx]
    exact hf

namespace Gives

theorem pure {a : α} (h : P a) : Gives (pure a) P := by
  intro s b t hb
  cases hb
  exact h

theorem refuse (r : Refusal) : Gives (refuse r) P := by
  intro s a t h
  cases h

theorem bind (hx : x.Gives P) (hf : ∀ a, P a → (f a).Gives Q) : (x >>= f).Gives Q := by
  intro s b t h
  obtain ⟨a, u, ha, hb⟩ := run_bind_eq_ok.1 h
  exact hf a (hx s a u ha) u b t hb

theorem bind_any (hf : ∀ a, (f a).Gives Q) : (x >>= f).Gives Q :=
  bind (fun _ _ _ _ => True.intro) fun a _ => hf a

theorem map {g : α → β} (hx : x.Gives fun a => Q (g a)) : (g <$> x).Gives Q := by
  rw [map_eq_pure_bind]
  exact hx.bind fun _ ha => .pure ha

theorem mono {P' : α → Prop} (hx : x.Gives P) (h : ∀ a, P a → P' a) : x.Gives P' :=
  fun s a t ha => h a (hx s a t ha)

end Gives

theorem Refuses.bind (h : x.Refuses) (f : α → Reader β) : (x >>= f).Gives Q :=
  Gives.bind h fun _ => False.elim

/-! ### Tokens -/

section

variable {s t : Reading} {m : Sign} {b : Bool}

/-- What the first of some tokens says. -/
def first? (tokens : List Token) : Option Lexeme := tokens.head?.map Token.lexeme

theorem current_of_ok {token : Token} (h : current.run s = .ok (token, t)) :
    t = s ∧ first? s.tokens = some token.lexeme := by
  obtain ⟨u, u', hu, hdone⟩ := run_bind_eq_ok.1 h
  cases hu
  cases hs : s.tokens with
  | nil =>
      rw [hs] at hdone
      cases hdone
  | cons next rest =>
      rw [hs] at hdone
      cases hdone
      exact ⟨rfl, rfl⟩

theorem sees_of_ok (h : (sees m).run s = .ok (b, t)) :
    t = s ∧ b = decide (first? s.tokens = some (.sign m)) := by
  obtain ⟨token, u, hcurrent, hdone⟩ := run_bind_eq_ok.1 h
  obtain ⟨rfl, hfirst⟩ := current_of_ok hcurrent
  cases hdone
  exact ⟨rfl, by simp [hfirst]⟩

theorem advance_of_ok (h : advance.run s = .ok ((), t)) : t.tokens = s.tokens.tail := by
  obtain ⟨u, u', hu, hdone⟩ := run_bind_eq_ok.1 h
  cases hu
  split at hdone
  next first next rest htokens =>
    dsimp only at hdone
    split at hdone
    · cases hdone
    · cases hdone
      rw [htokens]
      rfl
  · cases hdone

theorem accept_of_ok (h : (accept m).run s = .ok (b, t)) :
    b = decide (first? s.tokens = some (.sign m)) ∧ (b = true → t.tokens = s.tokens.tail) ∧
      (b = false → t = s) := by
  obtain ⟨seen, u, hsees, hdone⟩ := run_bind_eq_ok.1 h
  obtain ⟨rfl, hseen⟩ := sees_of_ok hsees
  cases seen with
  | false =>
      cases hdone
      exact ⟨hseen, by simp, fun _ => rfl⟩
  | true =>
      obtain ⟨u', v, hadvance, htrue⟩ := run_bind_eq_ok.1 hdone
      cases htrue
      exact ⟨hseen, fun _ => advance_of_ok hadvance, by simp⟩

theorem name_of_ok {n : String} (h : name.run s = .ok (n, t)) :
    ∃ n, first? s.tokens = some (.name n) := by
  obtain ⟨token, u, hcurrent, hdone⟩ := run_bind_eq_ok.1 h
  obtain ⟨rfl, hfirst⟩ := current_of_ok hcurrent
  cases hlexeme : token.lexeme with
  | name n => exact ⟨n, by rw [hfirst, hlexeme]⟩
  | sign m =>
      rw [hlexeme] at hdone
      cases hdone
  | literal v =>
      rw [hlexeme] at hdone
      cases hdone

end

end Reader

/-! ### Texts -/

namespace Chunk

open Reader

theorem run_of_readTokens {α : Type} {x : Reader α} {tokens : List Token} {a : α}
    (ha : readTokens x tokens = .ok a) : ∃ t, x.run ⟨tokens, 1, 0, [], []⟩ = .ok (a, t) := by
  unfold readTokens at ha
  split at ha
  · cases ha
  · cases hrun : x.run ⟨tokens, 1, 0, [], []⟩ with
    | error e =>
        rw [hrun] at ha
        cases ha
    | ok p =>
        rw [hrun] at ha
        cases ha
        exact ⟨p.2, rfl⟩

/-- A text is read as answers if possible, else as statements. -/
theorem ofText_of_ok {room : Nat} {text : String} {c : Chunk} (h : ofText room text = .ok c) :
    let tokens := Token.ofText text
    let steps := tokens.length + 1
    (∃ r answers, room = r + 1 ∧ readTokens (readAnswers steps r) tokens = .ok answers ∧
        c = ⟨[], answers⟩) ∨
      (∀ r answers, room = r + 1 → readTokens (readAnswers steps r) tokens ≠ .ok answers) ∧
        readTokens (readStatements steps room steps []) tokens = .ok c := by
  intro tokens steps
  cases room with
  | zero => exact .inr ⟨by simp, h⟩
  | succ room =>
      simp only [ofText] at h
      split at h
      · next answers hanswers =>
          cases h
          exact .inl ⟨room, answers, rfl, hanswers, rfl⟩
      · next e hanswers =>
          refine .inr ⟨fun r answers hr hok => ?_, h⟩
          obtain rfl : room = r := Nat.succ.inj hr
          rw [hanswers] at hok
          cases hok

end Chunk

end BuildPlan
