import Mathlib

/-!
# Orders that differ by independent steps

Two lists of steps are the same trace if one is got from the other by exchanging neighbours that are
independent.
-/

namespace BlackBull

variable {α β : Type} {indep : α → α → Prop}

inductive TraceEq (indep : α → α → Prop) : List α → List α → Prop
  | nil : TraceEq indep [] []
  | cons (x : α) {l l' : List α} : TraceEq indep l l' → TraceEq indep (x :: l) (x :: l')
  | swap {x y : α} (l : List α) : indep x y → TraceEq indep (x :: y :: l) (y :: x :: l)
  | trans {l₁ l₂ l₃ : List α} : TraceEq indep l₁ l₂ → TraceEq indep l₂ l₃ → TraceEq indep l₁ l₃

namespace TraceEq

variable {l l' : List α} {x : α}

@[refl] theorem refl : ∀ l : List α, TraceEq indep l l
  | [] => .nil
  | x :: l => .cons x (refl l)

theorem append_left (l0 : List α) (h : TraceEq indep l l') : TraceEq indep (l0 ++ l) (l0 ++ l') := by
  induction l0 with
  | nil => exact h
  | cons y l0 ih => exact .cons y ih

theorem append_right (h : TraceEq indep l l') (r : List α) : TraceEq indep (l ++ r) (l' ++ r) := by
  induction h with
  | nil => exact refl r
  | cons y _ ih => exact .cons y ih
  | swap l h => exact .swap (l ++ r) h
  | trans _ _ ih1 ih2 => exact ih1.trans ih2

/-- What is left of a trace when steps are left out is the same in every order of it. -/
theorem exists_sublist (h : TraceEq indep l l') : ∀ {k : List α}, k.Sublist l →
    ∃ k', k'.Sublist l' ∧ TraceEq indep k k' := by
  induction h with
  | nil => exact fun {k} hk => ⟨k, hk, refl k⟩
  | cons x _ ih =>
    intro k hk
    rcases List.sublist_cons_iff.1 hk with h1 | ⟨k1, rfl, h1⟩
    · obtain ⟨k', hk', he⟩ := ih h1
      exact ⟨k', hk'.cons x, he⟩
    · obtain ⟨k', hk', he⟩ := ih h1
      exact ⟨x :: k', hk'.cons_cons x, he.cons x⟩
  | @swap x y l hxy =>
    intro k hk
    rcases List.sublist_cons_iff.1 hk with h1 | ⟨k1, rfl, h1⟩
    · rcases List.sublist_cons_iff.1 h1 with h2 | ⟨k2, rfl, h2⟩
      · exact ⟨k, (h2.cons x).cons y, refl k⟩
      · exact ⟨y :: k2, (h2.cons x).cons_cons y, refl _⟩
    · rcases List.sublist_cons_iff.1 h1 with h2 | ⟨k2, rfl, h2⟩
      · exact ⟨x :: k1, (h2.cons_cons x).cons y, refl _⟩
      · exact ⟨y :: x :: k2, (h2.cons_cons x).cons_cons y, .swap k2 hxy⟩
  | trans _ _ ih1 ih2 =>
    intro k hk
    obtain ⟨k1, hk1, he1⟩ := ih1 hk
    obtain ⟨k2, hk2, he2⟩ := ih2 hk1
    exact ⟨k2, hk2, he1.trans he2⟩

/-- Where independent steps commute, the orders of a trace have the same effect. -/
theorem foldl_eq {f : β → α → β} (hf : ∀ x y, indep x y → ∀ b, f (f b x) y = f (f b y) x)
    (h : TraceEq indep l l') (b : β) : l.foldl f b = l'.foldl f b := by
  induction h generalizing b with
  | nil => rfl
  | cons x _ ih => exact ih (f b x)
  | @swap x y l hxy =>
    show l.foldl f (f (f b x) y) = l.foldl f (f (f b y) x)
    rw [hf x y hxy]
  | trans _ _ ih1 ih2 => exact (ih1 b).trans (ih2 b)

theorem perm (h : TraceEq indep l l') : l.Perm l' := by
  induction h with
  | nil => exact .refl _
  | cons x _ ih => exact ih.cons x
  | swap l _ => exact .swap _ _ l
  | trans _ _ ih1 ih2 => exact ih1.trans ih2

end TraceEq

end BlackBull
