import Mathlib

/-!
# Parallel folds

A parallel fold cuts its items into chunks, folds every chunk from the identity, and joins what the
chunks give in some order.
-/

namespace BlackBull

/-- How a parallel fold cuts its items, and joins what the pieces give. -/
inductive Cut (α : Type)
  | empty
  | chunk (items : List α)
  | join (left right : Cut α)

namespace Cut

variable {α M : Type} {step : M → α → M}

def items : Cut α → List α
  | empty => []
  | chunk as => as
  | join left right => left.items ++ right.items

def fold (identity : M) (step : M → α → M) (combine : M → M → M) : Cut α → M
  | empty => identity
  | chunk as => as.foldl step identity
  | join left right => combine (left.fold identity step combine) (right.fold identity step combine)

/-- The rule of a parallel fold: `P` of the items of a piece and what it gives. -/
theorem fold_induction {identity : M} {combine : M → M → M} {P : List α → M → Prop} (c : Cut α)
    (h0 : P [] identity) (hstep : ∀ as m a, a ∈ c.items → P as m → P (as ++ [a]) (step m a))
    (hjoin : ∀ as m as' m', P as m → P as' m' → P (as ++ as') (combine m m')) :
    P c.items (c.fold identity step combine) := by
  suffices hall : ∀ c' : Cut α, (∀ a ∈ c'.items, a ∈ c.items) →
      P c'.items (c'.fold identity step combine) from hall c fun _ ha => ha
  intro c'
  induction c' with
  | empty => exact fun _ => h0
  | chunk items =>
    intro hmem
    suffices hrest : ∀ rest taken m, (∀ a ∈ rest, a ∈ c.items) → P taken m →
        P (taken ++ rest) (rest.foldl step m) from hrest items [] identity hmem h0
    intro rest
    induction rest with
    | nil =>
      intro taken m _ hm
      rwa [List.append_nil]
    | cons a rest ih =>
      intro taken m hmem hm
      obtain ⟨ha, hmem⟩ := List.forall_mem_cons.1 hmem
      rw [List.append_cons]
      exact ih _ _ hmem (hstep taken m a ha hm)
  | join left right hleft hright =>
    intro hmem
    exact hjoin _ _ _ _ (hleft fun a ha => hmem a (List.mem_append_left _ ha))
      (hright fun a ha => hmem a (List.mem_append_right _ ha))

theorem foldl_eq_sum [AddMonoid M] {f : α → M} (h : ∀ m a, step m a = m + f a) (as : List α) (m : M)
    :
    as.foldl step m = m + (as.map f).sum := by
  induction as generalizing m with
  | nil => exact (add_zero m).symm
  | cons a as ih => rw [List.foldl_cons, ih, h, List.map_cons, List.sum_cons, add_assoc]

theorem fold_eq_sum [AddMonoid M] {f : α → M} (h : ∀ m a, step m a = m + f a) (c : Cut α) :
    c.fold 0 step (· + ·) = (c.items.map f).sum := by
  induction c with
  | empty => rfl
  | chunk as => exact (foldl_eq_sum h as 0).trans (zero_add _)
  | join left right hleft hright =>
    rw [fold, hleft, hright, items, List.map_append, List.sum_append]

end Cut

end BlackBull
