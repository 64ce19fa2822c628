import Mathlib

/-!
# Weights picked from a list

The weight of a list of entries bounds the weight of any entries picked from it, as often as an
entry is picked, and that of any distinct classes of its entries.
-/

namespace BlackBull

variable {α : Type*}

theorem sum_range_getElem? (xs : List α) (w : α → ℕ) :
    ∑ i ∈ Finset.range xs.length, (xs[i]?.map w).getD 0 = (xs.map w).sum := by
  induction xs with
  | nil => rfl
  | cons x xs ih =>
    rw [List.length_cons, Finset.sum_range_succ']
    simp
    omega

theorem sum_picked_le {is : List ℕ} {xs : List α} (w : α → ℕ) {k : ℕ}
    (hcount : ∀ i ∈ is, is.count i ≤ k) (hlt : ∀ i ∈ is, i < xs.length) :
    (is.map fun i => (xs[i]?.map w).getD 0).sum ≤ k * (xs.map w).sum := by
  rw [Finset.sum_list_map_count, ← sum_range_getElem?, Finset.mul_sum]
  refine (Finset.sum_le_sum fun i hi => ?_).trans (Finset.sum_le_sum_of_subset fun i hi => ?_)
  · exact Nat.mul_le_mul_right _ (hcount i (List.mem_toFinset.1 hi))
  · rw [Finset.mem_range]
    exact hlt i (List.mem_toFinset.1 hi)

theorem sum_classes {β : Type*} [DecidableEq β] (f : α → β) (w : α → ℕ) {bs : List β}
    (hnd : bs.Nodup) (xs : List α) : (bs.map fun b => ((xs.filter (f · = b)).map w).sum).sum
      = ((xs.filter (f · ∈ bs)).map w).sum := by
  induction xs with
  | nil => simp
  | cons x xs ih =>
    have hcons : ∀ b, (((x :: xs).filter (f · = b)).map w).sum
        = (if f x = b then w x else 0) + ((xs.filter (f · = b)).map w).sum := by
      intro b
      split_ifs <;> simp_all
    have hone : (bs.map fun b => if f x = b then w x else 0).sum = if f x ∈ bs then w x else 0 := by
      rw [List.sum_map_eq_nsmul_single (f x) _ fun b hb _ => if_neg hb.symm, hnd.count,
        if_pos rfl]
      split_ifs <;> simp
    simp only [hcons, List.sum_map_add, hone, ih]
    by_cases hx : f x ∈ bs <;> simp [hx]

theorem sum_classes_le {β : Type*} [DecidableEq β] (f : α → β) (w : α → ℕ) {bs : List β}
    (hnd : bs.Nodup) (xs : List α) :
    (bs.map fun b => ((xs.filter (f · = b)).map w).sum).sum ≤ (xs.map w).sum := by
  rw [sum_classes f w hnd]
  exact (List.filter_sublist.map w).sum_le_sum fun _ _ => Nat.zero_le _

end BlackBull
