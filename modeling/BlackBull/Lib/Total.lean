import Mathlib

/-!
# Sums over all keys

`total f` is the sum of the values that `f` gives to the keys of a finite type.
-/

namespace BlackBull

open Function

variable {K M : Type}

noncomputable def total [AddCommMonoid M] (f : K → M) : M := ∑ᶠ k, f k

theorem total_eq_sum [Fintype K] [AddCommMonoid M] (f : K → M) : total f = ∑ k, f k :=
  finsum_eq_sum_of_fintype f

section Update

variable [DecidableEq K]

def updates (f : K → M) (kms : List (K × M)) : K → M :=
  kms.foldl (fun f km => update f km.1 km.2) f

variable [Finite K] [AddCommMonoid M]

theorem total_update (f : K → M) (k : K) (m : M) :
    total (update f k m) + f k = total f + m := by
  cases nonempty_fintype K
  rw [total_eq_sum, total_eq_sum, Finset.sum_update_of_mem (Finset.mem_univ k),
    Finset.sdiff_singleton_eq_erase, ← Finset.add_sum_erase Finset.univ f (Finset.mem_univ k)]
  abel

theorem total_updates {kms : List (K × M)} (h : (kms.map Prod.fst).Nodup) (f : K → M) :
    total (updates f kms) + (kms.map fun km => f km.1).sum
      = total f + (kms.map Prod.snd).sum := by
  induction kms generalizing f with
  | nil => rfl
  | cons km kms ih =>
    obtain ⟨hkm, hkms⟩ := List.nodup_cons.1 h
    have hsame : (kms.map fun km' => update f km.1 km.2 km'.1)
        = kms.map fun km' => f km'.1 := by
      refine List.map_congr_left fun km' hkm' => update_of_ne ?_ _ _
      rintro hk
      exact hkm (hk ▸ List.mem_map_of_mem hkm')
    have hih := ih hkms (update f km.1 km.2)
    rw [hsame] at hih
    have hupd := total_update f km.1 km.2
    calc total (updates (update f km.1 km.2) kms) + (f km.1 + (kms.map fun km => f km.1).sum)
        = total (updates (update f km.1 km.2) kms) + (kms.map fun km => f km.1).sum
          + f km.1 := by abel
      _ = total (update f km.1 km.2) + f km.1 + (kms.map Prod.snd).sum := by
          rw [hih]
          abel
      _ = total f + (km.2 + (kms.map Prod.snd).sum) := by
          rw [hupd]
          abel

end Update

theorem total_sub_total [Finite K] [AddCommGroup M] {f g : K → M} {keys : List K} (hkeys : keys.Nodup)
    (h : ∀ k, k ∉ keys → g k = f k) :
    total g - total f = (keys.map fun k => g k - f k).sum := by
  classical
  cases nonempty_fintype K
  rw [total_eq_sum, total_eq_sum, ← Finset.sum_sub_distrib, ← List.sum_toFinset _ hkeys]
  symm
  refine Finset.sum_subset (Finset.subset_univ _) fun k _ hk => ?_
  rw [h k fun hmem => hk (List.mem_toFinset.2 hmem), sub_self]

theorem apply_le_total [Finite K] (f : K → ℕ) (k : K) : f k ≤ total f := by
  cases nonempty_fintype K
  rw [total_eq_sum]
  exact Finset.single_le_sum (f := f) (fun _ _ => Nat.zero_le _) (Finset.mem_univ k)

end BlackBull
