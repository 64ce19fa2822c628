import Mathlib

/-!
# Merkle trees

Trees that are built level by level: neighbours are joined, and a last node without a neighbour is
joined with itself.
-/

namespace BlackBull.Merkle

open List

variable {α : Type} {join : α → α → α} {as : List α} {k : ℕ} {a b : α}

def pairUp (join : α → α → α) : List α → List α
  | [] => []
  | [a] => [join a a]
  | a :: b :: rest => join a b :: pairUp join rest

theorem length_pairUp (as : List α) : (pairUp join as).length = (as.length + 1) / 2 := by
  induction as using pairUp.induct with
  | case1 => simp [pairUp]
  | case2 a => simp [pairUp]
  | case3 a b rest ih =>
    simp only [pairUp, length_cons]
    omega

theorem getElem?_pairUp (as : List α) (i : ℕ) :
    (pairUp join as)[i]? = as[2 * i]?.map fun a => join a (as[2 * i + 1]?.getD a) := by
  induction as using pairUp.induct generalizing i with
  | case1 => rfl
  | case2 a =>
    cases i with
    | zero => rfl
    | succ i => rfl
  | case3 a b rest ih =>
    cases i with
    | zero => rfl
    | succ i =>
      rw [pairUp, getElem?_cons_succ, ih]
      rfl

/-- A node and its sibling, which is the node itself where it has none, are joined above. -/
theorem exists_sibling {i : ℕ} (h : as[i]? = some a) :
    ∃ b, as[min (i ^^^ 1) (as.length - 1)]? = some b
      ∧ (pairUp join as)[i / 2]? = some (if i % 2 = 0 then join a b else join b a) := by
  have hlt := (List.getElem?_eq_some_iff.1 h).1
  rw [getElem?_pairUp]
  rcases Nat.even_or_odd' i with ⟨q, rfl | rfl⟩
  · rw [Nat.xor_one_of_even (even_two_mul q), show 2 * q / 2 = q by omega, h]
    by_cases hlast : 2 * q + 1 < as.length
    · rw [Nat.min_eq_left (by omega), getElem?_eq_getElem hlast]
      exact ⟨_, rfl, by simp⟩
    · rw [show min (2 * q + 1) (as.length - 1) = 2 * q by omega, h, getElem?_eq_none (by omega)]
      exact ⟨a, rfl, by simp⟩
  · rw [Nat.xor_one_of_odd (odd_two_mul_add_one q), show (2 * q + 1) / 2 = q by omega, h,
      show min (2 * q + 1 - 1) (as.length - 1) = 2 * q by omega,
      getElem?_eq_getElem (show 2 * q < as.length by omega)]
    exact ⟨_, rfl, by simp⟩

/-- Levels are built alike on what a function keeps of the nodes. -/
theorem map_iterate_pairUp {γ : Type} {join' : γ → γ → γ} {f : α → γ}
    (hf : ∀ a b, f (join a b) = join' (f a) (f b)) (k : ℕ) (as : List α) :
    ((pairUp join)^[k] as).map f = (pairUp join')^[k] (as.map f) := by
  have hone (as : List α) : (pairUp join as).map f = pairUp join' (as.map f) := by
    induction as using pairUp.induct with
    | case1 => rfl
    | case2 a => simp [pairUp, hf]
    | case3 a b rest ih => simp [pairUp, hf, ih]
  induction k generalizing as with
  | zero => rfl
  | succ k ih => rw [Function.iterate_succ_apply, Function.iterate_succ_apply, ih, hone]

/-- The node that climbs from `a` at index `i` past the siblings of a proof. -/
def climb (join : α → α → α) : ℕ → α → List α → α
  | _, a, [] => a
  | i, a, sibling :: proof =>
    climb join (i / 2) (if i % 2 = 0 then join a sibling else join sibling a) proof

theorem climb_append (i : ℕ) (a : α) (p q : List α) :
    climb join i a (p ++ q) = climb join (i / 2 ^ p.length) (climb join i a p) q := by
  induction p generalizing i a with
  | nil => rw [nil_append, length_nil, Nat.pow_zero, Nat.div_one, climb]
  | cons sibling p ih =>
    rw [cons_append, climb, climb, ih, length_cons, Nat.div_div_eq_div_mul, Nat.pow_succ']

/-- What climbs to the root in as many steps as the tree is high is a leaf. It stands at the given
index, or before it where the index is that of a copy. -/
theorem exists_of_climb (hjoin : Function.Injective2 join) {proof : List α} {root : α} {i : ℕ}
    (hroot : (pairUp join)^[proof.length] as = [root]) (hclimb : climb join i a proof = root)
    (hi : i < 2 ^ proof.length) :
    ∃ pos, as[pos]? = some a ∧ pos ≤ i ∧ (i < as.length → pos = i) := by
  induction proof generalizing as a i with
  | nil =>
    rw [length_nil, Function.iterate_zero_apply] at hroot
    rw [length_nil] at hi
    exact ⟨0, by rw [hroot, ← hclimb]; rfl, Nat.zero_le _, fun _ => by omega⟩
  | cons sibling proof ih =>
    rw [length_cons] at hi
    obtain ⟨pos, hpos, hle, heq⟩ := ih hroot hclimb (by omega)
    rw [getElem?_pairUp, Option.map_eq_some_iff] at hpos
    obtain ⟨b, hb, hjoined⟩ := hpos
    rw [length_pairUp] at heq
    split_ifs at hjoined with heven
    · exact ⟨2 * pos, by rw [hb, (hjoin hjoined).1], by omega, fun hlt => by omega⟩
    · obtain ⟨-, hright⟩ := hjoin hjoined
      -- the right child, or the left one where it has been joined with itself
      cases hc : as[2 * pos + 1]? with
      | some c =>
        rw [hc, Option.getD_some] at hright
        exact ⟨2 * pos + 1, by rw [hc, hright], by omega, fun hlt => by omega⟩
      | none =>
        rw [hc, Option.getD_none] at hright
        have hlen := getElem?_eq_none_iff.1 hc
        exact ⟨2 * pos, by rw [hb, hright], by omega, fun hlt => by omega⟩

inductive Under (join : α → α → α) : ℕ → α → α → Prop
  | here (a : α) : Under join 0 a a
  | left {k : ℕ} {a b : α} (c : α) (h : Under join k a b) : Under join (k + 1) a (join b c)
  | right {k : ℕ} {a b : α} (c : α) (h : Under join k a b) : Under join (k + 1) a (join c b)

theorem Under.trans {l : ℕ} {c : α} (h : Under join k a b) (h' : Under join l b c) :
    Under join (k + l) a c := by
  induction h' with
  | here => exact h
  | left c h' ih => exact (ih h).left c
  | right c h' ih => exact (ih h).right c

theorem under_climb (i : ℕ) (a : α) (proof : List α) :
    Under join proof.length a (climb join i a proof) := by
  induction proof generalizing i a with
  | nil => exact .here a
  | cons sibling proof ih =>
    have hone : Under join 1 a (if i % 2 = 0 then join a sibling else join sibling a) := by
      split_ifs
      · exact (Under.here a).left sibling
      · exact (Under.here a).right sibling
    rw [length_cons, Nat.add_comm]
    exact hone.trans (ih _ _)

theorem exists_under (h : b ∈ (pairUp join)^[k] as) : ∃ a ∈ as, Under join k a b := by
  induction k generalizing as with
  | zero => exact ⟨b, h, .here b⟩
  | succ k ih =>
    obtain ⟨a', ha', hunder⟩ := ih h
    obtain ⟨i, hi⟩ := mem_iff_getElem?.1 ha'
    rw [getElem?_pairUp, Option.map_eq_some_iff] at hi
    obtain ⟨a, ha, rfl⟩ := hi
    refine ⟨a, mem_iff_getElem?.2 ⟨_, ha⟩, ?_⟩
    rw [Nat.add_comm]
    exact ((Under.here a).left _).trans hunder

theorem Under.exists_join (h : Under join k a b) (hk : 0 < k) : ∃ c d, b = join c d := by
  cases h with
  | here => exact absurd hk (Nat.lt_irrefl 0)
  | left c h | right c h => exact ⟨_, _, rfl⟩

/-- What neither stands under a leaf nor over one climbs to the root in as many steps as the tree is
high, if it does at all. -/
theorem length_of_climb (hjoin : Function.Injective2 join) {d i : ℕ} {proof : List α} {root : α}
    (hroot : (pairUp join)^[d] as = [root]) (hclimb : climb join i a proof = root)
    (hi : i < 2 ^ proof.length) (hover : ∀ b ∈ as, ∀ k, 0 < k → ¬ Under join k b a)
    (hunder : ∀ b ∈ as, ∀ k, 0 < k → ¬ Under join k a b) : proof.length = d := by
  rcases Nat.lt_trichotomy proof.length d with hlt | heq | hgt
  · have hsplit : d = proof.length + (d - proof.length) := by omega
    rw [hsplit, Function.iterate_add_apply] at hroot
    obtain ⟨pos, hpos, -⟩ := exists_of_climb hjoin hroot hclimb hi
    obtain ⟨b, hb, hba⟩ := exists_under (mem_iff_getElem?.2 ⟨_, hpos⟩)
    exact absurd hba (hover b hb _ (by omega))
  · exact heq
  · have hsplit : proof.take (proof.length - d) ++ proof.drop (proof.length - d) = proof :=
      take_append_drop _ _
    have hdrop : (proof.drop (proof.length - d)).length = d := by
      rw [length_drop]
      omega
    have htake : (proof.take (proof.length - d)).length = proof.length - d := by
      rw [length_take]
      omega
    rw [← hsplit, climb_append, htake] at hclimb
    rw [← hdrop] at hroot
    obtain ⟨pos, hpos, -⟩ := exists_of_climb hjoin hroot hclimb (by
      rw [hdrop, Nat.div_lt_iff_lt_mul (Nat.two_pow_pos _), ← Nat.pow_add]
      rwa [show d + (proof.length - d) = proof.length by omega])
    have hab := @under_climb _ join i a (proof.take (proof.length - d))
    exact absurd hab (hunder _ (mem_iff_getElem?.2 ⟨_, hpos⟩) _ (by omega))

/-- The root of a tree of height `k` with leaves on its lowest level only. -/
inductive Perfect (join : α → α → α) (leaf : α → Prop) : ℕ → α → Prop
  | leaf {a : α} (h : leaf a) : Perfect join leaf 0 a
  | node {k : ℕ} {a b : α} (ha : Perfect join leaf k a) (hb : Perfect join leaf k b) :
    Perfect join leaf (k + 1) (join a b)

variable {leaf : α → Prop}

theorem perfect_pairUp (h : ∀ a ∈ as, Perfect join leaf k a) :
    ∀ b ∈ pairUp join as, Perfect join leaf (k + 1) b := by
  intro b hb
  obtain ⟨i, hi⟩ := mem_iff_getElem?.1 hb
  rw [getElem?_pairUp, Option.map_eq_some_iff] at hi
  obtain ⟨a, ha, rfl⟩ := hi
  have hleft := h a (mem_iff_getElem?.2 ⟨_, ha⟩)
  refine .node hleft ?_
  cases hc : as[2 * i + 1]? with
  | none => exact hleft
  | some c => exact h c (mem_iff_getElem?.2 ⟨_, hc⟩)

theorem perfect_iterate {m : ℕ} (h : ∀ a ∈ as, Perfect join leaf k a) :
    ∀ b ∈ (pairUp join)^[m] as, Perfect join leaf (k + m) b := by
  induction m generalizing k as with
  | zero => exact h
  | succ m ih =>
    intro b hb
    rw [show k + (m + 1) = k + 1 + m by omega]
    exact ih (perfect_pairUp h) b hb

section Height

variable (hjoin : Function.Injective2 join) (hleaf : ∀ a b, ¬ leaf (join a b))

include hjoin hleaf

theorem Perfect.of_join (h : Perfect join leaf k (join a b)) :
    ∃ k', k = k' + 1 ∧ Perfect join leaf k' a ∧ Perfect join leaf k' b := by
  generalize hc : join a b = c at h
  cases h with
  | leaf h => exact absurd (hc ▸ h) (hleaf a b)
  | @node k' a' b' ha hb =>
    obtain ⟨rfl, rfl⟩ := hjoin hc
    exact ⟨k', rfl, ha, hb⟩

theorem Perfect.under {h : ℕ} (hb : Perfect join leaf h b) (hunder : Under join k a b) :
    ∃ h', h = h' + k ∧ Perfect join leaf h' a := by
  induction hunder generalizing h with
  | here => exact ⟨h, rfl, hb⟩
  | left c hunder ih =>
    obtain ⟨h1, rfl, hleft, -⟩ := hb.of_join hjoin hleaf
    obtain ⟨h', rfl, ha⟩ := ih hleft
    exact ⟨h', rfl, ha⟩
  | right c hunder ih =>
    obtain ⟨h1, rfl, -, hright⟩ := hb.of_join hjoin hleaf
    obtain ⟨h', rfl, ha⟩ := ih hright
    exact ⟨h', rfl, ha⟩

theorem Perfect.height_unique {h h' : ℕ} (ha : Perfect join leaf h a) (ha' : Perfect join leaf h' a)
    : h = h' := by
  induction ha generalizing h' with
  | leaf hl =>
    cases ha' with
    | leaf => rfl
    | node ha hb => exact absurd hl (hleaf _ _)
  | node ha hb iha ihb =>
    obtain ⟨k', rfl, ha', -⟩ := ha'.of_join hjoin hleaf
    rw [iha ha']

end Height

end BlackBull.Merkle
