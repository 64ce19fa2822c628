import BlackBull.Gossip.CrdsShards

/-!
# Filters that part the hashes, and shards that answer them

All that filters and shards do with the bits of a hash is said by the number that its first bits are
(`first`): a mask is its first bits followed by ones, and the shards in question are those whose
number begins with them.
-/

namespace BlackBull.Gossip

open CrdsFilter List

variable {x y mask hash : U64} {m n : ℕ}

/-- The first `m` bits. -/
def first (m : ℕ) (x : U64) : ℕ := x.toNat / 2 ^ (64 - m)

lemma first_eq_iff : first m x = first m y ↔ x >>> (64 - m) = y >>> (64 - m) := by
  rw [← BitVec.toNat_inj]
  simp [first, Nat.shiftRight_eq_div_pow]

lemma first_lt (hm : m ≤ 64) (x : U64) : first m x < 2 ^ m := by
  refine Nat.div_lt_of_lt_mul ?_
  rw [← Nat.pow_add, Nat.sub_add_cancel hm]
  exact x.isLt

lemma first_div (h : m ≤ n) (x : U64) : first m x = first n x / 2 ^ (64 - m - (64 - n)) := by
  rw [first, first, Nat.div_div_eq_div_mul, ← Nat.pow_add, Nat.add_sub_cancel' (by omega)]

lemma toNat_checkedShr (hm : m ≤ 64) (x : U64) :
    ((checkedShr x (64 - m)).getD 0).toNat = first m x := by
  unfold checkedShr first
  split_ifs with h
  · simp [Nat.shiftRight_eq_div_pow]
  · obtain rfl : m = 0 := by omega
    simpa using (Nat.div_eq_of_lt x.isLt).symm

lemma toNat_canonicalMask :
    (canonicalMask mask m).toNat = 2 ^ (64 - m) * first m mask + (2 ^ (64 - m) - 1) := by
  have hlsb : (lsbMask m).toNat = 2 ^ (64 - m) - 1 := by
    unfold lsbMask checkedShr
    split_ifs with h
    · rw [Option.getD_some, BitVec.toNat_ushiftRight, BitVec.toNat_allOnes]
      refine Nat.eq_of_testBit_eq fun i => ?_
      simp only [Nat.testBit_shiftRight, Nat.testBit_two_pow_sub_one, decide_eq_decide]
      omega
    · simp [Nat.sub_eq_zero_of_le (Nat.not_lt.1 h)]
  have hlt : 2 ^ (64 - m) - 1 < 2 ^ (64 - m) := Nat.sub_lt (Nat.two_pow_pos _) Nat.one_pos
  refine Nat.eq_of_testBit_eq fun i => ?_
  rw [canonicalMask, BitVec.toNat_or, hlsb, Nat.testBit_two_pow_mul_add _ hlt]
  split_ifs with hi
  · simp [hi]
  · simp [first, Nat.testBit_div_two_pow, Nat.not_lt.1 hi]

lemma first_canonicalMask_succ (h : m ≤ n) : first n (canonicalMask mask m) + 1
    = 2 ^ (64 - m - (64 - n)) * (first m mask + 1) := by
  have hpow : 2 ^ (64 - m) = 2 ^ (64 - n) * 2 ^ (64 - m - (64 - n)) := by
    rw [← Nat.pow_add, Nat.add_sub_cancel' (by omega)]
  have hpos := Nat.two_pow_pos (64 - m - (64 - n))
  have hlast := Nat.mul_sub_div 0 _ _ (hpow ▸ Nat.two_pow_pos _)
  rw [Nat.zero_div] at hlast
  rw [first, toNat_canonicalMask, hpow, Nat.mul_assoc, Nat.mul_add_div (Nat.two_pow_pos _), hlast,
    Nat.mul_add]
  omega

lemma first_canonicalMask : first m (canonicalMask mask m) = first m mask := by
  simpa using @first_canonicalMask_succ mask m m le_rfl

lemma hashMatchesMaskPrefix_iff :
    hashMatchesMaskPrefix mask m hash = true ↔ first m hash = first m mask := by
  rw [hashMatchesMaskPrefix, beq_iff_eq, ← canonicalMask]
  refine ⟨fun h => ?_, fun h => BitVec.eq_of_toNat_eq ?_⟩
  · have hfirst := congrArg (first m) h
    rwa [first_canonicalMask, first_canonicalMask] at hfirst
  · rw [toNat_canonicalMask, toNat_canonicalMask, h]

lemma computeMask_spec {seed : ℕ} (hm : m < 64) (hseed : seed < 2 ^ m) :
    ∃ mask, computeMask (.ofNat 64 seed) m = some mask ∧ first m mask = seed := by
  have hpow : 2 ^ m * 2 ^ (64 - m) = 2 ^ 64 := by rw [← Nat.pow_add, Nat.add_sub_cancel' hm.le]
  have htoNat : (BitVec.ofNat 64 seed).toNat = seed :=
    Nat.mod_eq_of_lt (hseed.trans (Nat.pow_lt_pow_right (by decide) hm))
  refine ⟨canonicalMask ((checkedShl (.ofNat 64 seed) (64 - m)).getD 0) m, ?_, ?_⟩
  · rw [computeMask, if_neg (by omega), canonicalMask, lsbMask, checkedShr, if_pos hm]
    rfl
  · rw [first_canonicalMask, first, checkedShl]
    split_ifs with h
    · rw [Option.getD_some, BitVec.toNat_shiftLeft, htoNat, Nat.shiftLeft_eq, Nat.mod_eq_of_lt,
        Nat.mul_div_cancel _ (Nat.two_pow_pos _)]
      rw [← hpow]
      exact Nat.mul_lt_mul_of_pos_right hseed (Nat.two_pow_pos _)
    · obtain rfl : m = 0 := by omega
      simp [Nat.lt_one_iff.1 hseed]

namespace CrdsShards

variable {bits : ℕ} {pairs : List (ℕ × U64)} {s : CrdsShards}

/-- Each shard has the pairs whose hash begins with its index. -/
structure Holds (bits : ℕ) (pairs : List (ℕ × U64)) (s : CrdsShards) : Prop where
  shardBits : s.shardBits = bits
  shards : s.shards = (range (2 ^ bits)).map fun k => pairs.filter fun e => first bits e.2 = k

namespace Holds

variable (h : Holds bits pairs s) (hbits : bits ≤ 64)

include h hbits

lemma shardIndex (x : U64) : s.shardIndex x = first bits x := by
  rw [CrdsShards.shardIndex, h.shardBits, toNat_checkedShr hbits]

lemma shard (x : U64) : s.shard x = some (pairs.filter fun e => first bits e.2 = first bits x) := by
  rw [CrdsShards.shard, h.shardIndex hbits, h.shards, getElem?_map,
    getElem?_range (first_lt hbits x), Option.map_some]

lemma insert {index : ℕ} (hnew : index ∉ pairs.map Prod.fst) (hash : U64) :
    ∃ s', (s.insert index hash).map Prod.fst = some s'
      ∧ Holds bits (pairs ++ [(index, hash)]) s' := by
  rw [CrdsShards.insert, h.shard hbits, Option.map_some,
    if_neg fun hmem => hnew ((filter_sublist.map _).subset hmem)]
  refine ⟨_, rfl, h.shardBits, ?_⟩
  simp only [h.shards, h.shardIndex hbits]
  refine ext_getElem (by simp) fun k hk hk' => ?_
  simp only [getElem_set]
  split_ifs with hj <;> simp [hj]

lemma insertAll {l : List (ℕ × U64)} (hnodup : ((pairs ++ l).map Prod.fst).Nodup) :
    ∃ s', l.foldlM (fun s entry => (s.insert entry.1 entry.2).map Prod.fst) s = some s'
      ∧ Holds bits (pairs ++ l) s' := by
  induction l generalizing pairs s with
  | nil => exact ⟨s, rfl, by rwa [append_nil]⟩
  | cons entry l ih =>
    have hnew : entry.1 ∉ pairs.map Prod.fst := by
      rw [map_append, map_cons, nodup_middle, nodup_cons] at hnodup
      exact fun hmem => hnodup.1 (mem_append_left _ hmem)
    rw [append_cons] at hnodup ⊢
    obtain ⟨s1, hs1, h1⟩ := h.insert hbits hnew entry.2
    obtain ⟨s2, hs2, h2⟩ := ih h1 hnodup
    refine ⟨s2, ?_, h2⟩
    rw [foldlM_cons, hs1]
    exact hs2

lemma find (hnodup : (pairs.map Prod.fst).Nodup) (mask : U64) (m : ℕ) :
    ∃ found, s.find mask m = some found ∧ found.Nodup
      ∧ ∀ index, index ∈ found ↔ ∃ hash, (index, hash) ∈ pairs ∧ first m hash = first m mask := by
  have hsub (p : ℕ × U64 → Bool) : ((pairs.filter p).map Prod.fst).Nodup :=
    hnodup.sublist (filter_sublist.map _)
  rw [CrdsShards.find, h.shardBits]
  rcases hcmp : compare bits m
  · -- the shard has all values that match, and others
    have hle := (Nat.compare_eq_lt.1 hcmp).le
    have hbegin (x : U64) (hx : first m x = first m mask) :
        first bits x = first bits (canonicalMask mask m) := by
      rw [first_div hle, hx, ← first_canonicalMask, ← first_div hle]
    refine ⟨_, ?_, hsub fun e => hashMatchesMaskPrefix (canonicalMask mask m) m e.2
      && first bits e.2 = first bits (canonicalMask mask m), fun index => ?_⟩
    · rw [h.shard hbits, ← filter_filter, ← filterMap_eq_map]
      exact congrArg some filterMap_filter.symm
    · have hboth (x : U64) := and_iff_left_of_imp (hbegin x)
      simp [hashMatchesMaskPrefix_iff, first_canonicalMask, hboth]
  · obtain rfl := Nat.compare_eq_eq.1 hcmp
    rw [h.shard hbits, first_canonicalMask]
    exact ⟨_, rfl, hsub _, fun index => by simp⟩
  · -- the shards from the first to the last number that begins as the mask does
    have hlt := Nat.compare_eq_gt.1 hcmp
    have hpos := Nat.two_pow_pos (bits - m)
    have hexp : 64 - m - (64 - bits) = bits - m := by omega
    have hlast := @first_canonicalMask_succ mask m bits hlt.le
    rw [hexp] at hlast
    have hle := first_lt hbits (canonicalMask mask m)
    have hslice (f : ℕ → List (ℕ × U64)) (a b : ℕ) (hb : b ≤ 2 ^ bits) :
        ((range (2 ^ bits)).map f).extract a b = (range' a (b - a)).map f :=
      ext_getElem (by simp; omega) fun k hk hk' => by simp
    have hbegin (x : U64) : first m x = first m mask
        ↔ 2 ^ (bits - m) * (first m mask + 1) ≤ first bits x + 2 ^ (bits - m)
          ∧ first bits x < 2 ^ (bits - m) * (first m mask + 1) := by
      rw [first_div hlt.le, hexp, Nat.div_eq_iff hpos, Nat.mul_add_one, Nat.mul_comm]
      omega
    rw [h.shardIndex hbits, hlast, h.shards, if_pos (by
      rw [length_map, length_range]
      exact ⟨Nat.le_mul_of_pos_right _ (Nat.succ_pos _), hlast ▸ hle⟩),
      hslice _ _ _ (hlast ▸ hle), flatMap_map]
    refine ⟨_, rfl, nodup_flatMap.2 ⟨fun k _ => hsub _, ?_⟩, fun index => by simp [hbegin, and_comm]⟩
    refine (nodup_range' ..).imp fun {k k'} hne index hk hk' => ?_
    obtain ⟨e, he, rfl⟩ := mem_map.1 hk
    obtain ⟨e', he', heq⟩ := mem_map.1 hk'
    rw [mem_filter] at he he'
    obtain rfl := inj_on_of_nodup_map hnodup he'.1 he.1 heq
    simp_all

end Holds

end CrdsShards

/-- One of the masks matches a hash, and the filter of that mask is the one the hash is added to. What
is found for a mask are the indices of the hashes that begin as it does, each once. -/
theorem filters_and_shards_exact {maskBits : ℕ} (hmask : maskBits ≤ 63) (hash : U64) :
    (∃ seed < 2 ^ maskBits,
      (∀ seed' < 2 ^ maskBits, ∃ mask, computeMask (.ofNat 64 seed') maskBits = some mask
        ∧ (hashMatchesMaskPrefix mask maskBits hash = true ↔ seed' = seed))
      ∧ ∀ (F : Type) (add : U64 → F → F) (s : CrdsFilterSet F), s.maskBits = maskBits →
        s.filters.length = 2 ^ maskBits →
        s.add add hash = some { s with filters := s.filters.modify seed (Option.map (add hash)) })
    ∧ ∀ shardBits ≤ 16, ∀ pairs : List (ℕ × U64), (pairs.map Prod.fst).Nodup →
      ∃ s, pairs.foldlM (fun s entry => (s.insert entry.1 entry.2).map Prod.fst)
          (CrdsShards.new shardBits) = some s
        ∧ ∀ mask maskBits, ∃ found, s.find mask maskBits = some found ∧ found.Nodup
          ∧ ∀ index, index ∈ found ↔ ∃ hash, (index, hash) ∈ pairs
            ∧ hash >>> (64 - maskBits) = mask >>> (64 - maskBits) := by
  refine ⟨⟨first maskBits hash, first_lt (by omega) hash, fun seed hseed => ?_,
    fun F add s hs hlen => ?_⟩, fun bits hbits pairs hnodup => ?_⟩
  · obtain ⟨mask, hcompute, hfirst⟩ := computeMask_spec (Nat.lt_succ_of_le hmask) hseed
    refine ⟨mask, hcompute, ?_⟩
    rw [hashMatchesMaskPrefix_iff, hfirst, eq_comm]
  · rw [CrdsFilterSet.add, hs, if_neg (by omega), toNat_checkedShr (by omega)]
    exact if_pos (hlen ▸ first_lt (by omega) hash)
  · have hnew : CrdsShards.Holds bits [] (.new bits) := ⟨rfl, by simp [CrdsShards.new]⟩
    obtain ⟨s, hs, h⟩ := hnew.insertAll (by omega) hnodup
    refine ⟨s, hs, fun mask m => ?_⟩
    simp only [← first_eq_iff]
    exact h.find (by omega) hnodup mask m

/-- Masks of two bits, and three hashes of which two begin with the same bit. -/
theorem filters_and_shards_two : (∃ seed < 2 ^ 2, ∀ seed' < 2 ^ 2,
      ∃ mask, computeMask (.ofNat 64 seed') 2 = some mask
        ∧ (hashMatchesMaskPrefix mask 2 (2 ^ 63) = true ↔ seed' = seed))
    ∧ ∃ s, [(0, 2 ^ 63), (1, 5), (2, 2 ^ 63 + 2 ^ 62)].foldlM
          (fun s (entry : ℕ × U64) => (s.insert entry.1 entry.2).map Prod.fst) (CrdsShards.new 4)
        = some s
      ∧ ∃ found, s.find (2 ^ 63) 1 = some found ∧ found.Nodup ∧ 0 ∈ found ∧ 2 ∈ found := by
  obtain ⟨⟨seed, hlt, hseed, -⟩, hshards⟩ :=
    filters_and_shards_exact (show 2 ≤ 63 by decide) (2 ^ 63)
  obtain ⟨s, hs, hfind⟩ := hshards 4 (by decide) [(0, 2 ^ 63), (1, 5), (2, 2 ^ 63 + 2 ^ 62)]
    (by decide)
  obtain ⟨found, hfound, hnodup, hmem⟩ := hfind (2 ^ 63) 1
  exact ⟨⟨seed, hlt, hseed⟩, s, hs, found, hfound, hnodup,
    (hmem 0).2 ⟨_, mem_cons_self, by decide +kernel⟩,
    (hmem 2).2 ⟨2 ^ 63 + 2 ^ 62, by simp, by decide +kernel⟩⟩

end BlackBull.Gossip
