import BlackBull.Runtime.EpochStakes

/-!
# What a rank stands for

The ranks of an epoch are to name the vote accounts one for one, and not to depend on the order in
which a hash map is iterated.
-/

namespace BlackBull.RankMap

open List

variable {A : Type} {decompress : ℕ → Option A} {l : List (BLSPubkeyStakeEntry A × ℕ)}
  {m : BLSPubkeyToRankMap A} {accounts : VoteAccounts}

variable (decompress) in
def VoteAccounts.staked (accounts : VoteAccounts) : List (BLSPubkeyStakeEntry A × ℕ) :=
  accounts.entries.filterMap (stakeEntry decompress)

/-- The ranks below the length of the map are those of the accounts, one for each, the greatest
stakes first, and the entry at a rank is that of its account. -/
structure IsRanking (staked : List (BLSPubkeyStakeEntry A)) (m : BLSPubkeyToRankMap A) : Prop where
  ranked : ∀ v, (∃ rank, m.getRankForVotePubkey v = some rank)
    ↔ ∃ e ∈ staked, e.voteAccountPubkey = v
  lt_len : ∀ rank, (∃ v, m.getRankForVotePubkey v = some rank) ↔ rank < m.len
  injective : ∀ v v' rank, m.getRankForVotePubkey v = some rank →
    m.getRankForVotePubkey v' = some rank → v = v'
  own : ∀ e ∈ staked, ∀ rank, m.getRankForVotePubkey e.voteAccountPubkey = some rank →
    m.getPubkeyStakeEntry rank = some e
  stake_le : ∀ rank rank' e e', m.getPubkeyStakeEntry rank = some e →
    m.getPubkeyStakeEntry rank' = some e' → rank ≤ rank' → e'.stake ≤ e.stake

lemma stakeEntry_eq_some {a : Pubkey × ℕ × VoteAccount} {p : BLSPubkeyStakeEntry A × ℕ}
    (h : stakeEntry decompress a = some p) : p.1.voteAccountPubkey = a.1 := by
  simp only [stakeEntry] at h
  split_ifs at h
  obtain ⟨compressed, -, h⟩ := Option.bind_eq_some_iff.1 h
  obtain ⟨key, -, h⟩ := Option.bind_eq_some_iff.1 h
  cases h
  rfl

lemma nodup_staked (accounts : VoteAccounts) :
    ((accounts.staked decompress).map (·.1.voteAccountPubkey)).Nodup := by
  refine List.Nodup.sublist ?_ accounts.nodup
  unfold VoteAccounts.staked
  induction accounts.entries with
  | nil => exact List.Sublist.refl _
  | cons a entries ih =>
    cases h : stakeEntry decompress a with
    | none =>
      rw [filterMap_cons_none h]
      exact ih.cons _
    | some p =>
      rw [filterMap_cons_some h, map_cons, map_cons, stakeEntry_eq_some h]
      exact ih.cons_cons _

namespace BLSPubkeyToRankMap

lemma ofSorted_concat (l : List (BLSPubkeyStakeEntry A × ℕ)) (p : BLSPubkeyStakeEntry A × ℕ) :
    ofSorted (l ++ [p]) = (ofSorted l).push (p, l.length) := by
  simp [ofSorted, zipIdx_append]

lemma sortedPubkeys_ofSorted (l : List (BLSPubkeyStakeEntry A × ℕ)) :
    (ofSorted l).sortedPubkeys = l.map (·.1) := by
  induction l using reverseRecOn with
  | nil => rfl
  | append_singleton l p ih => rw [ofSorted_concat, push, ih, map_append, map_singleton]

lemma len_ofSorted (l : List (BLSPubkeyStakeEntry A × ℕ)) :
    (ofSorted l).len = (l.map (·.2)).dedup.length := by
  have hmem : ∀ k, k ∈ (ofSorted l).rankMap.keys ↔ k ∈ l.map (·.2) := by
    intro k
    rw [OrdMap.mem_keys]
    induction l using reverseRecOn with
    | nil => exact iff_of_false nofun nofun
    | append_singleton l p ih =>
      simp only [ofSorted_concat, push, OrdMap.get?_insert, map_append, mem_append, ← ih,
        map_singleton, mem_singleton]
      split_ifs with hk
      · exact iff_of_true ⟨_, rfl⟩ (.inr hk.symm)
      · exact ⟨.inl, fun h => h.resolve_right (Ne.symm hk)⟩
  have hperm := (perm_ext_iff_of_nodup (OrdMap.keys_nodup _) (nodup_dedup _)).2
    fun k => (hmem k).trans mem_dedup.symm
  rw [← hperm.length_eq]
  exact (length_map _).symm

lemma getRank_ofSorted (h : (l.map (·.1.voteAccountPubkey)).Nodup) (v : Pubkey) (rank : ℕ) :
    (ofSorted l).getRankForVotePubkey v = some rank
      ↔ ∃ p ∈ l.zipIdx, p.1.1.voteAccountPubkey = v ∧ p.2 % 2 ^ 16 = rank := by
  induction l using reverseRecOn with
  | nil => exact iff_of_false nofun (by simp)
  | append_singleton l p ih =>
    rw [map_append, nodup_append] at h
    obtain ⟨hl, -, hnew⟩ := h
    rw [ofSorted_concat, zipIdx_append]
    simp only [push, getRankForVotePubkey, OrdMap.get?_insert, mem_append, or_and_right,
      exists_or]
    split_ifs with hv
    · have hold : ¬ ∃ q ∈ l.zipIdx, q.1.1.voteAccountPubkey = v ∧ q.2 % 2 ^ 16 = rank := by
        rintro ⟨q, hq, hqv, -⟩
        exact hnew _ (mem_map_of_mem (fst_mem_of_mem_zipIdx hq)) _ mem_cons_self
          (hqv.trans hv.symm)
      rw [or_iff_right hold]
      simp [hv]
    · rw [← getRankForVotePubkey, ih hl]
      simp [hv]

lemma getRank_ofSorted_of_length_le (h : (l.map (·.1.voteAccountPubkey)).Nodup)
    (hlen : l.length ≤ 2 ^ 16) (v : Pubkey) (rank : ℕ) :
    (ofSorted l).getRankForVotePubkey v = some rank
      ↔ ∃ p, l[rank]? = some p ∧ p.1.voteAccountPubkey = v := by
  rw [getRank_ofSorted h]
  constructor
  · rintro ⟨⟨p, i⟩, hp, hv, hrank⟩
    rw [mem_zipIdx_iff_getElem?] at hp
    have hlt := (List.getElem?_eq_some_iff.1 hp).1
    rw [Nat.mod_eq_of_lt (hlt.trans_le hlen)] at hrank
    exact ⟨p, hrank ▸ hp, hv⟩
  · rintro ⟨p, hp, hv⟩
    have hlt := (List.getElem?_eq_some_iff.1 hp).1
    exact ⟨(p, rank), mem_zipIdx_iff_getElem?.2 hp, hv, Nat.mod_eq_of_lt (hlt.trans_le hlen)⟩

lemma isRanking_ofSorted (hnodup : (l.map (·.1.voteAccountPubkey)).Nodup)
    (hsorted : l.Pairwise fun a b => rankLe a b) (hkeys : (l.map (·.2)).Nodup)
    (hlen : l.length ≤ 2 ^ 16) : IsRanking (l.map (·.1)) (ofSorted l) := by
  have hget := getRank_ofSorted_of_length_le hnodup hlen
  have hentry : ∀ rank, (ofSorted l).getPubkeyStakeEntry rank = (l.map (·.1))[rank]? := fun rank => by
    rw [getPubkeyStakeEntry, sortedPubkeys_ofSorted]
  constructor
  · intro v
    simp only [hget]
    constructor
    · rintro ⟨rank, p, hp, hv⟩
      exact ⟨p.1, mem_map_of_mem (mem_of_getElem? hp), hv⟩
    · rintro ⟨e, he, hv⟩
      obtain ⟨p, hp, rfl⟩ := mem_map.1 he
      obtain ⟨rank, hrank⟩ := mem_iff_getElem?.1 hp
      exact ⟨rank, p, hrank, hv⟩
  · intro rank
    rw [len_ofSorted, hkeys.dedup, length_map]
    simp only [hget]
    refine ⟨fun ⟨v, p, hp, _⟩ => (List.getElem?_eq_some_iff.1 hp).1, fun hlt => ?_⟩
    exact ⟨_, _, getElem?_eq_getElem hlt, rfl⟩
  · intro v v' rank h h'
    obtain ⟨p, hp, rfl⟩ := (hget _ _).1 h
    obtain ⟨p', hp', rfl⟩ := (hget _ _).1 h'
    cases hp.symm.trans hp'
    rfl
  · intro e he rank hrank
    obtain ⟨p, hp, hpv⟩ := (hget _ _).1 hrank
    obtain ⟨q, hq, rfl⟩ := mem_map.1 he
    obtain rfl := inj_on_of_nodup_map hnodup (mem_of_getElem? hp) hq hpv
    rw [hentry, getElem?_map, hp, Option.map_some]
  · intro rank rank' e e' he he' hle
    rw [hentry, getElem?_map, Option.map_eq_some_iff] at he he'
    obtain ⟨p, hp, rfl⟩ := he
    obtain ⟨p', hp', rfl⟩ := he'
    rcases hle.eq_or_lt with rfl | hlt
    · cases hp.symm.trans hp'
      exact le_rfl
    · obtain ⟨hi, rfl⟩ := List.getElem?_eq_some_iff.1 hp
      obtain ⟨hi', rfl⟩ := List.getElem?_eq_some_iff.1 hp'
      have := pairwise_iff_getElem.1 hsorted rank rank' hi hi' hlt
      simp only [rankLe, decide_eq_true_eq] at this
      omega

end BLSPubkeyToRankMap

open BLSPubkeyToRankMap

lemma rankLe_trans (a b c : BLSPubkeyStakeEntry A × ℕ) (hab : rankLe a b) (hbc : rankLe b c) :
    rankLe a c := by
  simp only [rankLe, decide_eq_true_eq] at *
  omega

lemma rankLe_total (a b : BLSPubkeyStakeEntry A × ℕ) : rankLe a b || rankLe b a := by
  simp only [rankLe, Bool.or_eq_true, decide_eq_true_eq]
  omega

lemma mergeSort_eq_of_perm {l' : List (BLSPubkeyStakeEntry A × ℕ)} (hkeys : (l.map (·.2)).Nodup)
    (hperm : l'.Perm l) : l'.mergeSort rankLe = l.mergeSort rankLe := by
  refine List.Perm.eq_of_pairwise ?_ (pairwise_mergeSort rankLe_trans rankLe_total l')
    (pairwise_mergeSort rankLe_trans rankLe_total l) ?_
  · intro a b ha hb hab hba
    simp only [rankLe, decide_eq_true_eq] at hab hba
    exact inj_on_of_nodup_map hkeys (hperm.subset (mem_mergeSort.1 ha))
      (mem_mergeSort.1 hb) (by omega)
  · exact (mergeSort_perm l' _).trans (hperm.trans (mergeSort_perm l _).symm)

/-- Ranks are those of the accounts, and do not depend on the order of iteration, just if no key is
shared and no rank is cut off. -/
theorem rankMap_exact_iff (decompress : ℕ → Option A) (accounts : VoteAccounts) :
    ((∀ accounts' : VoteAccounts, accounts'.entries.Perm accounts.entries →
        new decompress accounts' = new decompress accounts)
      ∧ IsRanking ((accounts.staked decompress).map (·.1)) (new decompress accounts))
      ↔ ((accounts.staked decompress).map (·.2)).Nodup
        ∧ (accounts.staked decompress).length ≤ 2 ^ 16 := by
  have hperm : ((accounts.staked decompress).mergeSort rankLe).Perm (accounts.staked decompress) :=
    mergeSort_perm _ _
  have hnodup := (hperm.map (·.1.voteAccountPubkey)).nodup_iff.2 (nodup_staked accounts)
  rw [← (hperm.map (·.2)).nodup_iff, ← hperm.length_eq]
  generalize hl : (accounts.staked decompress).mergeSort rankLe = l at hperm hnodup
  have hnew : new decompress accounts = ofSorted l := congrArg ofSorted hl
  rw [hnew]
  refine ⟨fun ⟨_, h⟩ => ?_, fun ⟨hkeys, hlen⟩ => ⟨fun accounts' h => ?_, ?_⟩⟩
  · have hrank : ∀ i, ∀ hi : i < l.length, (ofSorted l).getRankForVotePubkey
        (l[i].1.voteAccountPubkey) = some (i % 2 ^ 16) := fun i hi =>
      (getRank_ofSorted hnodup _ _).2
        ⟨(l[i], i), mem_zipIdx_iff_getElem?.2 (getElem?_eq_getElem hi), rfl, rfl⟩
    have hlen : l.length ≤ 2 ^ 16 := by
      -- the ranks of the first account and of the one after the last number are the same
      by_contra hlt
      have heq := h.injective _ _ 0 (hrank 0 (by omega)) (hrank (2 ^ 16) (by omega))
      have := (pairwise_iff_getElem.1 hnodup) 0 (2 ^ 16) (by simp; omega) (by simp; omega)
        (by decide)
      simp only [getElem_map] at this
      exact this heq
    refine ⟨?_, hlen⟩
    have hle : l.length ≤ (l.map (·.2)).dedup.length := by
      rcases Nat.eq_zero_or_pos l.length with hzero | hpos
      · omega
      · have hlast := (h.lt_len _).1 ⟨_, hrank (l.length - 1) (by omega)⟩
        rw [len_ofSorted] at hlast
        omega
    rw [← dedup_eq_self]
    exact (dedup_sublist _).eq_of_length_le (by rwa [length_map])
  · rw [new, mergeSort_eq_of_perm ((hperm.map (·.2)).nodup_iff.1 hkeys) (h.filterMap _)]
    exact hnew
  · have hsorted : l.Pairwise fun a b => rankLe a b :=
      hl ▸ pairwise_mergeSort rankLe_trans rankLe_total _
    have hrank := isRanking_ofSorted hnodup hsorted hkeys hlen
    have hmem : ∀ e, e ∈ (accounts.staked decompress).map (·.1) ↔ e ∈ l.map (·.1) :=
      fun e => (hperm.map (·.1)).mem_iff.symm
    exact { hrank with
      ranked := fun v => (hrank.ranked v).trans (by simp only [hmem])
      own := fun e he => hrank.own e ((hmem e).1 he) }

def sharedKey (first second : Pubkey) (h : first ≠ second) : VoteAccounts where
  entries := [(first, 5, ⟨first, some 9⟩), (second, 5, ⟨second, some 9⟩)]
  nodup := by simp [h]

lemma new_sharedKey {first second : Pubkey} (h : first ≠ second) :
    new some (sharedKey first second h)
      = ofSorted [(⟨first, first, 9, 5⟩, 9), (⟨second, second, 9, 5⟩, 9)] :=
  congrArg ofSorted (mergeSort_of_pairwise (by simp [sharedKey, stakeEntry, rankLe]))

/-- The order of iteration decides which of two accounts has rank 0, and the other rank is not below
the length. -/
theorem sharedKey_ranks :
    (sharedKey 1 2 (by decide)).entries.Perm (sharedKey 2 1 (by decide)).entries
    ∧ (new some (sharedKey 1 2 (by decide))).getRankForVotePubkey 1 = some 0
    ∧ (new some (sharedKey 2 1 (by decide))).getRankForVotePubkey 1 = some 1
    ∧ (new some (sharedKey 2 1 (by decide))).len = 1 := by
  rw [new_sharedKey, new_sharedKey]
  exact ⟨List.Perm.swap _ _ _, rfl, rfl, rfl⟩

end BlackBull.RankMap
