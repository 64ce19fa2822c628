import BlackBull.Lib.Weight
import BlackBull.Votor.Ballots

/-!
# The vote pools hold the ballots

Adding a vote to a pool that holds some ballots gives one that holds that vote too, if it is fresh,
and changes nothing otherwise (`Holds.addVote`).
-/

namespace BlackBull

open List DuplicateBlockVotePool VoteMessage

variable {stakes : ℕ → EpochStakes} {l l' : List VoteMessage} {m : VoteMessage} {ty : VoteType}
  {slot : ℕ} {blockId : Option Hash}

@[simp] lemma stakeOf_nil : stakeOf stakes [] = 0 := rfl

@[simp] lemma stakeOf_append : stakeOf stakes (l ++ l') = stakeOf stakes l + stakeOf stakes l' := by
  simp [stakeOf]

@[simp] lemma stakeOf_cons : stakeOf stakes (m :: l) = m.stake stakes + stakeOf stakes l := by
  simp [stakeOf]

lemma stakeOf_perm (h : l.Perm l') : stakeOf stakes l = stakeOf stakes l' :=
  (h.map _).sum_eq

lemma mem_ofType : m ∈ ofType slot ty l ↔ m ∈ l ∧ m.vote.slot = slot ∧ m.vote.getType = ty := by
  simp [ofType]

lemma ofType_append : ofType slot ty (l ++ l') = ofType slot ty l ++ ofType slot ty l' := by
  simp [ofType]

lemma ofType_singleton :
    ofType slot ty [m] = if m.vote.slot = slot ∧ m.vote.getType = ty then [m] else [] := by
  simp [ofType, filter_cons]

lemma ofType_filter_slot {rootSlot : ℕ} : ofType slot ty (l.filter fun m => rootSlot ≤ m.vote.slot)
    = if rootSlot ≤ slot then ofType slot ty l else [] := by
  unfold ofType
  rw [filter_filter]
  split_ifs with hs
  · refine filter_congr fun m _ => ?_
    by_cases hm : m.vote.slot = slot
    · simp [hm, hs]
    · simp [hm]
  · refine filter_eq_nil_iff.2 fun m _ => ?_
    simp
    omega

lemma mem_counted : m ∈ counted ty blockId l
    ↔ m ∈ l ∧ (ty.byBlock = true → m.vote.blockId = blockId) := by
  unfold counted
  split_ifs with h <;> simp [h]

lemma counted_sublist : (counted ty blockId l).Sublist l := by
  unfold counted
  split_ifs
  · exact filter_sublist
  · exact List.Sublist.refl _

lemma counted_append :
    counted ty blockId (l ++ l') = counted ty blockId l ++ counted ty blockId l' := by
  unfold counted
  split_ifs <;> simp

lemma Vote.blockId_isSome {v : Vote} (h : v.getType.byBlock = true) : v.blockId.isSome := by
  cases v <;> simp_all [Vote.getType, Vote.blockId, VoteType.byBlock]

lemma stakeOf_le_mul (hslot : ∀ m ∈ l, m.vote.slot = slot)
    (hentry : ∀ m ∈ l, (m.entry stakes).isSome) {k : ℕ}
    (hcount : ∀ key, (l.map (·.key stakes)).count key ≤ k) :
    stakeOf stakes l ≤ k * (stakes slot).totalStake := by
  refine le_trans ?_ (Nat.mul_le_mul_left k (stakes slot).sum_le)
  have hstake : stakeOf stakes l = ((l.map (·.rank)).map fun r =>
      (((stakes slot).sortedPubkeys[r]?).map (·.stake)).getD 0).sum := by
    rw [map_map]
    refine congrArg sum (map_congr_left fun m hm => ?_)
    simp [stake, entry, hslot m hm]
  rw [hstake]
  refine sum_picked_le _ (fun r _ => ?_) fun r hr => ?_
  · -- the rank of a vote of this slot determines its key
    refine le_trans ?_ (hcount ((((stakes slot).sortedPubkeys[r]?).map
      (·.voteAccountPubkey)).getD 0))
    rw [count, countP_map, count, countP_map]
    refine countP_mono_left fun m hm hr => ?_
    simp at hr ⊢
    rw [← hr, key, entry, hslot m hm]
  · obtain ⟨m, hm, rfl⟩ := mem_map.1 hr
    have := hentry m hm
    rw [entry, hslot m hm] at this
    simpa using this

lemma stakeOf_le_totalStake (hslot : ∀ m ∈ l, m.vote.slot = slot)
    (hentry : ∀ m ∈ l, (m.entry stakes).isSome) (hnd : (l.map (·.key stakes)).Nodup) :
    stakeOf stakes l ≤ (stakes slot).totalStake := by
  simpa using stakeOf_le_mul hslot hentry (nodup_iff_count_le_one.1 hnd)

lemma holds_newVotePool (ty : VoteType) : Holds stakes ty [] (newVotePool ty) := by
  cases ty <;> simp [newVotePool, Holds, VoteType.byBlock, VoteType.maxEntries]

lemma saturatingAdd_eq {a b : ℕ} (h : a + b ≤ u64Max) : saturatingAdd a b = a + b := by
  rw [saturatingAdd, Nat.min_eq_left h]

/-- The pool takes a fresh vote and tells the stake it makes up, and no other. -/
def AddsFresh (stakes : ℕ → EpochStakes) (l : List VoteMessage) (m : VoteMessage) (pool : VotePool) :
    Prop :=
  (Fresh stakes l m → ∃ pool', pool.addVote (m.key stakes) (m.stake stakes) m = .ok (pool',
        some (stakeOf stakes (counted m.vote.getType m.vote.blockId (l ++ [m]))))
      ∧ Holds stakes m.vote.getType (l ++ [m]) pool')
    ∧ (¬ Fresh stakes l m → ∃ pool', pool.addVote (m.key stakes) (m.stake stakes) m
        = .ok (pool', none) ∧ Holds stakes m.vote.getType l pool')

section AddsFresh

variable (hle : Fresh stakes l m →
  stakeOf stakes (counted m.vote.getType m.vote.blockId (l ++ [m])) ≤ u64Max)
include hle

lemma addsFresh_simple {q : SimpleVotePool} (h : Holds stakes m.vote.getType l (.simple q)) :
    AddsFresh stakes l m (.simple q) := by
  obtain ⟨hb, rfl⟩ := h
  have hcounted : ∀ l', counted m.vote.getType m.vote.blockId l' = l' := by
    simp [counted, hb]
  have hfresh : Fresh stakes l m ↔ m.key stakes ∉ l.map (·.key stakes) := by
    simp [Fresh, hb, hcounted]
  unfold AddsFresh
  rw [hcounted] at hle ⊢
  refine ⟨fun hf => ?_, fun hf => ?_⟩
  · have hsum := hle hf
    simp at hsum
    refine ⟨.simple ⟨l ++ [m], stakeOf stakes (l ++ [m]),
      ((l ++ [m]).map (·.key stakes)).reverse⟩, ?_, hb, rfl⟩
    rw [hfresh] at hf
    simp only [VotePool.addVote, SimpleVotePool.addVote, mem_reverse, if_neg hf,
      saturatingAdd_eq hsum]
    simp
  · rw [hfresh, not_not] at hf
    refine ⟨.simple ⟨l, stakeOf stakes l, (l.map (·.key stakes)).reverse⟩, ?_, hb, rfl⟩
    simp only [VotePool.addVote, SimpleVotePool.addVote, mem_reverse, if_pos hf]

lemma addsFresh_duplicateBlock {q : DuplicateBlockVotePool}
    (h : Holds stakes m.vote.getType l (.duplicateBlock q))
    (hl : ∀ m' ∈ l, m'.vote.getType = m.vote.getType) : AddsFresh stakes l m (.duplicateBlock q) := by
  obtain ⟨hb, hmax, hentries, hprev⟩ := h
  obtain ⟨b, hblock⟩ : ∃ b, m.vote.blockId = some b :=
    Option.isSome_iff_exists.1 (Vote.blockId_isSome hb)
  have hcounted : ∀ l', counted m.vote.getType m.vote.blockId l'
      = l'.filter fun m' => m'.vote.blockId = some b := by
    simp [counted, hb, hblock]
  set votes := l.filter fun m' => m'.vote.blockId = some b with hvotes
  set prev := (l.filter fun m' => m'.key stakes = m.key stakes).filterMap (·.vote.blockId)
    with hprevdef
  have hget : (q.prevVotedBlockIds.get? (m.key stakes)).getD [] = prev.reverse := by
    rw [hprev]
    simp only [← hprevdef]
    split_ifs with hnil
    · simp [hnil]
    · rfl
  have hentry : (q.voteEntries.get? b).getD {} = ⟨votes, stakeOf stakes votes⟩ := by
    rw [hentries]
    simp only [← hvotes]
    split_ifs with hnil
    · simp [hnil]
    · rfl
  have hlen : prev.length = (l.filter fun m' => m'.key stakes = m.key stakes).length := by
    rw [length_filterMap_eq_countP, countP_eq_length]
    refine fun m' hm' => Vote.blockId_isSome ?_
    rw [hl m' (mem_of_mem_filter hm')]
    exact hb
  have hmem : m.key stakes ∈ (counted m.vote.getType m.vote.blockId l).map (·.key stakes)
      ↔ b ∈ prev := by
    rw [hcounted]
    simp only [hprevdef, mem_map, mem_filter, mem_filterMap, decide_eq_true_eq]
    exact exists_congr fun m' => and_right_comm
  have hfresh : Fresh stakes l m ↔ ¬ (b ∈ prev.reverse ∨ q.maxEntriesPerPubkey
      ≤ prev.reverse.length) := by
    rw [Fresh, hmem, length_reverse, hlen, hmax]
    simp [hb]
  unfold AddsFresh
  rw [hcounted] at hle ⊢
  have hsnoc : ((l ++ [m]).filter fun m' => m'.vote.blockId = some b) = votes ++ [m] := by
    simp [hblock, hvotes]
  rw [hsnoc] at hle ⊢
  refine ⟨fun hf => ?_, fun hf => ?_⟩
  · have hsum := hle hf
    simp at hsum ⊢
    rw [hfresh] at hf
    refine ⟨.duplicateBlock ⟨q.maxEntriesPerPubkey,
      q.voteEntries.insert b ⟨votes ++ [m], stakeOf stakes votes + m.stake stakes⟩,
      q.prevVotedBlockIds.insert (m.key stakes) (b :: prev.reverse)⟩, ?_, hb, hmax, fun b' => ?_,
      fun k => ?_⟩
    · simp only [VotePool.addVote, addVote, hblock, hget, if_neg hf,
        hentry, saturatingAdd_eq hsum]
      rfl
    · by_cases hbb : b = b'
      · subst hbb
        simp only [hsnoc]
        simp
      · simp only [OrdMap.get?_insert_ne _ hbb, hentries, filter_append, hblock,
          filter_cons, Option.some.injEq, hbb, decide_false, filter_nil, append_nil,
          Bool.false_eq_true, if_false]
    · by_cases hk : m.key stakes = k
      · subst hk
        simp [hblock, ← hprevdef]
      · simp only [OrdMap.get?_insert_ne _ hk, hprev, filter_append, filter_cons, hk,
          decide_false, filter_nil, append_nil, Bool.false_eq_true, if_false]
  · rw [hfresh, not_not] at hf
    refine ⟨.duplicateBlock ⟨q.maxEntriesPerPubkey, q.voteEntries,
      q.prevVotedBlockIds.insert (m.key stakes) prev.reverse⟩, ?_, hb, hmax, hentries,
      fun k => ?_⟩
    · simp only [VotePool.addVote, addVote, hblock, hget, if_pos hf]
      rfl
    · by_cases hk : m.key stakes = k
      · subst hk
        simp only [OrdMap.get?_insert_self, ← hprevdef]
        -- a vote is turned down only where the validator has voted before
        rw [if_neg]
        intro hnil
        have hmax1 : 1 ≤ m.vote.getType.maxEntries := by cases m.vote.getType <;> decide
        rw [hnil] at hf
        simp at hf
        omega
      · simp only [OrdMap.get?_insert_ne _ hk, hprev]

theorem Holds.addsFresh {pool : VotePool} (h : Holds stakes m.vote.getType l pool)
    (hl : ∀ m' ∈ l, m'.vote.getType = m.vote.getType) : AddsFresh stakes l m pool := by
  cases pool with
  | simple q => exact addsFresh_simple hle h
  | duplicateBlock q => exact addsFresh_duplicateBlock hle h hl

end AddsFresh

lemma isConflicting_iff {pool : VotePool} {key : Pubkey} (h : Holds stakes ty l pool)
    (hl : ∀ m ∈ l, m.vote.getType = ty) :
    ConsensusPool.isConflicting key blockId pool = true ↔ ∃ m ∈ l, m.key stakes = key
      ∧ (ty.byBlock = true → blockId = none ∨ m.vote.blockId = blockId) := by
  cases pool with
  | simple q =>
    obtain ⟨hb, rfl⟩ := h
    simp [ConsensusPool.isConflicting, SimpleVotePool.hasPrevValidatorVote, hb]
  | duplicateBlock q =>
    obtain ⟨hb, -, -, hprev⟩ := h
    set prev := (l.filter fun m => m.key stakes = key).filterMap (·.vote.blockId) with hprevdef
    have hmem : ∀ b, b ∈ prev ↔ ∃ m ∈ l, m.key stakes = key ∧ m.vote.blockId = some b := by
      intro b
      simp only [hprevdef, mem_filterMap, mem_filter, decide_eq_true_eq, and_assoc]
    have hget : q.prevVotedBlockIds.get? key = if prev = [] then none else some prev.reverse :=
      hprev key
    simp only [ConsensusPool.isConflicting, hb, true_implies]
    cases blockId with
    | none =>
      simp only [hasPrevValidatorVote, OrdMap.contains, hget]
      split_ifs with hnil
      · simp
        intro m hm hkey
        obtain ⟨b, hbm⟩ := Option.isSome_iff_exists.1 (Vote.blockId_isSome (hl m hm ▸ hb))
        have := (hmem b).2 ⟨m, hm, hkey, hbm⟩
        simp [hnil] at this
      · simp
        obtain ⟨b, hb⟩ := exists_mem_of_ne_nil _ hnil
        obtain ⟨m, hm, hkey, -⟩ := (hmem b).1 hb
        exact ⟨m, hm, hkey⟩
    | some b =>
      simp only [hasPrevValidatorVoteForBlock, hget, reduceCtorEq, false_or,
        ← hmem]
      split_ifs with hnil
      · simp [hnil]
      · simp

lemma Ballots.nil : Ballots stakes [] := ⟨by simp, by simp, by simp [ofType]⟩

lemma Ballots.sublist (h : Ballots stakes l) (hl : l'.Sublist l) : Ballots stakes l' where
  entry m hm := h.entry m (hl.subset hm)
  pairwise := h.pairwise.sublist hl
  maxEntries slot ty key hb :=
    ((hl.filter _).filter _).length_le.trans (h.maxEntries slot ty key hb)

lemma Ballots.compatible (h : Ballots stakes l) {m1 m2 : VoteMessage} (h1 : m1 ∈ l) (h2 : m2 ∈ l)
    (hne : m1 ≠ m2) (hslot : m1.vote.slot = m2.vote.slot) (hkey : m1.key stakes = m2.key stakes) :
    ¬ ConflictsWith m1.vote.getType m1.vote.blockId m2.vote
      ∨ ¬ ConflictsWith m2.vote.getType m2.vote.blockId m1.vote := by
  let R := fun a b : VoteMessage => a.vote.slot = b.vote.slot → a.key stakes = b.key stakes →
    ¬ ConflictsWith a.vote.getType a.vote.blockId b.vote
      ∨ ¬ ConflictsWith b.vote.getType b.vote.blockId a.vote
  have : Std.Symm R := ⟨fun _ _ hab hs hk => (hab hs.symm hk.symm).symm⟩
  have hR : l.Pairwise R := h.pairwise.imp fun hab hs hk => .inr (hab hs hk).1
  exact hR.forall h1 h2 hne hslot hkey

lemma Ballots.nodup_counted (h : Ballots stakes l) :
    ((counted ty blockId (ofType slot ty l)).map (·.key stakes)).Nodup := by
  rw [List.Nodup, pairwise_map]
  refine (h.pairwise.sublist (counted_sublist.trans filter_sublist)).imp_of_mem ?_
  intro m1 m2 h1 h2 hR hkey
  obtain ⟨h1, hb1⟩ := mem_counted.1 h1
  obtain ⟨h2, hb2⟩ := mem_counted.1 h2
  obtain ⟨-, hs1, ht1⟩ := mem_ofType.1 h1
  obtain ⟨-, hs2, ht2⟩ := mem_ofType.1 h2
  refine (hR (hs1.trans hs2.symm) hkey).2 ⟨ht1.trans ht2.symm, fun hb => ?_⟩
  rw [ht1] at hb
  rw [hb1 hb, hb2 hb]

lemma Ballots.stakeOf_counted_le (h : Ballots stakes l) :
    stakeOf stakes (counted ty blockId (ofType slot ty l)) ≤ (stakes slot).totalStake := by
  refine stakeOf_le_totalStake (fun m hm => ?_) (fun m hm => ?_) h.nodup_counted
  · exact (mem_ofType.1 (mem_counted.1 hm).1).2.1
  · exact h.entry m (mem_ofType.1 (mem_counted.1 hm).1).1

lemma Ballots.snoc (h : Ballots stakes l) (hentry : (m.entry stakes).isSome)
    (hconf : ∀ m' ∈ l, m'.vote.slot = m.vote.slot → m'.key stakes = m.key stakes →
      ¬ ConflictsWith m.vote.getType m.vote.blockId m'.vote)
    (hfresh : Fresh stakes (ofType m.vote.slot m.vote.getType l) m) : Ballots stakes (l ++ [m]) := by
  refine ⟨fun m' hm' => ?_, ?_, fun slot ty key hb => ?_⟩
  · rcases mem_append.1 hm' with hm' | hm'
    · exact h.entry m' hm'
    · rw [mem_singleton.1 hm']
      exact hentry
  · refine pairwise_append.2 ⟨h.pairwise, pairwise_singleton _ _, fun m' hm' m'' hm'' => ?_⟩
    rw [mem_singleton.1 hm'']
    intro hslot hkey
    refine ⟨hconf m' hm' hslot hkey, fun ⟨hty, hblock⟩ => hfresh.1 (mem_map.2 ⟨m', ?_, hkey⟩)⟩
    exact mem_counted.2 ⟨mem_ofType.2 ⟨hm', hslot, hty⟩, fun hb => hblock (hty ▸ hb)⟩
  · rw [ofType_append, ofType_singleton]
    by_cases hst : m.vote.slot = slot ∧ m.vote.getType = ty
    · obtain ⟨rfl, rfl⟩ := hst
      by_cases hk : m.key stakes = key
      · subst hk
        have := hfresh.2 hb
        simp
        omega
      · simpa [hk] using h.maxEntries m.vote.slot m.vote.getType key hb
    · simpa [hst] using h.maxEntries slot ty key hb

lemma mem_certVotes {certType : CertificateType} : m ∈ certVotes certType blockId l
    ↔ m ∈ l ∧ m.vote.slot = certType.slot ∧ m.vote.getType ∈ certType.limitsAndVoteTypes.2
      ∧ (m.vote.getType.byBlock = true → m.vote.blockId = blockId) := by
  simp only [certVotes, mem_flatMap, mem_counted, mem_ofType]
  constructor
  · rintro ⟨ty, hty, ⟨hm, hs, rfl⟩, hb⟩
    exact ⟨hm, hs, hty, hb⟩
  · rintro ⟨hm, hs, hty, hb⟩
    exact ⟨_, hty, ⟨hm, hs, rfl⟩, hb⟩

lemma Ballots.nodup_certVotes (h : Ballots stakes l) (certType : CertificateType) :
    ((certVotes certType blockId l).map (·.key stakes)).Nodup := by
  have two : ∀ (slot : ℕ) (ty0 ty1 : VoteType), ty0 ≠ ty1 → ty0.byBlock = ty1.byBlock →
      ty0 ∈ conflictingTypes ty1 → ty1 ∈ conflictingTypes ty0 →
      ((counted ty0 blockId (ofType slot ty0 l) ++ counted ty1 blockId (ofType slot ty1 l)).map
        (·.key stakes)).Nodup := by
    intro slot ty0 ty1 hne hb h01 h10
    rw [map_append]
    refine h.nodup_counted.append h.nodup_counted ?_
    rintro k hk0 hk1
    obtain ⟨m0, hm0, rfl⟩ := mem_map.1 hk0
    obtain ⟨m1, hm1, hkey⟩ := mem_map.1 hk1
    obtain ⟨hm0, hb0⟩ := mem_counted.1 hm0
    obtain ⟨hm1, hb1⟩ := mem_counted.1 hm1
    obtain ⟨hl0, hs0, rfl⟩ := mem_ofType.1 hm0
    obtain ⟨hl1, hs1, rfl⟩ := mem_ofType.1 hm1
    have hblock : m0.vote.getType.byBlock = true → m0.vote.blockId = m1.vote.blockId := by
      intro hb'
      rw [hb0 hb', hb1 (hb ▸ hb')]
    rcases h.compatible hl0 hl1 (fun e => hne (e ▸ rfl)) (hs0.trans hs1.symm) hkey.symm with hc | hc
    · exact hc ⟨h10, fun hb' => .inr (hblock (hb.trans hb')).symm⟩
    · exact hc ⟨h01, fun hb' => .inr (hblock hb')⟩
  cases certType <;>
    simp only [certVotes, CertificateType.limitsAndVoteTypes, flatMap_cons, flatMap_nil,
      append_nil] <;>
    first
    | exact h.nodup_counted
    | refine two _ _ _ ?_ ?_ ?_ ?_ <;> decide

lemma Ballots.nodup_ranks (h : Ballots stakes l) (certType : CertificateType) :
    ((certVotes certType blockId l).map (·.rank)).Nodup := by
  -- within the slot the rank says who voted
  let keyOf (rank : ℕ) : Pubkey :=
    ((stakes certType.slot).sortedPubkeys[rank]?.map (·.voteAccountPubkey)).getD 0
  refine List.Nodup.of_map keyOf ?_
  have hkeys : ((certVotes certType blockId l).map (·.rank)).map keyOf
      = (certVotes certType blockId l).map (·.key stakes) := by
    rw [map_map]
    refine map_congr_left fun m hm => ?_
    simp only [Function.comp_apply, keyOf, VoteMessage.key, VoteMessage.entry,
      (mem_certVotes.1 hm).2.1]
  rw [hkeys]
  exact h.nodup_certVotes certType

end BlackBull
