import BlackBull.Proofs.Standstill
import BlackBull.Votor.VoteOrder

/-!
# Order independence

A pool counts each of the compatible votes once, whatever their order, and what it completes and
tells is a matter of the votes counted so far. The exception is the Genesis certificate, which takes
the votes for all blocks of the slot.
-/

namespace BlackBull

open List CertificateType

variable {stakes : ℕ → EpochStakes} {rootBank : RootBank} {slot s : ℕ}
  {votes l l' : List VoteMessage} {m m' : VoteMessage} {certType : CertificateType} {me : Pubkey}
  {b : Hash} {trace : List (PoolOp × PoolReply)} {res : Except AddVoteError (List Certificate)}
  {bs : List Hash} {v : Vote} {skip : Bool}

/-! ## Compatible votes -/

lemma rank_eq_of_key_eq (hm : (m.entry stakes).isSome) (hm' : (m'.entry stakes).isSome)
    (hslot : m.vote.slot = m'.vote.slot) (h : m.key stakes = m'.key stakes) : m.rank = m'.rank := by
  obtain ⟨e, he⟩ := Option.isSome_iff_exists.1 hm
  obtain ⟨e', he'⟩ := Option.isSome_iff_exists.1 hm'
  have hk : e.voteAccountPubkey = e'.voteAccountPubkey := by
    simpa [VoteMessage.key, he, he'] using h
  unfold VoteMessage.entry at he he'
  rw [← hslot] at he'
  refine (getElem?_inj ?_ (stakes m.vote.slot).nodup).1 ?_
  · rw [length_map]
    exact (List.getElem?_eq_some_iff.1 he).1
  · rw [getElem?_map, getElem?_map, he, he', Option.map_some, Option.map_some, hk]

lemma Vote.eq_of_getType {v' : Vote} (hslot : v.slot = v'.slot) (hty : v.getType = v'.getType)
    (hb : v.blockId = v'.blockId) : v = v' := by
  cases v <;> cases v' <;> simp_all [Vote.slot, Vote.getType, Vote.blockId]

lemma VoteMessage.ext_of (hslot : m.vote.slot = m'.vote.slot)
    (hty : m.vote.getType = m'.vote.getType) (hb : m.vote.blockId = m'.vote.blockId)
    (hrank : m.rank = m'.rank) : m = m' := by
  cases m
  simp only at hslot hty hb hrank
  rw [Vote.eq_of_getType hslot hty hb, hrank]

lemma VoteType.maxEntries_of_not_byBlock {ty : VoteType} (h : ty.byBlock = false) :
    ty.maxEntries = 1 := by
  cases ty <;> first | rfl | cases h

lemma Compatible.length_lt (h : Compatible slot votes) (hm : m ∈ votes) (hl : l.Nodup) (hnot : m ∉ l)
    (hsub : ∀ m' ∈ l, m' ∈ votes ∧ m'.rank = m.rank ∧ m'.vote.getType = m.vote.getType) :
    l.length < m.vote.getType.maxEntries := by
  refine lt_of_lt_of_le ?_ (h.maxEntries m hm)
  have hnd : (m :: l).Nodup := nodup_cons.2 ⟨hnot, hl⟩
  refine (hnd.subperm fun m' hm' => ?_).length_le
  rw [mem_dedup, mem_filter, decide_eq_true_eq]
  rcases mem_cons.1 hm' with rfl | hm'
  · exact ⟨hm, rfl, rfl⟩
  · exact hsub m' hm'

lemma Compatible.eq_of_maxEntries (h : Compatible slot votes) (hm : m ∈ votes) (hm' : m' ∈ votes)
    (hrank : m'.rank = m.rank) (hty : m'.vote.getType = m.vote.getType)
    (hone : m.vote.getType.maxEntries = 1) : m = m' := by
  by_contra hne
  have hlt := h.length_lt hm (nodup_singleton m') (by simpa using hne) (by
    intro m'' hm''
    rw [mem_singleton.1 hm'']
    exact ⟨hm', hrank, hty⟩)
  rw [hone] at hlt
  exact absurd hlt (lt_irrefl 1)

lemma Compatible.fresh_iff (h : Compatible slot votes)
    (hsub : ∀ m' ∈ l, m' ∈ votes ∧ (m'.entry stakes).isSome) (hl : l.Nodup) (hm : m ∈ votes)
    (hentry : (m.entry stakes).isSome) :
    Fresh stakes (ofType m.vote.slot m.vote.getType l) m ↔ m ∉ l := by
  have hrank : ∀ m' ∈ l, m'.key stakes = m.key stakes → m'.rank = m.rank := by
    intro m' hm' hkey
    refine rank_eq_of_key_eq (hsub m' hm').2 hentry ?_ hkey
    rw [h.slot_eq m hm, h.slot_eq m' (hsub m' hm').1]
  refine ⟨fun hf hmem => hf.1 ?_, fun hnot => ⟨fun hkey => ?_, fun _ => ?_⟩⟩
  · exact mem_map.2 ⟨m, mem_counted.2 ⟨mem_ofType.2 ⟨hmem, rfl, rfl⟩, fun _ => rfl⟩, rfl⟩
  · obtain ⟨m', hm', hkey⟩ := mem_map.1 hkey
    obtain ⟨hof, hblock⟩ := mem_counted.1 hm'
    obtain ⟨hl', hslot, hty⟩ := mem_ofType.1 hof
    cases hb : m.vote.getType.byBlock with
    | true => exact hnot (VoteMessage.ext_of hslot hty (hblock hb) (hrank m' hl' hkey) ▸ hl')
    | false => exact hnot (h.eq_of_maxEntries hm (hsub m' hl').1 (hrank m' hl' hkey) hty
        (VoteType.maxEntries_of_not_byBlock hb) ▸ hl')
  · refine h.length_lt hm ((hl.filter _).filter _) (fun hmem => ?_) fun m' hm' => ?_
    · exact hnot (mem_ofType.1 (mem_of_mem_filter hmem)).1
    · obtain ⟨hof, hkey⟩ := mem_filter.1 hm'
      obtain ⟨hm', -, hty⟩ := mem_ofType.1 hof
      exact ⟨(hsub m' hm').1, hrank m' hm' (of_decide_eq_true hkey), hty⟩

/-! ## Permuted ballots -/

lemma counted_perm {ty : VoteType} {blockId : Option Hash} (h : l.Perm l') :
    (counted ty blockId (ofType slot ty l)).Perm (counted ty blockId (ofType slot ty l')) := by
  unfold counted
  split_ifs
  · exact (h.filter _).filter _
  · exact h.filter _

lemma certified_perm (h : l.Perm l') : Certified stakes l certType ↔ Certified stakes l' certType := by
  have hperm : (certVotes certType (certType.toBlock.map (·.2)) l).Perm
      (certVotes certType (certType.toBlock.map (·.2)) l') :=
    List.Perm.flatMap_left _ fun ty _ => counted_perm h
  unfold Certified
  rw [stakeOf_perm hperm]

lemma conflictsWith_of_isFirst {v' : Vote} (h : v.IsFirst) (h' : v'.IsFirst)
    (hne : v.getType ≠ v'.getType) : ConflictsWith v.getType v.blockId v' := by
  cases v <;> cases v' <;> simp_all [Vote.IsFirst, Vote.getType, Vote.blockId, ConflictsWith,
    conflictingTypes, VoteType.byBlock]

lemma Ballots.first_unique (h : Ballots stakes l) (hm : m ∈ l) (hm' : m' ∈ l)
    (hslot : m.vote.slot = m'.vote.slot) (hkey : m.key stakes = m'.key stakes)
    (hfirst : m.vote.IsFirst) (hfirst' : m'.vote.IsFirst) : m = m' := by
  by_contra hne
  by_cases hty : m.vote.getType = m'.vote.getType
  · have hone : m.vote.getType.maxEntries = 1 := by
      rcases hfirst with ht | ht <;> rw [ht] <;> rfl
    have hnd := @Ballots.nodup_ofType stakes l m.vote.slot _ h hone
    exact hne (inj_on_of_nodup_map hnd (mem_ofType.2 ⟨hm, rfl, rfl⟩)
      (mem_ofType.2 ⟨hm', hslot.symm, hty.symm⟩) hkey)
  · rcases h.compatible hm hm' hne hslot hkey with hc | hc
    · exact hc (conflictsWith_of_isFirst hfirst hfirst' hty)
    · exact hc (conflictsWith_of_isFirst hfirst' hfirst (Ne.symm hty))

lemma Ballots.firstVote_perm (h : Ballots stakes l) (hperm : l.Perm l') :
    firstVote stakes me slot l = firstVote stakes me slot l' := by
  unfold firstVote
  cases hf : l.find? _ with
  | none =>
    rw [find?_eq_none] at hf
    rw [find?_eq_none.2 fun m hm => hf m (hperm.mem_iff.2 hm)]
  | some m =>
    have hm := mem_of_find?_eq_some hf
    have hp := find?_some hf
    cases hf' : l'.find? _ with
    | none => exact absurd hp (find?_eq_none.1 hf' m (hperm.mem_iff.1 hm))
    | some m' =>
      have hm' := hperm.mem_iff.2 (mem_of_find?_eq_some hf')
      have hp' := find?_some hf'
      rw [decide_eq_true_eq] at hp hp'
      rw [h.first_unique hm hm' (hp.2.1.trans hp'.2.1.symm) (hp.1.trans hp'.1.symm) hp.2.2 hp'.2.2]

lemma Ballots.safeToNotar_perm (h : Ballots stakes l) (hperm : l.Perm l') :
    SafeToNotar stakes me slot b l ↔ SafeToNotar stakes me slot b l' := by
  have hn : (notarizeVotes slot b l).Perm (notarizeVotes slot b l') := counted_perm hperm
  have hs : (ofType slot .skip l).Perm (ofType slot .skip l') := hperm.filter _
  unfold SafeToNotar
  rw [h.firstVote_perm hperm, stakeOf_perm hn, stakeOf_perm hs]
  rw [ne_eq, ne_eq, ← length_eq_zero_iff, ← length_eq_zero_iff, hn.length_eq]

lemma Ballots.safeToSkip_perm (h : Ballots stakes l) (hperm : l.Perm l') :
    SafeToSkip stakes me slot l ↔ SafeToSkip stakes me slot l' := by
  have hty : ∀ ty, stakeOf stakes (ofType slot ty l) = stakeOf stakes (ofType slot ty l') :=
    fun ty => stakeOf_perm (hperm.filter _)
  have hn : ∀ b, stakeOf stakes (notarizeVotes slot b l) = stakeOf stakes (notarizeVotes slot b l') :=
    fun b => stakeOf_perm (counted_perm hperm)
  unfold SafeToSkip
  simp only [h.firstVote_perm hperm, hty, hn]

/-! ## The certificates of the ballots -/

def Voted (l : List VoteMessage) (certType : CertificateType) : Prop :=
  ∃ m ∈ l, certType ∈ voteToCertTypes m.vote

lemma voted_snoc : Voted (l ++ [m]) certType ↔ Voted l certType ∨ certType ∈ voteToCertTypes m.vote := by
  simp [Voted, or_and_right, exists_or]

lemma slot_of_voted (hl : ∀ m ∈ l, m.vote.slot = slot) (h : Voted l certType) :
    certType.slot = slot := by
  obtain ⟨m, hm, hmem⟩ := h
  rw [ConsensusPool.slot_of_mem_voteToCertTypes hmem, hl m hm]

lemma mem_voteToCertTypes_of_mem_certVotes
    (h : m ∈ certVotes certType (certType.toBlock.map (·.2)) l) :
    certType ∈ voteToCertTypes m.vote
      ∨ m.vote.getType = .genesis ∧ ∃ b, certType = .genesis m.vote.slot b := by
  obtain ⟨-, hslot, hty, hb⟩ := mem_certVotes.1 h
  obtain ⟨v, rank⟩ := m
  cases certType <;> cases v <;>
    simp_all [limitsAndVoteTypes, Vote.getType, slot, Vote.slot,
      Vote.blockId, toBlock, voteToCertTypes, VoteType.byBlock]

lemma certVotes_snoc {blockId : Option Hash} (h : m ∉ certVotes certType blockId [m]) :
    stakeOf stakes (certVotes certType blockId (l ++ [m]))
      = stakeOf stakes (certVotes certType blockId l) := by
  have hnil : certVotes certType blockId [m] = [] := by
    refine eq_nil_iff_forall_not_mem.2 fun m' hm' => ?_
    obtain rfl := mem_singleton.1 (mem_certVotes.1 hm').1
    exact h hm'
  have happ : ∀ types : List VoteType, stakeOf stakes (types.flatMap fun ty =>
        counted ty blockId (ofType certType.slot ty (l ++ [m])))
      = stakeOf stakes (types.flatMap fun ty => counted ty blockId (ofType certType.slot ty l))
        + stakeOf stakes (types.flatMap fun ty => counted ty blockId (ofType certType.slot ty [m])) := by
    intro types
    induction types with
    | nil => rfl
    | cons ty types ih =>
      rw [flatMap_cons, flatMap_cons, flatMap_cons, stakeOf_append, stakeOf_append,
        stakeOf_append, ih, ofType_append, counted_append, stakeOf_append]
      omega
  unfold certVotes at hnil ⊢
  rw [happ, hnil, stakeOf_nil, Nat.add_zero]

lemma certified_snoc (h : m ∉ certVotes certType (certType.toBlock.map (·.2)) [m]) :
    Certified stakes (l ++ [m]) certType ↔ Certified stakes l certType := by
  unfold Certified
  rw [certVotes_snoc h]

lemma certified_genesis : Certified stakes l (.genesis slot b)
    ↔ 82 * (stakes slot).totalStake ≤ 100 * stakeOf stakes (ofType slot .genesis l) := by
  unfold Certified
  simp only [certVotes, limitsAndVoteTypes, genesisVoteThreshold,
    Fraction.fromPercentage, CertificateType.slot, flatMap_cons, flatMap_nil,
    append_nil, counted, VoteType.byBlock, Bool.false_eq_true, if_false]

lemma stakeOf_subperm (h : l.Subperm l') : stakeOf stakes l ≤ stakeOf stakes l' := by
  obtain ⟨l1, hperm, hsub⟩ := h
  rw [← stakeOf_perm hperm]
  exact (hsub.map _).sum_le_sum fun _ _ => Nat.zero_le _

lemma OneGenesisBlock.subperm (h : OneGenesisBlock stakes slot l') (hl : l.Subperm l') :
    OneGenesisBlock stakes slot l := by
  have hof : (ofType slot .genesis l).Subperm (ofType slot .genesis l') := hl.filter _
  rcases h with h | h
  · exact .inl fun m hm m' hm' => h m (hof.subset hm) m' (hof.subset hm')
  · exact .inr (lt_of_le_of_lt (Nat.mul_le_mul_left _ (stakeOf_subperm hof)) h)

lemma mem_voteToCertTypes_genesis : .genesis slot b ∈ voteToCertTypes v ↔ v = .genesis slot b := by
  cases v <;> simp [voteToCertTypes, eq_comm]

lemma OneGenesisBlock.certified_snoc (h : OneGenesisBlock stakes slot (l ++ [m]))
    (hslot : m.vote.slot = slot) (hv : Voted l certType) (hnot : certType ∉ voteToCertTypes m.vote)
    (hc : Certified stakes (l ++ [m]) certType) : Certified stakes l certType := by
  by_cases hm : m ∈ certVotes certType (certType.toBlock.map (·.2)) [m]
  case neg => exact (BlackBull.certified_snoc hm).1 hc
  obtain ⟨hgen, b, rfl⟩ := (mem_voteToCertTypes_of_mem_certVotes hm).resolve_left hnot
  rw [hslot, certified_genesis] at hc
  rcases h with h | h
  · -- the vote that was counted is for the same block
    obtain ⟨m', hm', hmem⟩ := hv
    have hgen' := mem_voteToCertTypes_genesis.1 hmem
    have heq : m.vote = m'.vote := by
      refine h m (mem_ofType.2 ⟨mem_concat_self, hslot, hgen⟩) m'
        (mem_ofType.2 ⟨mem_append_left _ hm', ?_, ?_⟩)
      · rw [hgen']
        exact hslot
      · rw [hgen']
        rfl
    exact absurd (heq ▸ hmem) hnot
  · omega

lemma Ballots.notarize_unique {b' : Hash} (h : Ballots stakes l) (hpos : 0 < (stakes slot).totalStake)
    (hb : Certified stakes l (.notarize slot b)) (hb' : Certified stakes l (.notarize slot b')) :
    b = b' := by
  by_contra hne
  have hsum := @stakeOf_notarizeVotes_sum_le stakes l slot [b, b'] (by simp [hne])
  have hle := @Ballots.stakeOf_ofType_le stakes l slot .notarize h rfl
  have hvotes : ∀ b, certVotes (.notarize slot b) (some b) l = notarizeVotes slot b l := by
    simp [certVotes, limitsAndVoteTypes, notarizeVotes, CertificateType.slot]
  unfold Certified at hb hb'
  simp only [toBlock, Option.map_some, hvotes, limitsAndVoteTypes,
    Fraction.fromPercentage, CertificateType.slot] at hb hb'
  simp only [map_cons, map_nil, sum_cons, sum_nil, VoteType.maxEntries,
    maxEntriesPerPubkeyForOtherTypes] at hsum hle
  omega

namespace ConsensusPool

variable {rootBlock : Block} {cert : Certificate} {p p' : ConsensusPool} {ev ev' : List VotorEvent}

lemma updateCertificates_contains [SignerStore] (hl : HoldsBallots stakes l p)
    (hranked : ∀ m ∈ l, m.Ranked stakes) (hpos : 0 < (stakes v.slot).totalStake)
    (hu : updateCertificates stakes rootBank v v.blockId (stakes v.slot).totalStake p
      = .ok (p', ev, res)) (ct : CertificateType) :
    p'.completedCertificates.contains ct ↔ p.completedCertificates.contains ct
      ∨ ct ∈ voteToCertTypes v ∧ Certified stakes l ct := by
  refine (foldlM_taken (P := fun taken acc => HoldsBallots stakes l acc.1
    ∧ (∃ certs, acc.2.2 = .ok certs) ∧ (acc.1.completedCertificates.contains ct
      ↔ p.completedCertificates.contains ct ∨ ct ∈ taken ∧ Certified stakes l ct))
    ⟨hl, ⟨[], rfl⟩, by simp⟩ ?_ hu).2.2
  rintro taken ⟨p1, ev1, res1⟩ certType ⟨p2, ev2, res2⟩ hmem ⟨hl1, ⟨certs, hres⟩, hct⟩ hstep
  subst hres
  have hslot := slot_of_mem_voteToCertTypes hmem
  rw [← hslot] at hstep
  rw [mem_append, mem_singleton, or_and_right, ← or_assoc, ← hct]
  rcases updateCertificate_eq hl1 hranked (hslot ▸ hpos) hmem rootBank ev1 certs with
    ⟨hnot, heq⟩ | ⟨-, hcert, cert, -, -, heq⟩
  · rw [heq] at hstep
    cases hstep
    refine ⟨hl1, ⟨certs, rfl⟩, .inl, ?_⟩
    rintro (h | ⟨rfl, hc⟩)
    · exact h
    · exact hnot.resolve_right (not_not.2 hc)
  · rw [heq] at hstep
    obtain ⟨⟨p3, ev3⟩, hins, hstep⟩ := Except.bind_eq_ok.1 hstep
    cases hstep
    obtain ⟨t, tracked, c, -, -, rfl, -⟩ := insertCertificate_cases hins
    refine ⟨holdsBallots_congr hl1 rfl, ⟨_, rfl⟩, contains_insert.trans ?_⟩
    constructor
    · rintro (rfl | h)
      · exact .inr ⟨rfl, hcert⟩
      · exact .inl h
    · rintro (h | ⟨rfl, -⟩)
      · exact .inr h
      · exact .inl rfl

/-! ## What the certificates tell -/

/-- The events of the pool that are not of the counters follow from the certificates it has: one for
each notarized and notarized-fallback block, one for each finalized one, and one for each parent that
has become ready. -/
structure CertsTold (rootBlock : Block) (p : ConsensusPool) (ev : List VotorEvent) : Prop where
  notarized : ∀ s b, .blockNotarized (s, b) ∈ ev ↔ p.completedCertificates.contains (.notarize s b)
  notarFallback : ∀ s b, .blockNotarFallback (s, b) ∈ ev
    ↔ p.completedCertificates.contains (.notarizeFallback s b)
  finalized : ∀ s b, (∃ fast, .finalized (s, b) fast ∈ ev)
    ↔ p.completedCertificates.contains (.finalizeFast s b)
      ∨ p.completedCertificates.contains (.notarize s b)
        ∧ p.completedCertificates.contains (.finalize s)
  tracker : ∃ h : Accepted, TrackerInv rootBlock p.parentReadyTracker h ∧ h.root = rootBlock.1
    ∧ (∀ block, block ∈ h.notarized ↔ rootBlock.1 < block.1
      ∧ ∃ ct, p.completedCertificates.contains ct ∧ ct.toBlock = some block)
    ∧ (∀ k, k ∈ h.skipped ↔ rootBlock.1 < k ∧ p.completedCertificates.contains (.skip k))
    ∧ ∀ s b, .parentReady s b ∈ ev ↔ s % numConsecutiveLeaderSlots = 0
      ∧ h.ParentReady rootBlock s b ∧ ¬ (b = rootBlock ∧ s = rootBlock.1 + 1)
  only : ∀ e ∈ ev, e.isFallback = true ∨ (∃ block, e = .blockNotarized block)
    ∨ (∃ block, e = .blockNotarFallback block) ∨ (∃ block fast, e = .finalized block fast)
    ∨ ∃ s b, e = .parentReady s b

lemma certsTold_new (bank : RootBank) :
    CertsTold (bank.slot, bank.blockId.getD 0) (newFromRootBank bank) [] := by
  have hnone : ∀ ct, (newFromRootBank bank).completedCertificates.contains ct = false :=
    fun _ => rfl
  refine ⟨by simp [hnone], by simp [hnone], by simp [hnone], ?_, nofun⟩
  refine ⟨accepted (bank.slot, bank.blockId.getD 0) [], trackerInv_new _, rfl, ?_, ?_, fun s b => ?_⟩
  · simp [hnone, accepted]
  · simp [hnone, accepted]
  · rw [parentReady_accepted_nil]
    simp

def trackerOp : CertificateType → Option TrackerOp
  | .notarize slot b | .notarizeFallback slot b | .finalizeFast slot b | .genesis slot b =>
    some (.addNewNotarFallbackOrStronger (slot, b))
  | .skip slot => some (.addNewSkip slot)
  | .finalize _ => none

lemma track_eq (t : ParentReadyTracker) (certType : CertificateType) :
    track t certType = match trackerOp certType with
      | some op => trackerStep t op
      | none => .ok (t, []) := by
  cases certType <;> rfl

lemma trackerInv_track {t t' : ParentReadyTracker} {h : Accepted} {tracked : List VotorEvent}
    (hI : TrackerInv rootBlock t h) (ht : track t certType = .ok (t', tracked)) :
    ∃ h', TrackerInv rootBlock t' h' ∧ h'.root = h.root ∧ EventsOfStep rootBlock h h' tracked
      ∧ (∀ s b, h.ParentReady rootBlock s b → h'.ParentReady rootBlock s b)
      ∧ (∀ block, block ∈ h'.notarized ↔ block ∈ h.notarized
        ∨ certType.toBlock = some block ∧ h.root < block.1)
      ∧ ∀ k, k ∈ h'.skipped ↔ k ∈ h.skipped ∨ certType = .skip k ∧ h.root < k := by
  rw [track_eq] at ht
  cases hop : trackerOp certType with
  | none =>
    rw [hop] at ht
    cases ht
    cases certType <;> cases hop
    exact ⟨h, hI, rfl, eventsOfStep_nil fun _ _ => Iff.rfl, fun _ _ hr => hr,
      by simp [toBlock], by simp⟩
  | some op =>
    rw [hop] at ht
    have hroot : RootNonDecreasing t op := by
      cases certType <;> cases hop <;> trivial
    obtain ⟨hI', hev⟩ := trackerStep_inv hI hroot ht
    refine ⟨h.step op, hI', ?_, hev, fun s b => Accepted.parentReady_mono op, fun block => ?_,
      fun k => ?_⟩
    · cases certType <;> cases hop <;> simp only [Accepted.step] <;> split_ifs <;> rfl
    · cases certType <;> cases hop <;> simp only [Accepted.step] <;> split_ifs with hlt <;>
        simp [toBlock]
      all_goals grind
    · cases certType <;> cases hop <;> simp only [Accepted.step] <;> split_ifs with hlt <;> simp
      all_goals grind

lemma finalizes_eq_some
    (hstored : ∀ ct c, p.completedCertificates.get? ct = some c → c.certType = ct)
    (huniq : ∀ s b b', p.completedCertificates.contains (.notarize s b) →
      p.completedCertificates.contains (.notarize s b') → b = b') {s : ℕ} :
    p.finalizes certType = some (s, b) ↔ certType = .finalizeFast s b
      ∨ certType = .notarize s b ∧ p.completedCertificates.contains (.finalize s)
      ∨ certType = .finalize s ∧ p.completedCertificates.contains (.notarize s b) := by
  cases certType with
  | finalizeFast s' b' => simp [finalizes]
  | notarize s' b' =>
    have hfin : (p.getFinalizeCert s').isSome = p.completedCertificates.contains (.finalize s') := rfl
    simp only [finalizes, hfin, reduceCtorEq, false_or, false_and, or_false,
      notarize.injEq]
    split_ifs with hs
    · simp only [Option.some.injEq, Prod.mk.injEq]
      exact ⟨fun h => ⟨h, h.1 ▸ hs⟩, fun h => h.1⟩
    · simp only [false_iff, not_and]
      rintro ⟨rfl, -⟩
      exact hs
  | finalize s' =>
    simp only [finalizes, reduceCtorEq, false_or, false_and, finalize.injEq]
    cases hn : p.getNotarizeCert s' with
    | none =>
      simp only [Option.bind_none, reduceCtorEq, false_iff, not_and]
      rintro rfl hb
      have hsome := getNotarizeCert_isSome.2 ⟨b, hb⟩
      rw [hn] at hsome
      cases hsome
    | some c =>
      obtain ⟨b', hget⟩ := getNotarizeCert_eq_some hn
      have hb' : p.completedCertificates.contains (.notarize s' b') := by
        rw [OrdMap.contains, hget]
        rfl
      simp only [Option.bind_some, hstored _ _ hget, toBlock, Option.map_some,
        Option.some.injEq, Prod.mk.injEq]
      constructor
      · rintro ⟨rfl, rfl⟩
        exact ⟨rfl, hb'⟩
      · rintro ⟨rfl, hb⟩
        exact ⟨rfl, huniq _ _ _ hb' hb⟩
  | notarizeFallback s' b' | skip s' | genesis s' b' => simp [finalizes]

lemma CertsTold.insert [SignerStore] (h : CertsTold rootBlock p ev)
    (hstored : ∀ ct c, p.completedCertificates.get? ct = some c → c.certType = ct)
    (heq : cert.certType = certType)
    (hins : insertCertificate stakes rootBank certType cert p = .ok (p', ev'))
    (huniq : ∀ s b b', p'.completedCertificates.contains (.notarize s b) →
      p'.completedCertificates.contains (.notarize s b') → b = b') :
    CertsTold rootBlock p' (ev ++ ev') := by
  obtain ⟨t, tracked, c, ht, -, rfl, rfl⟩ := insertCertificate_cases hins
  set q : ConsensusPool :=
    { p with completedCertificates := p.completedCertificates.insert certType cert } with hq
  have hcontains : ∀ ct, q.completedCertificates.contains ct
      ↔ certType = ct ∨ p.completedCertificates.contains ct := fun ct => contains_insert
  have htracked := track_events ht
  have hnotarized : ∀ block, .blockNotarized block ∉ tracked := fun _ he =>
    nomatch htracked _ he
  have hfallback : ∀ block, .blockNotarFallback block ∉ tracked := fun _ he =>
    nomatch htracked _ he
  have hfinalized : ∀ block fast, .finalized block fast ∉ tracked := fun _ _ he =>
    nomatch htracked _ he
  refine ⟨fun s b => ?_, fun s b => ?_, fun s b => ?_, ?_, fun e he => ?_⟩
  · rw [mem_append, mem_certEvents, h.notarized]
    refine Iff.trans ?_ (hcontains _).symm
    simp [hnotarized, or_comm]
  · rw [mem_append, mem_certEvents, h.notarFallback]
    refine Iff.trans ?_ (hcontains _).symm
    simp [hfallback, or_comm]
  · have hnew : (∃ fast, .finalized (s, b) fast ∈ certEvents q tracked certType)
        ↔ q.finalizes certType = some (s, b) := by
      simp only [mem_certEvents, hfinalized, reduceCtorEq, and_false,
        exists_const, false_or, VotorEvent.finalized.injEq]
      constructor
      · rintro ⟨fast, block, hfin, rfl, -⟩
        exact hfin
      · exact fun hfin => ⟨_, _, hfin, rfl, rfl⟩
    have hfin := @finalizes_eq_some certType b q (certType_eq_insert hstored heq) huniq s
    have hold := h.finalized s b
    simp only [mem_append, exists_or, hnew, hold]
    grind only
  · obtain ⟨a, hI, hroot, hnot', hskip, hready⟩ := h.tracker
    obtain ⟨a', hI', hroot', hev, hmono, hnot'', hskip'⟩ := trackerInv_track hI ht
    refine ⟨a', hI', hroot'.trans hroot, fun block => ?_, fun k => ?_, fun s b => ?_⟩
    · rw [hnot'', hnot', hroot]
      show _ ↔ _ ∧ ∃ ct, q.completedCertificates.contains ct ∧ _
      simp only [hcontains]
      constructor
      · rintro (⟨hlt, ct, hct, hb⟩ | ⟨hb, hlt⟩)
        · exact ⟨hlt, ct, .inr hct, hb⟩
        · exact ⟨hlt, _, .inl rfl, hb⟩
      · rintro ⟨hlt, ct, rfl | hct, hb⟩
        · exact .inr ⟨hb, hlt⟩
        · exact .inl ⟨hlt, ct, hct, hb⟩
    · rw [hskip', hskip, hroot]
      rw [hcontains]
      tauto
    · have hcert : .parentReady s b ∈ certEvents q tracked certType ↔ .parentReady s b ∈ tracked := by
        simp [mem_certEvents]
      have hcount : .parentReady s b ∈ tracked ↔ s % numConsecutiveLeaderSlots = 0
          ∧ a'.ParentReady rootBlock s b ∧ ¬ a.ParentReady rootBlock s b := by
        rw [← count_pos_iff, hev s b]
        split_ifs with hif <;> simp [hif]
      have h0 : b = rootBlock ∧ s = rootBlock.1 + 1 → a.ParentReady rootBlock s b := by
        rintro ⟨rfl, rfl⟩
        exact ⟨.inl rfl, Nat.lt_succ_self _, fun k hk hk' => by omega⟩
      rw [mem_append, hcert, hready, hcount]
      tauto
  · rcases mem_append.1 he with he | he
    · exact h.only e he
    rcases mem_certEvents.1 he with he | ⟨s, b, -, rfl⟩ | ⟨s, b, -, rfl⟩ | ⟨block, -, rfl⟩
    · exact .inr (.inr (.inr (.inr (htracked e he))))
    · exact .inr (.inr (.inl ⟨_, rfl⟩))
    · exact .inr (.inl ⟨_, rfl⟩)
    · exact .inr (.inr (.inr (.inl ⟨_, _, rfl⟩)))

lemma CertsTold.append_fallback (h : CertsTold rootBlock p ev) (hev : ∀ e ∈ ev', e.isFallback = true)
    (hp : p'.completedCertificates = p.completedCertificates)
    (ht : p'.parentReadyTracker = p.parentReadyTracker) : CertsTold rootBlock p' (ev ++ ev') := by
  have hmem : ∀ e : VotorEvent, e.isFallback = false → (e ∈ ev ++ ev' ↔ e ∈ ev) := by
    intro e he
    rw [mem_append, or_iff_left]
    intro he'
    rw [hev e he'] at he
    cases he
  refine ⟨fun s b => ?_, fun s b => ?_, fun s b => ?_, ?_,
    forall_mem_append.2 ⟨h.only, fun e he => .inl (hev e he)⟩⟩
  · rw [hmem _ rfl, hp]
    exact h.notarized s b
  · rw [hmem _ rfl, hp]
    exact h.notarFallback s b
  · rw [hp, ← h.finalized s b]
    exact exists_congr fun fast => hmem _ rfl
  · obtain ⟨a, hI, hroot, hnot, hskip, hready⟩ := h.tracker
    rw [hp, ht]
    exact ⟨a, hI, hroot, hnot, hskip, fun s b => (hmem _ rfl).trans (hready s b)⟩

/-! ## Counting a vote -/

lemma length_le_of_voted (h : Ballots stakes l) (hone : OneGenesisBlock stakes slot l)
    (hpos : 0 < (stakes slot).totalStake) {bs : List Block} (hnd : bs.Nodup)
    (hbs : ∀ block ∈ bs, block.1 = slot ∧ ∃ ct : CertificateType, ct.toBlock = some block
      ∧ Voted l ct ∧ Certified stakes l ct) : bs.length ≤ maxNotarFallbackBlocks := by
  let Genesis (block : Block) : Prop := Voted l (.genesis block.1 block.2)
    ∧ Certified stakes l (.genesis block.1 block.2)
  have hrest : ∀ block ∈ bs, ¬ Genesis block → block.1 = slot
      ∧ Certified stakes l (.notarizeFallback slot block.2) := by
    intro block hmem hgen
    obtain ⟨rfl, ct, hct, hv, hc⟩ := hbs block hmem
    refine ⟨rfl, hc.notarizeFallback hct ?_⟩
    rintro rfl
    exact hgen ⟨hv, hc⟩
  by_cases hg : ∃ block ∈ bs, Genesis block
  case neg =>
    exact length_le_of_fallback (0, 0) h hpos hnd fun block hb _ =>
      hrest block hb fun hgen => hg ⟨block, hb, hgen⟩
  obtain ⟨g, hmem, ⟨m, hm, hv⟩, hcert⟩ := hg
  rw [mem_voteToCertTypes_genesis] at hv
  refine length_le_of_fallback g h hpos hnd fun block hb hne => hrest block hb ?_
  rintro ⟨⟨m', hm', hv'⟩, -⟩
  rw [mem_voteToCertTypes_genesis] at hv'
  rcases hone with hone | hlt
  · have heq := hone m (mem_ofType.2 ⟨hm, hv ▸ (hbs g hmem).1, hv ▸ rfl⟩) m'
      (mem_ofType.2 ⟨hm', hv' ▸ (hbs block hb).1, hv' ▸ rfl⟩)
    rw [hv, hv'] at heq
    injection heq with h1 h2
    exact hne (Prod.ext h1.symm h2.symm)
  · rw [(hbs g hmem).1, certified_genesis] at hcert
    omega

structure CertsOf [SignerStore]
    (stakes : ℕ → EpochStakes) (rootBlock : Block) (l : List VoteMessage)
    (p : ConsensusPool) (ev : List VotorEvent) : Prop where
  stored : CertsStored stakes p.completedCertificates
  told : CertsTold rootBlock p ev
  final : FinalInv stakes p
  certified : ∀ ct, p.completedCertificates.contains ct → Voted l ct ∧ Certified stakes l ct

lemma CertsOf.exists_track [SignerStore]
    (h : CertsOf stakes rootBlock l p ev) (hb : Ballots stakes l)
    (hl : ∀ m ∈ l, m.vote.slot = slot) (hone : OneGenesisBlock stakes slot l)
    (hpos : 0 < (stakes slot).totalStake) (hv : Voted l certType)
    (hc : Certified stakes l certType) :
    ∃ r, track p.parentReadyTracker certType = .ok r := by
  obtain ⟨a, hI, hroot, hnot, -⟩ := h.told.tracker
  refine ConsensusPool.exists_track fun block hblock =>
    ParentReadyTracker.exists_addNewNotarFallbackOrStronger (hI.nodup _) ?_
  intro hlt bs hnd hbs
  have hslot : block.1 = slot := (slot_of_toBlock hblock).trans (slot_of_voted hl hv)
  refine length_le_of_voted hb hone hpos hnd fun b hmem => ?_
  rcases hbs b hmem with rfl | hmem
  · exact ⟨hslot, certType, hblock, hv, hc⟩
  · rw [hI.notarFallbacks _ _ hlt.le] at hmem
    obtain ⟨hb1, rfl | hmem⟩ := hmem
    · rw [hI.root, hroot] at hlt
      omega
    · obtain ⟨-, ct, hct, hb2⟩ := (hnot b).1 hmem
      exact ⟨hb1.trans hslot, ct, hb2, h.certified ct hct⟩

lemma CertsOf.updateCertificates [SignerStore] (h : CertsOf stakes rootBlock l p ev)
    (hholds : HoldsBallots stakes l p) (hranked : ∀ m ∈ l, m.Ranked stakes)
    (hl : ∀ m ∈ l, m.vote.slot = slot) (hone : OneGenesisBlock stakes slot l)
    (hpos : 0 < (stakes slot).totalStake) (hhas : rootBank.hasEpochStakes slot)
    (hv : ∀ ct ∈ voteToCertTypes v, Voted l ct) :
    ∃ p' ev' certs, updateCertificates stakes rootBank v v.blockId (stakes v.slot).totalStake p
        = .ok (p', ev', .ok certs)
      ∧ CertsOf stakes rootBlock l p' (ev ++ ev') ∧ HoldsBallots stakes l p'
      ∧ (∀ e ∈ ev', e.isFallback = false) ∧ p'.slotStakeCountersMap = p.slotStakeCountersMap
      ∧ p'.lastPrunedSlot = p.lastPrunedSlot := by
  refine exists_updateCertificates
    ⟨by rwa [append_nil], hholds, nofun, rfl, rfl⟩ ?_
  rintro q ev1 certs certType hmem ⟨h, hholds, hev, hctr, hlast⟩
  have hslot := slot_of_voted hl (hv certType hmem)
  obtain ⟨q', ev2, certs', heq, hcase⟩ := exists_updateCertificate hholds hranked h.stored
    (hslot ▸ hpos) (hslot ▸ hhas) hmem (h.exists_track hholds.ballots hl hone hpos (hv certType hmem))
    ev1 certs
  refine ⟨q', _, certs', heq, ?_⟩
  rcases hcase with ⟨rfl, rfl⟩ | ⟨hnew, hcert, cert, htype, hstored, hins⟩
  · rw [append_nil]
    exact ⟨h, hholds, hev, hctr, hlast⟩
  obtain ⟨hfinal, -⟩ := h.final.insertCertificate hnew htype hins
  have hcertified : ∀ ct, q'.completedCertificates.contains ct → Voted l ct ∧ Certified stakes l ct := by
    intro ct hct
    obtain ⟨t, tracked, c, -, -, rfl, -⟩ := insertCertificate_cases hins
    rcases contains_insert.1 hct with rfl | hct
    · exact ⟨hv certType hmem, hcert⟩
    · exact h.certified ct hct
  have htold := h.told.insert h.stored.certType_eq htype hins fun s b b' hs hs' => by
    obtain ⟨hvoted, hc⟩ := hcertified _ hs
    obtain rfl : s = slot := slot_of_voted hl hvoted
    exact hholds.ballots.notarize_unique hpos hc (hcertified _ hs').2
  rw [append_assoc] at htold
  have hfallback := insertCertificate_events hins
  obtain ⟨t, tracked, c, -, -, rfl, -⟩ := insertCertificate_cases hins
  exact ⟨⟨hstored, htold, hfinal, hcertified⟩, holdsBallots_congr hholds rfl,
    forall_mem_append.2 ⟨hev, hfallback⟩, hctr, hlast⟩

def skipSent (p : ConsensusPool) (slot : ℕ) : Bool :=
  ((p.slotStakeCountersMap.get? slot).map (·.safeToSkipSent)).getD false

lemma skipSent_eq (p : ConsensusPool) (slot total : ℕ) :
    p.skipSent slot = (p.slotStakeCounters slot total).safeToSkipSent := by
  unfold skipSent slotStakeCounters
  cases p.slotStakeCountersMap.get? slot <;> rfl

/-- What a pool has come to that has counted the votes `l`: all of it follows from them. -/
structure Outcome [SignerStore] (stakes : ℕ → EpochStakes) (rootBlock : Block) (me : Pubkey)
    (l : List VoteMessage) (p : ConsensusPool) (ev : List VotorEvent) : Prop
    extends CountsBallots stakes me l p, CertsOf stakes rootBlock l p ev where
  complete : ∀ ct, Voted l ct → Certified stakes l ct → p.completedCertificates.contains ct
  notarTold : ∀ s b, ev.count (.safeToNotar (s, b)) = (p.notarSent s).count b
  skipTold : ∀ s, ev.count (.safeToSkip s) = if p.skipSent s then 1 else 0
  notPruned : p.lastPrunedSlot = 0

lemma outcome_new [SignerStore] (bank : RootBank) :
    Outcome stakes (bank.slot, bank.blockId.getD 0) me [] (newFromRootBank bank) [] :=
  ⟨countsBallots_new bank, ⟨⟨nofun, nofun⟩, certsTold_new bank, finalInv_new bank, nofun⟩,
    nofun, fun _ _ => rfl, fun _ => rfl, rfl⟩

lemma count_eq_zero_of_isFallback {e : VotorEvent} (he : e.isFallback = true)
    (hev : ∀ e ∈ ev, e.isFallback = false) : ev.count e = 0 := by
  refine count_eq_zero.2 fun hmem => ?_
  rw [hev e hmem] at he
  cases he

def fallbackEvents (slot : ℕ) (bs : List Hash) (skip : Bool) : List VotorEvent :=
  (bs.map fun b => .safeToNotar (slot, b)) ++ if skip then [.safeToSkip slot] else []

lemma isFallback_of_mem_fallbackEvents :
    ∀ e ∈ fallbackEvents slot bs skip, e.isFallback = true := by
  refine forall_mem_append.2 ⟨forall_mem_map.2 fun _ _ => rfl, ?_⟩
  cases skip with
  | false => exact forall_mem_nil _
  | true => exact forall_mem_singleton.2 rfl

lemma count_safeToNotar :
    (fallbackEvents slot bs skip).count (.safeToNotar (s, b)) = if slot = s then bs.count b else 0 := by
  have hskip : (if skip then [VotorEvent.safeToSkip slot] else []).count (.safeToNotar (s, b)) = 0 := by
    cases skip <;> simp
  rw [fallbackEvents, count_append, hskip, Nat.add_zero]
  split_ifs with hs
  · subst hs
    exact count_map_of_injective _ (fun b => VotorEvent.safeToNotar (slot, b))
      (fun b b' h => by simpa using h) _
  · refine count_eq_zero.2 fun hmem => ?_
    obtain ⟨b', -, heq⟩ := mem_map.1 hmem
    cases heq
    exact hs rfl

lemma count_safeToSkip :
    (fallbackEvents slot bs skip).count (.safeToSkip s) = if slot = s ∧ skip = true then 1 else 0 := by
  have hnotar : (bs.map fun b => VotorEvent.safeToNotar (slot, b)).count (.safeToSkip s) = 0 := by
    refine count_eq_zero.2 fun hmem => ?_
    obtain ⟨b', -, heq⟩ := mem_map.1 hmem
    cases heq
  rw [fallbackEvents, count_append, hnotar, Nat.zero_add]
  cases skip <;> simp [count_cons]

theorem Outcome.addVote [SignerStore] (h : Outcome stakes rootBlock me l p ev)
    (hfresh : Fresh stakes (ofType m.vote.slot m.vote.getType l) m)
    (hacc : Accepts stakes rootBank p m) (hranked : ∀ m' ∈ l ++ [m], m'.Ranked stakes)
    (hl : ∀ m' ∈ l ++ [m], m'.vote.slot = slot) (hone : OneGenesisBlock stakes slot (l ++ [m])) :
    ∃ p' ev' certs, addVote stakes rootBank me m p = .ok (p', ev', .ok certs)
      ∧ Outcome stakes rootBlock me (l ++ [m]) p' (ev ++ ev') := by
  have hslot : m.vote.slot = slot := hl m mem_concat_self
  obtain ⟨pools, hupd, hpools⟩ :=
    (updateVotePool_spec h.toHoldsBallots hacc.entry hacc.compatible).1 hfresh
  obtain ⟨c, bs, skip, hadd, hcounts, hsent, hskip, hnew⟩ :=
    (h.counts m.vote.slot).addVote hpools.ballots rfl
  set ev1 := fallbackEvents m.vote.slot bs skip with hev1
  have hpos : 0 < (stakes slot).totalStake :=
    hslot ▸ hpools.ballots.totalStake_pos mem_concat_self
  set p1 := { p with votePools := pools }.setSlotStakeCounters m.vote.slot c with hp1
  have hholds := holdsBallots_setSlotStakeCounters hpools m.vote.slot c
  have hcerts : CertsOf stakes rootBlock (l ++ [m]) p1 (ev ++ ev1) := by
    refine ⟨h.stored, h.told.append_fallback isFallback_of_mem_fallbackEvents rfl rfl,
      { h.final with }, fun ct hct => ?_⟩
    obtain ⟨hv, hc⟩ := h.certified ct hct
    exact ⟨voted_snoc.2 (.inl hv), hc.mono (sublist_append_left _ _)⟩
  have hhas : rootBank.hasEpochStakes slot := hslot ▸ hacc.hasEpochStakes
  obtain ⟨p', ev2, certs, hcert, hcerts', hholds', hev2, hctr, hlast⟩ :=
    hcerts.updateCertificates (v := m.vote) hholds hranked hl hone hpos hhas
      fun ct hct => voted_snoc.2 (.inr hct)
  have hcontains := updateCertificates_contains hholds hranked (hslot ▸ hpos) hcert
  have hctr' : ∀ s total, p'.slotStakeCounters s total
      = if m.vote.slot = s then c else p.slotStakeCounters s total :=
    slotStakeCounters_of_insert hctr
  refine ⟨p', ev1 ++ ev2, certs, ?_, ⟨⟨hholds', fun s => ?_⟩, ?_, fun ct hv hc => ?_, fun s b => ?_,
    fun s => ?_, hlast.trans h.notPruned⟩⟩
  · rw [addVote_of_accepts hacc, hupd]
    exact countVote_some hadd hcert
  · rw [hctr']
    split_ifs with hs
    · rw [← hs]
      exact hcounts
    · exact (h.counts s).snoc fun hs' => absurd hs' hs
  · rw [← append_assoc]
    exact hcerts'
  · rw [hcontains]
    by_cases hmem : ct ∈ voteToCertTypes m.vote
    · exact .inr ⟨hmem, hc⟩
    · have hv' := (voted_snoc.1 hv).resolve_right hmem
      exact .inl (h.complete ct hv' (hone.certified_snoc hslot hv' hmem hc))
  · rw [count_append, count_append, h.notarTold, count_eq_zero_of_isFallback rfl hev2,
      notarSent_eq p' s (stakes s).totalStake, notarSent_eq p s (stakes s).totalStake, hctr']
    rw [hev1, count_safeToNotar, Nat.add_zero]
    split_ifs with hs
    · subst hs
      rw [hsent, count_append]
    · rfl
  · rw [count_append, count_append, h.skipTold, count_eq_zero_of_isFallback rfl hev2,
      skipSent_eq p' s (stakes s).totalStake, skipSent_eq p s (stakes s).totalStake, hctr']
    rw [hev1, count_safeToSkip, Nat.add_zero]
    by_cases hs : m.vote.slot = s
    · subst hs
      rw [if_pos rfl, hskip]
      cases hsk : skip with
      | false => simp
      | true => simp [hnew hsk]
    · simp [hs]

/-! ## Receiving the votes -/

structure Taken (stakes : ℕ → EpochStakes) (rootBank : RootBank) (votes l : List VoteMessage) :
    Prop where
  nodup : l.Nodup
  mem : ∀ m ∈ l, m ∈ votes ∧ Countable stakes rootBank m

lemma Taken.snoc (h : Taken stakes rootBank votes l) (hm : m ∈ votes) (hnot : m ∉ l)
    (hc : Countable stakes rootBank m) : Taken stakes rootBank votes (l ++ [m]) := by
  refine ⟨?_, forall_mem_append.2 ⟨h.mem, forall_mem_singleton.2 ⟨hm, hc⟩⟩⟩
  rw [← concat_eq_append]
  exact h.nodup.concat hnot

lemma Taken.subperm (h : Taken stakes rootBank votes l) : l.Subperm (countable stakes rootBank votes) := by
  refine h.nodup.subperm fun m hm => ?_
  obtain ⟨hv, hc⟩ := h.mem m hm
  exact mem_dedup.2 (mem_filter.2 ⟨hv, decide_eq_true hc⟩)

lemma Taken.perm (h : Taken stakes rootBank votes l)
    (hall : ∀ m ∈ votes, Countable stakes rootBank m → m ∈ l) :
    l.Perm (countable stakes rootBank votes) := by
  refine (perm_ext_iff_of_nodup h.nodup (nodup_dedup _)).2 fun m => ?_
  simp only [mem_dedup, mem_filter, decide_eq_true_eq]
  exact ⟨h.mem m, fun hm => hall m hm.1 hm.2⟩

lemma Accepts.countable (h : Accepts stakes rootBank p m) : Countable stakes rootBank m :=
  ⟨h.hasEpochStakes, h.root_le, h.entry⟩

lemma step_vote [SignerStore]
    (hs : step stakes p (.addMessage rootBank me (.vote m)) = .ok (p', trace)) :
    ∃ ev res, addVote stakes rootBank me m p = .ok (p', ev, res) := by
  obtain ⟨⟨q, reply⟩, hm, hs⟩ := Except.bind_eq_ok.1 hs
  cases hs
  obtain ⟨ev, res, hadd, -⟩ := addMessage_cases hm
  exact ⟨ev, res, hadd⟩

section Compatible

variable (h : Compatible slot votes) (ht : Taken stakes rootBank votes l)
include h ht

lemma accepts_of_countable (hl : HoldsBallots stakes l p) (hm : m ∈ votes)
    (hc : Countable stakes rootBank m) : Accepts stakes rootBank p m := by
  refine ⟨hc.1, hc.2.2, hc.2.1, (hasConflictingVote_eq_none hl).2 fun m' hm' hslot hkey => ?_⟩
  obtain ⟨hv', hc'⟩ := ht.mem m' hm'
  exact h.not_conflicting m hm m' hv' (rank_eq_of_key_eq hc.2.2 hc'.2.2 hslot.symm hkey.symm)

lemma fresh_iff_not_mem (hm : m ∈ votes) (hc : Countable stakes rootBank m) :
    Fresh stakes (ofType m.vote.slot m.vote.getType l) m ↔ m ∉ l :=
  h.fresh_iff (fun m' hm' => ⟨(ht.mem m' hm').1, (ht.mem m' hm').2.2.2⟩) ht.nodup hm hc.2.2

variable (hranked : ∀ m ∈ votes, (m.entry stakes).isSome → m.Ranked stakes)
include hranked

/-- What becomes of a vote, where its call returns: it is counted if it was not, and completes the
certificates that are looked for after it. -/
lemma addVote_taken [SignerStore] (hl : HoldsBallots stakes l p) (hm : m ∈ votes)
    (hadd : addVote stakes rootBank me m p = .ok (p', ev, res)) :
    ∃ l', Taken stakes rootBank votes l' ∧ HoldsBallots stakes l' p' ∧ l.Sublist l'
      ∧ (∀ m', m' ∈ l' ↔ m' ∈ l ∨ m' = m ∧ Countable stakes rootBank m')
      ∧ ∀ ct, p'.completedCertificates.contains ct ↔ p.completedCertificates.contains ct
        ∨ (Countable stakes rootBank m ∧ m ∉ l) ∧ ct ∈ voteToCertTypes m.vote
          ∧ Certified stakes l' ct := by
  by_cases hnew : Countable stakes rootBank m ∧ m ∉ l
  case neg =>
    have hold : HoldsBallots stakes l p' ∧ p'.completedCertificates = p.completedCertificates := by
      rcases addVote_cases hl hadd with ⟨-, rfl, -⟩ | ⟨hacc, pools, ⟨-, hl', rfl, -⟩ | ⟨hf, -⟩⟩
      · exact ⟨hl, rfl⟩
      · exact ⟨hl', rfl⟩
      · have hc := hacc.countable
        exact absurd ⟨hc, (fresh_iff_not_mem h ht hm hc).1 hf⟩ hnew
    refine ⟨l, ht, hold.1, List.Sublist.refl l, fun m' => ⟨.inl, ?_⟩, fun ct => ?_⟩
    · rintro (hm' | ⟨rfl, hc⟩)
      · exact hm'
      · exact by_contra fun hm' => hnew ⟨hc, hm'⟩
    · simp [hold.2, hnew]
  obtain ⟨hc, hmem⟩ := hnew
  rcases addVote_cases hl hadd with ⟨hnot, -⟩ |
    ⟨-, pools, ⟨hf, -⟩ | ⟨-, counters, ev1, ev2, hset, -, hcert, -⟩⟩
  · exact absurd (accepts_of_countable h ht hl hm hc) hnot
  · exact absurd ((fresh_iff_not_mem h ht hm hc).2 hmem) hf
  have ht' := ht.snoc hm hmem hc
  have hcontains := updateCertificates_contains hset
    (fun m' hm' => hranked m' (ht'.mem m' hm').1 (ht'.mem m' hm').2.2.2)
    (hset.ballots.totalStake_pos mem_concat_self) hcert
  refine ⟨l ++ [m], ht', (updateCertificates_spec hset hcert).1, sublist_append_left _ _,
    fun m' => ?_, fun ct => ?_⟩
  · rw [mem_append, mem_singleton]
    exact or_congr_right ⟨fun heq => ⟨heq, heq ▸ hc⟩, fun h => h.1⟩
  · rw [and_iff_right (And.intro hc hmem)]
    exact hcontains ct

lemma run_taken [SignerStore] {order : List VoteMessage} (horder : ∀ m ∈ order, m ∈ votes)
    (hl : HoldsBallots stakes l p)
    (hrun : run (step stakes) p (receiveVotes rootBank me order) = .ok (p', trace)) :
    ∃ l', Taken stakes rootBank votes l' ∧ HoldsBallots stakes l' p' ∧ l.Sublist l'
      ∧ (∀ m, m ∈ l' ↔ m ∈ l ∨ m ∈ order ∧ Countable stakes rootBank m)
      ∧ (∀ ct, p.completedCertificates.contains ct → p'.completedCertificates.contains ct)
      ∧ ∀ ct, p'.completedCertificates.contains ct → p.completedCertificates.contains ct
        ∨ (∃ m ∈ order, ct ∈ voteToCertTypes m.vote) ∧ Certified stakes l' ct := by
  induction order generalizing p l trace with
  | nil =>
    cases hrun
    exact ⟨l, ht, hl, List.Sublist.refl l, by simp, fun _ hct => hct, fun _ hct => .inl hct⟩
  | cons m order ih =>
    obtain ⟨hm, horder⟩ := forall_mem_cons.1 horder
    obtain ⟨p1, o1, o2, hs, hrun, -⟩ := run_cons_ok.1 hrun
    obtain ⟨ev, res, hadd⟩ := step_vote hs
    obtain ⟨l1, ht1, hl1, hsub1, hmem1, hcerts⟩ := addVote_taken h ht hranked hl hm hadd
    obtain ⟨l', ht', hl', hsub, hmem, hmono, hnew⟩ := ih ht1 horder hl1 hrun
    refine ⟨l', ht', hl', hsub1.trans hsub, fun m' => ?_,
      fun ct hct => hmono ct ((hcerts ct).2 (.inl hct)), fun ct hct => ?_⟩
    · rw [hmem, hmem1, mem_cons, or_and_right, or_assoc]
    · rcases hnew ct hct with hct | ⟨⟨m', hm', hv⟩, hcert⟩
      · rcases (hcerts ct).1 hct with hct | ⟨-, hv, hcert⟩
        · exact .inl hct
        · exact .inr ⟨⟨m, mem_cons_self, hv⟩, hcert.mono hsub⟩
      · exact .inr ⟨⟨m', mem_cons_of_mem _ hm', hv⟩, hcert⟩

lemma run_outcome [SignerStore]
    (hone : OneGenesisBlock stakes slot (countable stakes rootBank votes))
    {order : List VoteMessage} (horder : ∀ m ∈ order, m ∈ votes) (hout : Outcome stakes rootBlock me l p ev) :
    ∃ p' trace l', run (step stakes) p (receiveVotes rootBank me order) = .ok (p', trace)
      ∧ Taken stakes rootBank votes l' ∧ Outcome stakes rootBlock me l' p' (ev ++ traceEvents trace)
      ∧ (∀ m ∈ l, m ∈ l') ∧ ∀ m ∈ order, Countable stakes rootBank m → m ∈ l' := by
  induction order generalizing p l ev with
  | nil =>
    refine ⟨p, [], l, rfl, ht, ?_, fun _ hm => hm, nofun⟩
    rw [traceEvents, flatMap_nil, append_nil]
    exact hout
  | cons m order ih =>
    obtain ⟨hm, horder⟩ := forall_mem_cons.1 horder
    -- one call, then the others
    suffices hone : ∃ p1 ev1 res l1, addVote stakes rootBank me m p = .ok (p1, ev1, res)
        ∧ Taken stakes rootBank votes l1 ∧ Outcome stakes rootBlock me l1 p1 (ev ++ ev1)
        ∧ (∀ m' ∈ l, m' ∈ l1) ∧ (Countable stakes rootBank m → m ∈ l1) by
      obtain ⟨p1, ev1, res, l1, hadd, ht1, hout1, hsub, hmem⟩ := hone
      obtain ⟨p', trace, l', hrun, ht', hout', hsub', hmem'⟩ := ih ht1 horder hout1
      have hs := step_addMessage (.vote m) hadd
      refine ⟨p', _, l', run_cons_ok.2 ⟨p1, _, trace, hs, hrun, rfl⟩, ht', ?_,
        fun m' hm' => hsub' m' (hsub m' hm'), forall_mem_cons.2 ⟨fun hc => hsub' m (hmem hc), hmem'⟩⟩
      rw [traceEvents, flatMap_append, flatMap_singleton, ← append_assoc]
      exact hout'
    by_cases hc : Countable stakes rootBank m
    case neg =>
      obtain ⟨e, hadd, -⟩ := addVote_of_not_accepts (fun ha => hc ha.countable) me
      refine ⟨p, [], .error e, l, hadd, ht, ?_, fun _ hm' => hm', fun hc' => absurd hc' hc⟩
      rw [append_nil]
      exact hout
    have hacc := accepts_of_countable h ht hout.toHoldsBallots hm hc
    have hfresh := fresh_iff_not_mem h ht hm hc
    by_cases hmem : m ∈ l
    · obtain ⟨pools, hupd, hpools⟩ := (updateVotePool_spec hout.toHoldsBallots hacc.entry
        hacc.compatible).2 fun hf => hfresh.1 hf hmem
      refine ⟨_, [], .ok [], l, by rw [addVote_of_accepts hacc, hupd]; rfl, ht, ?_,
        fun _ hm' => hm', fun _ => hmem⟩
      rw [append_nil]
      exact ⟨⟨hpools, hout.counts⟩, ⟨hout.stored, { hout.told with }, { hout.final with },
        hout.certified⟩, hout.complete, hout.notarTold, hout.skipTold, hout.notPruned⟩
    · have ht' := ht.snoc hm hmem hc
      obtain ⟨p1, ev1, certs, hadd, hout1⟩ := hout.addVote (hfresh.2 hmem) hacc
        (fun m' hm' => hranked m' (ht'.mem m' hm').1 (ht'.mem m' hm').2.2.2)
        (fun m' hm' => h.slot_eq m' (ht'.mem m' hm').1) (hone.subperm ht'.subperm)
      exact ⟨p1, ev1, .ok certs, l ++ [m], hadd, ht', hout1,
        fun _ hm' => mem_append_left _ hm', fun _ => mem_concat_self⟩

end Compatible

/-! ## Order independence -/

namespace Outcome

variable [SignerStore] (h : Outcome stakes rootBlock me l p ev)
include h

lemma contains_iff (ct : CertificateType) :
    p.completedCertificates.contains ct ↔ Voted l ct ∧ Certified stakes l ct :=
  ⟨h.certified ct, fun ⟨hv, hc⟩ => h.complete ct hv hc⟩

lemma contains_eq (h' : Outcome stakes rootBlock me l' p' ev') (hperm : l.Perm l')
    (ct : CertificateType) :
    p.completedCertificates.contains ct = p'.completedCertificates.contains ct := by
  have hvoted : Voted l ct ↔ Voted l' ct := by simp only [Voted, hperm.mem_iff]
  rw [Bool.eq_iff_iff, h.contains_iff, h'.contains_iff, hvoted, certified_perm hperm]

lemma mem_safeToNotar : .safeToNotar (s, b) ∈ ev ↔ SafeToNotar stakes me s b l := by
  rw [← (h.counts s).safeToNotarSent, ← notarSent_eq, ← count_pos_iff, h.notarTold,
    count_pos_iff]

lemma mem_safeToSkip : .safeToSkip s ∈ ev ↔ SafeToSkip stakes me s l := by
  rw [← (h.counts s).safeToSkipSent, ← skipSent_eq, ← count_pos_iff, h.skipTold]
  split_ifs with hs <;> simp [hs]

lemma exists_mem (h' : Outcome stakes rootBlock me l' p' ev') (hperm : l.Perm l')
    {e : VotorEvent} (he : e ∈ ev) :
    ∃ e' ∈ ev', e'.ignoreFast = e.ignoreFast := by
  have hcerts := h.contains_eq h' hperm
  have hballots := h.toHoldsBallots.ballots
  rcases h.told.only e he with hfall | ⟨⟨s, b⟩, rfl⟩ | ⟨⟨s, b⟩, rfl⟩ | ⟨⟨s, b⟩, fast, rfl⟩ | ⟨s, b, rfl⟩
  · cases e with
    | safeToNotar block =>
      exact ⟨_, h'.mem_safeToNotar.2 ((hballots.safeToNotar_perm hperm).1 (h.mem_safeToNotar.1 he)),
        rfl⟩
    | safeToSkip s =>
      exact ⟨_, h'.mem_safeToSkip.2 ((hballots.safeToSkip_perm hperm).1 (h.mem_safeToSkip.1 he)), rfl⟩
    | _ => cases hfall
  · rw [h.told.notarized, hcerts, ← h'.told.notarized] at he
    exact ⟨_, he, rfl⟩
  · rw [h.told.notarFallback, hcerts, ← h'.told.notarFallback] at he
    exact ⟨_, he, rfl⟩
  · have hfin := (h.told.finalized s b).1 ⟨fast, he⟩
    rw [hcerts, hcerts, hcerts, ← h'.told.finalized] at hfin
    obtain ⟨fast', hfin⟩ := hfin
    exact ⟨_, hfin, rfl⟩
  · obtain ⟨a, -, -, hnot, hskip, hready⟩ := h.told.tracker
    obtain ⟨a', -, -, hnot', hskip', hready'⟩ := h'.told.tracker
    refine ⟨_, (hready' s b).2 ?_, rfl⟩
    obtain ⟨hs, ⟨hb, hlt, hbetween⟩, hnew⟩ := (hready s b).1 he
    refine ⟨hs, ⟨hb.imp_right fun hmem => ?_, hlt, fun k hk hk' => ?_⟩, hnew⟩
    · obtain ⟨hlt', ct, hct, hblock⟩ := (hnot b).1 hmem
      exact (hnot' b).2 ⟨hlt', ct, hcerts ct ▸ hct, hblock⟩
    · obtain ⟨hlt', hct⟩ := (hskip k).1 (hbetween k hk hk')
      exact (hskip' k).2 ⟨hlt', hcerts _ ▸ hct⟩

lemma highest_eq_some (hl : ∀ m ∈ l, m.vote.slot = slot) :
    p.highestFinalizedSlot = some s ↔ s = slot
      ∧ ∃ b, p.completedCertificates.contains (.finalizeFast slot b)
        ∨ p.completedCertificates.contains (.notarize slot b)
          ∧ p.completedCertificates.contains (.finalize slot) := by
  have hslot : ∀ {ct}, p.completedCertificates.contains ct → ct.slot = slot :=
    fun hct => slot_of_voted hl (h.certified _ hct).1
  have hsome : ∀ {s}, p.highestFinalizedSlot = some s → s = slot
      ∧ ∃ b, p.completedCertificates.contains (.finalizeFast slot b)
        ∨ p.completedCertificates.contains (.notarize slot b)
          ∧ p.completedCertificates.contains (.finalize slot) := by
    intro s hs
    obtain ⟨hc, hhc, rfl⟩ := Option.map_eq_some_iff.1 hs
    have hle : p.lastPrunedSlot ≤ hc.slot := h.notPruned.trans_le (Nat.zero_le _)
    cases hf : hc.isFast with
    | true =>
      obtain ⟨⟨b, hb⟩, -⟩ := h.final.kept_fast hc hhc hle hf
      have hs : hc.slot = slot := hslot hb
      exact ⟨hs, b, .inl (hs ▸ hb)⟩
    | false =>
      obtain ⟨⟨b, hb⟩, c, hc', -⟩ := h.final.kept_slow hc hhc hle hf
      have hs : hc.slot = slot := hslot hb
      exact ⟨hs, b, .inr ⟨hs ▸ hb, hs ▸ Option.isSome_of_eq_some hc'⟩⟩
  refine ⟨hsome, ?_⟩
  rintro ⟨rfl, b, hb⟩
  have hrec : ∃ hc, p.highestFinalizedSlotCert = some hc := by
    rcases hb with hb | ⟨hb, hs⟩
    · obtain ⟨hc, hhc, -⟩ := h.final.fast s b hb
      exact ⟨hc, hhc⟩
    · obtain ⟨hc, hhc, -⟩ := h.final.slow s b hs hb
      exact ⟨hc, hhc⟩
  obtain ⟨hc, hhc⟩ := hrec
  have hhigh : p.highestFinalizedSlot = some hc.slot := by
    rw [highestFinalizedSlot, hhc]
    rfl
  rw [hhigh, (hsome hhigh).1]

end Outcome

theorem Outcome.sameOutcome [SignerStore] {trace' : List (PoolOp × PoolReply)}
    (h : Outcome stakes rootBlock me l p (traceEvents trace))
    (h' : Outcome stakes rootBlock me l' p' (traceEvents trace')) (hperm : l.Perm l')
    (hl : ∀ m ∈ l, m.vote.slot = slot) : SameOutcome (p, trace) (p', trace') := by
  refine ⟨h.contains_eq h' hperm, fun e => ?_, ?_⟩
  · simp only [mem_map]
    constructor
    · rintro ⟨e, he, rfl⟩
      exact h.exists_mem h' hperm he
    · rintro ⟨e, he, rfl⟩
      exact h'.exists_mem h hperm.symm he
  · have hl' : ∀ m ∈ l', m.vote.slot = slot := fun m hm => hl m (hperm.mem_iff.2 hm)
    refine Option.ext fun s => ?_
    rw [h.highest_eq_some hl, h'.highest_eq_some hl']
    simp only [h.contains_eq h' hperm]

lemma Outcome.toldOnce [SignerStore] (h : Outcome stakes rootBlock me l p (traceEvents trace)) :
    ToldOnce trace := by
  refine ⟨fun block => ?_, fun s => ?_⟩
  · rw [h.notarTold]
    refine nodup_iff_count_le_one.1 ?_ _
    rw [notarSent_eq p block.1 (stakes block.1).totalStake]
    exact (h.counts block.1).nodup
  · rw [h.skipTold]
    split_ifs <;> omega

/-! ## Genesis votes for two blocks -/

lemma exists_short_of_stake (h : Compatible slot votes)
    (hnot : ¬ OneGenesisBlock stakes slot (countable stakes rootBank votes)) :
    ∃ m ∈ votes, Countable stakes rootBank m ∧ m.vote.getType = .genesis
      ∧ 100 * stakeOf stakes ((ofType slot .genesis (countable stakes rootBank votes)).filter
          (·.vote = m.vote)) < 82 * (stakes slot).totalStake := by
  set L := ofType slot .genesis (countable stakes rootBank votes) with hL
  have hmem : ∀ {m}, m ∈ L ↔ (m ∈ votes ∧ Countable stakes rootBank m) ∧ m.vote.slot = slot
      ∧ m.vote.getType = .genesis := by
    intro m
    rw [hL, mem_ofType, countable, mem_dedup, mem_filter, decide_eq_true_eq]
  unfold OneGenesisBlock at hnot
  push Not at hnot
  obtain ⟨⟨m1, hm1, m2, hm2, hne⟩, hstake⟩ := hnot
  -- each validator has one Genesis vote
  have hnd : (L.map (·.key stakes)).Nodup := by
    refine List.Nodup.map_on (fun m hm m' hm' hkey => ?_) ((nodup_dedup _).filter _)
    obtain ⟨⟨hv, hc⟩, hs, hty⟩ := hmem.1 hm
    obtain ⟨⟨hv', hc'⟩, hs', hty'⟩ := hmem.1 hm'
    exact h.eq_of_maxEntries hv hv' (rank_eq_of_key_eq hc'.2.2 hc.2.2 (hs'.trans hs.symm)
      hkey.symm) (hty'.trans hty.symm) (hty ▸ rfl)
  have htotal : stakeOf stakes L ≤ (stakes slot).totalStake :=
    stakeOf_le_totalStake (fun m hm => (hmem.1 hm).2.1) (fun m hm => (hmem.1 hm).1.2.2.2) hnd
  have htwo : stakeOf stakes (L.filter (·.vote = m1.vote)) + stakeOf stakes (L.filter (·.vote = m2.vote))
      ≤ stakeOf stakes L := by
    rw [← stakeOf_perm (filter_append_perm (fun m => decide (m.vote = m1.vote)) L),
      stakeOf_append]
    refine Nat.add_le_add_left (stakeOf_subperm (List.Sublist.subperm ?_)) _
    refine monotone_filter_right L fun m hm => ?_
    rw [decide_eq_true_eq] at hm
    simp [hm, hne.symm]
  have hpos : 0 < (stakes slot).totalStake := by
    obtain ⟨e, he⟩ := Option.isSome_iff_exists.1 (hmem.1 hm1).1.2.2.2
    have hstake_pos := (stakes m1.vote.slot).stake_pos e (mem_of_getElem? he)
    have hle : m1.stake stakes ≤ stakeOf stakes L :=
      le_sum_of_mem (mem_map.2 ⟨m1, hm1, rfl⟩)
    have : m1.stake stakes = e.stake := by simp [VoteMessage.stake, he]
    omega
  by_cases hlt : 100 * stakeOf stakes (L.filter (·.vote = m1.vote)) < 82 * (stakes slot).totalStake
  · exact ⟨m1, (hmem.1 hm1).1.1, (hmem.1 hm1).1.2, (hmem.1 hm1).2.2, hlt⟩
  · exact ⟨m2, (hmem.1 hm2).1.1, (hmem.1 hm2).1.2, (hmem.1 hm2).2.2, by omega⟩

/-- With Genesis votes for two blocks, the order tells which of them gets a certificate: the votes
for a block first, or one of them last. -/
theorem not_orderIndependent [SignerStore] (h : Compatible slot votes)
    (hranked : ∀ m ∈ votes, (m.entry stakes).isSome → m.Ranked stakes)
    (hnot : ¬ OneGenesisBlock stakes slot (countable stakes rootBank votes)) :
    ¬ OrderIndependent stakes rootBank me votes := by
  intro hall
  have henough : 82 * (stakes slot).totalStake
      ≤ 100 * stakeOf stakes (ofType slot .genesis (countable stakes rootBank votes)) := by
    unfold OneGenesisBlock at hnot
    push Not at hnot
    exact hnot.2
  obtain ⟨m, hm, hc, hty, hshort⟩ := exists_short_of_stake h hnot
  obtain ⟨b, hb⟩ : ∃ b, m.vote = .genesis slot b := by
    have hs := h.slot_eq m hm
    obtain ⟨v, rank⟩ := m
    cases v with
    | genesis s b => exact ⟨b, by rw [show s = slot from hs]⟩
    | _ => cases hty
  obtain ⟨rest, hrest⟩ : ∃ rest, votes.filter (· = m) = m :: rest := by
    cases hf : votes.filter (· = m) with
    | nil => exact absurd hm fun hm => by simpa using filter_eq_nil_iff.1 hf m hm
    | cons m' rest =>
      have : m' ∈ votes.filter (· = m) := hf ▸ mem_cons_self
      rw [of_decide_eq_true (mem_filter.1 this).2]
      exact ⟨rest, rfl⟩
  have hfirst := filter_append_perm (fun m' => decide (m'.vote = m.vote)) votes
  have hlast : (votes.filter (fun m' => !decide (m' = m)) ++ m :: rest).Perm votes := by
    rw [← hrest]
    exact perm_append_comm.trans (filter_append_perm (fun m' => decide (m' = m)) votes)
  obtain ⟨⟨p, trace⟩, ⟨p', trace'⟩, hrun, hrun', hsame, -⟩ := hall _ _ hfirst hlast
  have hnew : ∀ ct, ¬ (newFromRootBank rootBank).completedCertificates.contains ct := nofun
  have ht0 : Taken stakes rootBank votes [] := ⟨nodup_nil, nofun⟩
  have hgenesis := hsame.certificates (.genesis slot b)
  -- its own votes do not make the certificate, and it is not looked for after others
  have hno : ¬ p.completedCertificates.contains (.genesis slot b) := by
    intro hct
    rw [receiveVotes, map_append] at hrun
    obtain ⟨p1, o1, o2, hrun1, hrun2, -⟩ := run_append_ok.1 hrun
    obtain ⟨l1, ht1, hl1, -, hmem1, -, hnew1⟩ := run_taken h ht0 hranked
      (fun m' hm' => mem_of_mem_filter hm') (holdsBallots_new rootBank) hrun1
    obtain ⟨l2, -, -, -, -, -, hnew2⟩ := run_taken h ht1 hranked
      (fun m' hm' => mem_of_mem_filter hm') hl1 hrun2
    rcases hnew2 _ hct with hct | ⟨⟨m', hm', hv⟩, -⟩
    · obtain ⟨-, hcert⟩ := (hnew1 _ hct).resolve_left (hnew _)
      rw [certified_genesis] at hcert
      have hle : stakeOf stakes (ofType slot .genesis l1) ≤ stakeOf stakes
          ((ofType slot .genesis (countable stakes rootBank votes)).filter (·.vote = m.vote)) := by
        refine stakeOf_subperm ((ht1.nodup.filter _).subperm fun m' hm' => ?_)
        obtain ⟨hl', hs', hty'⟩ := mem_ofType.1 hm'
        have hv := (hmem1 m').1 hl'
        simp only [not_mem_nil, false_or] at hv
        refine mem_filter.2 ⟨mem_ofType.2 ⟨?_, hs', hty'⟩, (mem_filter.1 hv.1).2⟩
        exact mem_dedup.2 (mem_filter.2 ⟨mem_of_mem_filter hv.1, decide_eq_true hv.2⟩)
      omega
    · rw [mem_voteToCertTypes_genesis] at hv
      simp [hv, hb] at hm'
  -- after all others the stake is enough
  have hyes : p'.completedCertificates.contains (.genesis slot b) := by
    rw [receiveVotes, map_append] at hrun'
    obtain ⟨p1, o1, o2, hrun1, hrun2, -⟩ := run_append_ok.1 hrun'
    obtain ⟨l1, ht1, hl1, -, hmem1, -, -⟩ := run_taken h ht0 hranked
      (fun m' hm' => mem_of_mem_filter hm') (holdsBallots_new rootBank) hrun1
    obtain ⟨p2, o3, o4, hs, hrun3, -⟩ := run_cons_ok.1 hrun2
    obtain ⟨ev, res, hadd⟩ := step_vote hs
    have hnot1 : m ∉ l1 := by
      intro hm'
      have := (hmem1 m).1 hm'
      simp at this
    obtain ⟨l2, ht2, hl2, -, hmem2, hcerts⟩ := addVote_taken h ht1 hranked hl1 hm hadd
    have hperm : l2.Perm (countable stakes rootBank votes) := by
      refine ht2.perm fun m' hm' hc' => ?_
      rw [hmem2, hmem1]
      by_cases heq : m' = m
      · exact .inr ⟨heq, hc'⟩
      · exact .inl (.inr ⟨mem_filter.2 ⟨hm', by simp [heq]⟩, hc'⟩)
    have hcert : Certified stakes l2 (.genesis slot b) :=
      (certified_perm hperm).2 (certified_genesis.2 henough)
    obtain ⟨-, -, -, -, -, hmono, -⟩ := run_taken h ht2 hranked
      (fun m' hm' => by
        have : m' ∈ votes.filter (· = m) := hrest ▸ mem_cons_of_mem _ hm'
        exact mem_of_mem_filter this) hl2 hrun3
    exact hmono _ ((hcerts _).2 (.inr ⟨⟨hc, hnot1⟩, mem_voteToCertTypes_genesis.2 hb, hcert⟩))
  exact hno (hgenesis.trans hyes)

/-- Any two orders of compatible votes bring a fresh pool to the same certificates, events and highest
finalized slot, and tell of each fallback vote once, just if the Genesis votes it counts are for one
block or short of the stake for a certificate. This takes ranks below the length of the rank map:
with others a run can panic. -/
theorem orderIndependent_iff [SignerStore] (h : Compatible slot votes)
    (hranked : ∀ m ∈ votes, (m.entry stakes).isSome → m.Ranked stakes) :
    OrderIndependent stakes rootBank me votes
      ↔ OneGenesisBlock stakes slot (countable stakes rootBank votes) := by
  refine ⟨fun hall => by_contra fun hnot => not_orderIndependent h hranked hnot hall, fun hone => ?_⟩
  have hrun : ∀ order : List VoteMessage, order.Perm votes → ∃ p trace l,
      run (step stakes) (newFromRootBank rootBank) (receiveVotes rootBank me order) = .ok (p, trace)
      ∧ Taken stakes rootBank votes l
      ∧ Outcome stakes (rootBank.slot, rootBank.blockId.getD 0) me l p (traceEvents trace)
      ∧ l.Perm (countable stakes rootBank votes) := by
    intro order hperm
    obtain ⟨p, trace, l, hrun, ht, hout, -, hmem⟩ := run_outcome h ⟨nodup_nil, nofun⟩ hranked
      hone (fun m hm => hperm.mem_iff.1 hm) (outcome_new rootBank)
    exact ⟨p, trace, l, hrun, ht, hout, ht.perm fun m hm => hmem m (hperm.mem_iff.2 hm)⟩
  intro order order' hperm hperm'
  obtain ⟨p, trace, l, hrun1, ht, hout, hl⟩ := hrun order hperm
  obtain ⟨p', trace', l', hrun2, -, hout', hl'⟩ := hrun order' hperm'
  exact ⟨(p, trace), (p', trace'), hrun1, hrun2, hout.sameOutcome hout' (hl.trans hl'.symm)
    fun m hm => h.slot_eq m (ht.mem m hm).1, hout.toldOnce⟩

open PlainStore

/-- Two validators with 90% of the stake, one Genesis vote each, for two blocks: the block of the vote
that comes last gets the certificate. -/
theorem genesis_depends_on_order : Compatible 1 [⟨.genesis 1 7, 0⟩, ⟨.genesis 1 8, 1⟩]
    ∧ ∃ r r', run (step fun _ => threeStakes) (newFromRootBank rootBankZero)
        (receiveVotes rootBankZero 9 [⟨.genesis 1 7, 0⟩, ⟨.genesis 1 8, 1⟩]) = .ok r
      ∧ run (step fun _ => threeStakes) (newFromRootBank rootBankZero)
        (receiveVotes rootBankZero 9 [⟨.genesis 1 8, 1⟩, ⟨.genesis 1 7, 0⟩]) = .ok r'
      ∧ r.1.completedCertificates.keys = [.genesis 1 8]
      ∧ r'.1.completedCertificates.keys = [.genesis 1 7] :=
  ⟨⟨by decide, by decide, by decide⟩, _, _, rfl, rfl, by decide +kernel, by decide +kernel⟩

/-- Votes for two blocks, fallback votes, a vote to finalize, a repeated one and a Genesis vote of a
validator that has not voted otherwise, in any order. -/
theorem orderIndependent_two_blocks : OrderIndependent (fun _ => threeStakes) rootBankZero 2
    [⟨.notarize 3 7, 0⟩, ⟨.notarize 3 8, 1⟩, ⟨.notarizeFallback 3 7, 1⟩, ⟨.finalize 3, 0⟩,
      ⟨.notarizeFallback 3 7, 1⟩, ⟨.genesis 3 9, 2⟩, ⟨.skip 3, 5⟩] := by
  refine (orderIndependent_iff (show Compatible 3 _ from ⟨by decide, by decide, by decide⟩)
    fun m hm hentry => ?_).2 (by decide)
  exact ⟨by revert m; decide, by revert m; decide⟩

end ConsensusPool

end BlackBull
