import BlackBull.Proofs.PoolCounts

/-!
# Votes do not stop the pool

What each of the pool's assertions needs is kept by votes.
-/

namespace BlackBull

open List CertificateType ParentReadyTracker

variable {stakes : ℕ → EpochStakes} {l : List VoteMessage} {m : VoteMessage} {slot rootSlot : ℕ}
  {blockId : Option Hash} {certType : CertificateType} {cert : Certificate} {v : Vote}
  {t t' : ParentReadyTracker} {block : Block}

/-! ## The blocks of a slot -/

/-- The votes certify the block. -/
def Backed (stakes : ℕ → EpochStakes) (l : List VoteMessage) (block : Block) : Prop :=
  ∃ certType : CertificateType, certType.toBlock = some block ∧ Certified stakes l certType

lemma stakeOf_notarizeFallback {b : Hash} :
    stakeOf stakes (certVotes (.notarizeFallback slot b) (some b) l)
      = stakeOf stakes (notarizeVotes slot b l)
        + stakeOf stakes (counted .notarizeFallback (some b) (ofType slot .notarizeFallback l)) := by
  simp [certVotes, limitsAndVoteTypes, notarizeVotes, CertificateType.slot]

lemma Certified.notarizeFallback (h : Certified stakes l certType)
    (hb : certType.toBlock = some block) (hgen : certType ≠ .genesis block.1 block.2) :
    Certified stakes l (.notarizeFallback block.1 block.2) := by
  obtain ⟨s, b⟩ := block
  have hnotarize : notarizeVotes s b l = counted .notarize (some b) (ofType s .notarize l) := rfl
  unfold Certified at h ⊢
  simp only [toBlock, Option.map_some, stakeOf_notarizeFallback,
    limitsAndVoteTypes, Fraction.fromPercentage, slot]
  cases certType with
  | notarize slot b' | finalizeFast slot b' =>
    cases hb
    simp only [toBlock, Option.map_some, limitsAndVoteTypes,
      Fraction.fromPercentage, slot, certVotes, flatMap_cons,
      flatMap_nil, append_nil] at h
    rw [hnotarize]
    omega
  | notarizeFallback slot b' =>
    cases hb
    simpa only [toBlock, Option.map_some, stakeOf_notarizeFallback,
      limitsAndVoteTypes, Fraction.fromPercentage, slot] using h
  | genesis slot b' =>
    cases hb
    exact absurd rfl hgen
  | finalize slot | skip slot => cases hb

lemma Ballots.notarizeFallback_le_six (h : Ballots stakes l)
    (hpos : 0 < (stakes slot).totalStake) {bs : List Hash} (hnd : bs.Nodup)
    (hbs : ∀ b ∈ bs, Certified stakes l (.notarizeFallback slot b)) : bs.length ≤ 6 := by
  set T := (stakes slot).totalStake with hT
  have hone : ∀ b ∈ bs, 60 * T
      ≤ 100 * stakeOf stakes (certVotes (.notarizeFallback slot b) (some b) l) := hbs
  have hmul : bs.length * (60 * T) ≤ (bs.map fun b =>
      100 * stakeOf stakes (certVotes (.notarizeFallback slot b) (some b) l)).sum := by
    have := card_nsmul_le_sum (bs.map fun b =>
      100 * stakeOf stakes (certVotes (.notarizeFallback slot b) (some b) l)) (60 * T) (by
        intro x hx
        obtain ⟨b, hb, rfl⟩ := mem_map.1 hx
        exact hone b hb)
    simpa using this
  rw [sum_map_mul_left] at hmul
  simp only [stakeOf_notarizeFallback, sum_map_add] at hmul
  have h1 := @stakeOf_notarizeVotes_sum_le stakes l slot bs hnd
  have h2 := @stakeOf_counted_sum_le stakes l slot .notarizeFallback rfl bs hnd
  have h3 := @Ballots.stakeOf_ofType_le stakes l slot .notarize h rfl
  have h4 := @Ballots.stakeOf_ofType_le stakes l slot .notarizeFallback h rfl
  simp only [VoteType.maxEntries, maxEntriesPerPubkeyForOtherTypes,
    maxEntriesPerPubkeyForNotarizeLite] at h3 h4
  by_contra hlen
  have h7 : 7 * (60 * T) ≤ bs.length * (60 * T) := Nat.mul_le_mul_right _ (by omega)
  omega

lemma Certified.mono {l' : List VoteMessage} (h : Certified stakes l certType)
    (hl : l.Sublist l') : Certified stakes l' certType := by
  refine h.trans (Nat.mul_le_mul_left _ ?_)
  have hsub : (certVotes certType (certType.toBlock.map (·.2)) l).Sublist
      (certVotes certType (certType.toBlock.map (·.2)) l') := by
    refine List.Sublist.flatMap_right _ fun ty _ => ?_
    unfold counted
    split_ifs
    · exact (hl.filter _).filter _
    · exact hl.filter _
  exact (hsub.map _).sum_le_sum fun _ _ => Nat.zero_le _

lemma Backed.snoc (h : Backed stakes l block) : Backed stakes (l ++ [m]) block := by
  obtain ⟨certType, hct, hcert⟩ := h
  exact ⟨certType, hct, hcert.mono (sublist_append_left _ _)⟩

lemma slot_of_toBlock (h : certType.toBlock = some block) : block.1 = certType.slot := by
  cases certType <;> cases h <;> rfl

lemma Backed.filter_slot (h : Backed stakes l block) (hle : rootSlot ≤ block.1) :
    Backed stakes (l.filter fun m => rootSlot ≤ m.vote.slot) block := by
  obtain ⟨certType, hct, hcert⟩ := h
  rw [slot_of_toBlock hct] at hle
  refine ⟨certType, hct, ?_⟩
  unfold Certified certVotes at hcert ⊢
  simpa only [ofType_filter_slot, if_pos hle] using hcert

/-! ## Building a certificate -/

lemma Ballots.stakeOf_certVotes_le (h : Ballots stakes l) :
    stakeOf stakes (certVotes certType blockId l) ≤ (stakes certType.slot).totalStake :=
  stakeOf_le_totalStake (fun _ hm => (mem_certVotes.1 hm).2.1)
    (fun m hm => h.entry m (mem_certVotes.1 hm).1) (h.nodup_certVotes certType)

/-- A rank that certificates and the rank map have room for. -/
structure VoteMessage.Ranked (stakes : ℕ → EpochStakes) (m : VoteMessage) : Prop where
  lt_maximumValidators : m.rank < maximumValidators
  lt_rankMapLen : m.rank < (stakes m.vote.slot).rankMapLen

/-- Its bitmap is one, with room in the rank map. -/
def Certificate.HasSigners [SignerStore] (stakes : ℕ → EpochStakes) (c : Certificate) : Prop :=
  ∃ ranks, SignerStore.decode c.bitmap (stakes c.certType.slot).rankMapLen = some (.base2 ranks)

namespace ConsensusPool

variable {p p' : ConsensusPool} {rootBank : RootBank}

lemma exists_extractSigners [SignerStore] (h : cert.HasSigners stakes)
    (hhas : rootBank.hasEpochStakes cert.certType.slot) :
    ∃ signers, extractSigners stakes rootBank cert = .ok signers := by
  obtain ⟨ranks, hranks⟩ := h
  unfold extractSigners RootBank.epochStakesFromSlot
  simp only [if_pos hhas, hranks]
  exact ⟨_, rfl⟩

/-- One turn of `updateCertificates`, where the ranks are within the limits: a certificate that is
new and has the votes is built and inserted. -/
theorem updateCertificate_eq [SignerStore]
    (h : HoldsBallots stakes l p) (hranked : ∀ m ∈ l, m.Ranked stakes)
    (hpos : 0 < (stakes certType.slot).totalStake) (hmem : certType ∈ voteToCertTypes v)
    (rootBank : RootBank) (ev : List VotorEvent) (certs : List Certificate) :
    ((p.completedCertificates.contains certType ∨ ¬ Certified stakes l certType)
      ∧ updateCertificate stakes rootBank certType.slot v.blockId (stakes certType.slot).totalStake
        (p, ev, .ok certs) certType = .ok (p, ev, .ok certs))
    ∨ ¬ p.completedCertificates.contains certType ∧ Certified stakes l certType
      ∧ ∃ cert, BuiltFrom stakes l v.blockId certType cert
        ∧ (certType.limitsAndVoteTypes.2.length = 1 → cert.HasSigners stakes)
        ∧ updateCertificate stakes rootBank certType.slot v.blockId
          (stakes certType.slot).totalStake (p, ev, .ok certs) certType
          = insertCertificate stakes rootBank certType cert p >>= fun r =>
            .ok (r.1, ev ++ r.2, .ok (certs ++ [cert])) := by
  obtain ⟨hblock, hsome⟩ := blockId_of_mem_voteToCertTypes hmem
  by_cases hc : p.completedCertificates.contains certType
  · refine .inl ⟨.inl hc, ?_⟩
    exact if_pos hc
  have hblocks : ¬ ∃ ty ∈ certType.limitsAndVoteTypes.2, ty.byBlock = true ∧ v.blockId = none := by
    rintro ⟨ty, hty, hb, hnone⟩
    simpa [hnone] using hsome ty hty hb
  obtain ⟨acc, hacc, hstake⟩ := (accumulatedStake_spec h).exists_ok fun _ he => he.elim hblocks
    (Nat.not_lt.2 (h.ballots.stakeOf_certVotes_le.trans (stakes certType.slot).total_le))
  have hfrac := @SlotStakeCounters.fractionOf_pos acc _ hpos
  have hlimit : (⟨acc, _, hpos⟩ : Fraction).lt certType.limitsAndVoteTypes.1
      ↔ ¬ Certified stakes l certType := by
    rw [hstake]
    unfold Fraction.lt Certified
    rw [hblock, not_le, Nat.mul_comm]
    rfl
  by_cases hcert : Certified stakes l certType
  case neg =>
    refine .inl ⟨.inr hcert, ?_⟩
    simp only [updateCertificate, if_neg hc, hacc, hfrac, bind, Except.bind, if_pos (hlimit.2 hcert)]
  obtain ⟨b, hb, hperm, hfrom⟩ := (aggregateVotes_spec h).exists_ok fun _ he => by
    obtain ⟨m, hm, hle⟩ := he.resolve_left hblocks
    exact absurd (hranked m (mem_certVotes.1 hm).1).lt_maximumValidators (Nat.not_lt.2 hle)
  obtain ⟨cert, hbuild⟩ := hfrom.exists_build (h.ballots.nodup_ranks certType)
  obtain ⟨htype, hsig, -⟩ := BuilderType.build_ok hbuild
  refine .inr ⟨hc, hcert, cert, ⟨htype, hsig ▸ hperm, ?_⟩, fun hone => ?_, ?_⟩
  · have hge := (Fraction.ge_iff_toRat _ _).1 (Fraction.not_lt.1 (mt hlimit.1 (not_not.2 hcert)))
    rw [hstake] at hge
    exact hge
  · refine hfrom.base2 hbuild hone fun m hm => ?_
    obtain ⟨hl, hslot, -⟩ := mem_certVotes.1 hm
    rw [htype, ← hslot]
    exact (hranked m hl).lt_rankMapLen
  · simp only [updateCertificate, if_neg hc, hacc, hfrac, bind, Except.bind,
      if_neg (mt hlimit.1 (not_not.2 hcert)), hb, hbuild]

/-! ## Inserting a certificate -/

/-- Certificates are stored under their type, with signers that can be extracted. -/
structure CertsStored [SignerStore]
    (stakes : ℕ → EpochStakes) (certs : OrdMap CertificateType Certificate) :
    Prop where
  certType_eq : ∀ certType c, certs.get? certType = some c → c.certType = certType
  hasSigners : ∀ certType c, certs.get? certType = some c →
    certType.limitsAndVoteTypes.2.length = 1 → c.HasSigners stakes

lemma CertsStored.insert [SignerStore]
    {certs : OrdMap CertificateType Certificate} (h : CertsStored stakes certs)
    (heq : cert.certType = certType)
    (hsign : certType.limitsAndVoteTypes.2.length = 1 → cert.HasSigners stakes) :
    CertsStored stakes (certs.insert certType cert) := by
  refine ⟨fun ct c hget => ?_, fun ct c hget => ?_⟩
  all_goals
    rw [OrdMap.get?_insert] at hget
    split_ifs at hget with hct
  · cases hget
    exact heq.trans hct
  · exact h.certType_eq ct c hget
  · cases hget
    exact hct ▸ hsign
  · exact h.hasSigners ct c hget

lemma CertsStored.exists_signers [SignerStore] (h : CertsStored stakes p.completedCertificates)
    (hhas : rootBank.hasEpochStakes certType.slot) (heq : cert.certType = certType)
    (hsign : certType.limitsAndVoteTypes.2.length = 1 → cert.HasSigners stakes)
    (hfin : (p.finalizes certType).isSome) {sc : Certificate}
    (hsc : p.signed cert certType = some sc) :
    ∃ signers, extractSigners stakes rootBank sc = .ok signers := by
  rcases (finalizes_isSome h.certType_eq).1 hfin with ⟨s, b, rfl⟩ | ⟨s, b, rfl, -⟩ | ⟨s, b, rfl, -⟩
  · cases hsc
    exact exists_extractSigners (hsign rfl) (heq ▸ hhas)
  · refine exists_extractSigners (h.hasSigners _ _ hsc rfl) ?_
    rw [h.certType_eq _ _ hsc]
    exact hhas
  · cases hsc
    exact exists_extractSigners (hsign rfl) (heq ▸ hhas)

lemma exists_insertCertificate [SignerStore]
    (hstored : ∀ ct c, (p.completedCertificates.insert certType cert).get? ct = some c →
      c.certType = ct)
    (hsign : ∀ sc, let q : ConsensusPool :=
        { p with completedCertificates := p.completedCertificates.insert certType cert }
      (q.finalizes certType).isSome → q.signed cert certType = some sc →
      ∃ signers, extractSigners stakes rootBank sc = .ok signers)
    (htrack : ∃ r, track p.parentReadyTracker certType = .ok r) :
    ∃ r, insertCertificate stakes rootBank certType cert p = .ok r := by
  obtain ⟨⟨t, tracked⟩, ht⟩ := htrack
  obtain ⟨c, hc⟩ := exists_finalization hstored hsign
  rw [insertCertificate_eq, ht]
  simp only [hc]
  exact ⟨_, rfl⟩

lemma exists_updateCertificate [SignerStore]
    (h : HoldsBallots stakes l p) (hranked : ∀ m ∈ l, m.Ranked stakes)
    (hstored : CertsStored stakes p.completedCertificates)
    (hpos : 0 < (stakes certType.slot).totalStake) (hhas : rootBank.hasEpochStakes certType.slot)
    (hmem : certType ∈ voteToCertTypes v)
    (htrack : Certified stakes l certType → ∃ r, track p.parentReadyTracker certType = .ok r)
    (ev : List VotorEvent) (certs : List Certificate) :
    ∃ p' ev' certs', updateCertificate stakes rootBank certType.slot v.blockId
        (stakes certType.slot).totalStake (p, ev, .ok certs) certType
        = .ok (p', ev ++ ev', .ok certs')
      ∧ (p' = p ∧ ev' = []
        ∨ ¬ p.completedCertificates.contains certType ∧ Certified stakes l certType
          ∧ ∃ cert, cert.certType = certType
            ∧ CertsStored stakes (p.completedCertificates.insert certType cert)
            ∧ insertCertificate stakes rootBank certType cert p = .ok (p', ev')) := by
  rcases updateCertificate_eq h hranked hpos hmem rootBank ev certs with
    ⟨-, heq⟩ | ⟨hnew, hcert, cert, hbuilt, hsign, heq⟩
  · exact ⟨p, [], certs, by rw [heq, append_nil], .inl ⟨rfl, rfl⟩⟩
  have hstored := hstored.insert hbuilt.certType_eq hsign
  obtain ⟨⟨p', ev'⟩, hins⟩ := exists_insertCertificate hstored.certType_eq
    (fun sc hfin hsc => CertsStored.exists_signers hstored hhas hbuilt.certType_eq hsign hfin hsc)
    (htrack hcert)
  exact ⟨p', ev', certs ++ [cert], by rw [heq, hins]; rfl,
    .inr ⟨hnew, hcert, cert, hbuilt.certType_eq, hstored, hins⟩⟩

lemma exists_updateCertificates [SignerStore]
    {P : ConsensusPool → List VotorEvent → Prop} (h0 : P p [])
    (hstep : ∀ p ev certs certType, certType ∈ voteToCertTypes v → P p ev →
      ∃ p' ev' certs', updateCertificate stakes rootBank certType.slot v.blockId
          (stakes certType.slot).totalStake (p, ev, .ok certs) certType
          = .ok (p', ev', .ok certs') ∧ P p' ev') :
    ∃ p' ev certs, updateCertificates stakes rootBank v v.blockId (stakes v.slot).totalStake p
      = .ok (p', ev, .ok certs) ∧ P p' ev := by
  let Q (acc : ConsensusPool × List VotorEvent × Except AddVoteError (List Certificate)) : Prop :=
    (∃ certs, acc.2.2 = .ok certs) ∧ P acc.1 acc.2.1
  have hturn : ∀ acc certType, certType ∈ voteToCertTypes v → Q acc →
      ∃ acc', updateCertificate stakes rootBank v.slot v.blockId (stakes v.slot).totalStake acc
        certType = .ok acc' ∧ Q acc' := by
    rintro ⟨p1, ev1, res1⟩ certType hmem ⟨⟨certs, rfl⟩, hP⟩
    obtain ⟨p2, ev2, certs2, heq, hP2⟩ := hstep p1 ev1 certs certType hmem hP
    rw [slot_of_mem_voteToCertTypes hmem] at heq
    exact ⟨_, heq, ⟨certs2, rfl⟩, hP2⟩
  obtain ⟨⟨p', ev, res⟩, hfold, ⟨certs, rfl⟩, hP⟩ := foldlM_returns
    (show Q (p, [], .ok []) from ⟨⟨[], rfl⟩, h0⟩) hturn
  exact ⟨p', ev, certs, hfold, hP⟩

/-! ## The blocks of the tracker -/

lemma exists_track (h : ∀ block, certType.toBlock = some block →
    ∃ r, t.addNewNotarFallbackOrStronger block = .ok r) : ∃ r, track t certType = .ok r := by
  cases certType with
  | notarize s b | notarizeFallback s b | finalizeFast s b | genesis s b => exact h _ rfl
  | skip s | finalize s => exact ⟨_, rfl⟩

/-- `t'` is `t` after a certificate: its block is among those of its slot, if it is above the root,
and no other block is new. -/
structure Tracks (certType : CertificateType) (t t' : ParentReadyTracker) : Prop where
  root : t'.root = t.root
  notarFallbacks : ∀ s, (t'.status s).notarFallbacks = (t.status s).notarFallbacks
    ∨ ∃ block, certType.toBlock = some block ∧ block.1 = s ∧ block ∉ (t.status s).notarFallbacks
      ∧ (t'.status s).notarFallbacks = (t.status s).notarFallbacks ++ [block]
      ∧ (t'.status s).notarFallbacks.length ≤ maxNotarFallbackBlocks
  mem : ∀ block, certType.toBlock = some block → t.root < block.1 →
    block ∈ (t'.status block.1).notarFallbacks

lemma Tracks.of_block {ev : List VotorEvent}
    (h : t.addNewNotarFallbackOrStronger block = .ok (t', ev))
    (hb : certType.toBlock = some block) : Tracks certType t t' := by
  rcases addNewNotarFallbackOrStronger_cases h with
    ⟨hmem, hadds⟩ | ⟨-, hmem, hlen, hadds⟩
  · refine ⟨hadds.root, fun s => .inl (hadds.notarFallbacks s), fun block' hb' hlt => ?_⟩
    cases hb.symm.trans hb'
    rw [hadds.notarFallbacks]
    exact hmem hlt
  · have hnfs : ∀ s, (t'.status s).notarFallbacks = if block.1 = s
        then (t.status block.1).notarFallbacks ++ [block] else (t.status s).notarFallbacks := by
      intro s
      rw [hadds.notarFallbacks, withBlock, status_setStatus]
      split_ifs <;> rfl
    refine ⟨hadds.root, fun s => ?_, fun block' hb' _ => ?_⟩
    · rw [hnfs]
      split_ifs with hs
      · subst hs
        exact .inr ⟨block, hb, rfl, hmem, rfl, hlen⟩
      · exact .inl rfl
    · cases hb.symm.trans hb'
      rw [hnfs, if_pos rfl]
      exact mem_concat_self

lemma tracks_of_track {ev : List VotorEvent} (h : track t certType = .ok (t', ev)) :
    Tracks certType t t' := by
  cases certType with
  | notarize slot b | notarizeFallback slot b | finalizeFast slot b | genesis slot b =>
    exact Tracks.of_block h rfl
  | finalize slot =>
    cases h
    exact ⟨rfl, fun s => .inl rfl, nofun⟩
  | skip slot =>
    have h := Except.ok.inj h
    by_cases hroot : t.root < slot
    · have hadds := t.addNewSkip_adds hroot
      rw [h] at hadds
      refine ⟨hadds.root, fun s => .inl ?_, nofun⟩
      rw [hadds.notarFallbacks, status_setStatus]
      split_ifs with hs
      · rw [hs]
      · rfl
    · unfold addNewSkip at h
      rw [if_pos (by omega)] at h
      cases h
      exact ⟨rfl, fun s => .inl rfl, nofun⟩

lemma Tracks.nodup (h : Tracks certType t t') (hnd : ∀ s, (t.status s).notarFallbacks.Nodup)
    (s : ℕ) : (t'.status s).notarFallbacks.Nodup := by
  rcases h.notarFallbacks s with heq | ⟨block, -, -, hnew, heq, -⟩ <;> rw [heq]
  · exact hnd s
  · rw [← concat_eq_append]
    exact (hnd s).concat hnew

lemma Tracks.forall_mem (h : Tracks certType t t') {P : ℕ → Block → Prop}
    (hP : ∀ s, ∀ b ∈ (t.status s).notarFallbacks, P s b)
    (hnew : ∀ block, certType.toBlock = some block → P block.1 block) (s : ℕ) :
    ∀ b ∈ (t'.status s).notarFallbacks, P s b := by
  rcases h.notarFallbacks s with heq | ⟨block, hblock, rfl, -, heq, -⟩ <;> rw [heq]
  · exact hP s
  · exact forall_mem_append.2 ⟨hP _, forall_mem_singleton.2 (hnew block hblock)⟩

/-! ## Runs of votes -/

/-- The certificates of a pool that has received votes only, and the blocks its tracker has learned
of them: those are backed by votes, but for the root block. -/
structure CertsBacked [SignerStore]
    (stakes : ℕ → EpochStakes) (rootBlock : Block) (l : List VoteMessage)
    (p : ConsensusPool) : Prop where
  stored : CertsStored stakes p.completedCertificates
  nodup : ∀ s, (p.parentReadyTracker.status s).notarFallbacks.Nodup
  backed : ∀ s, ∀ b ∈ (p.parentReadyTracker.status s).notarFallbacks,
    b = rootBlock ∨ b.1 = s ∧ Backed stakes l b

variable {rootBlock : Block}

lemma length_le_of_fallback (block : Block) (h : Ballots stakes l)
    (hpos : 0 < (stakes slot).totalStake) {bs : List Block} (hnd : bs.Nodup)
    (hbs : ∀ b ∈ bs, b ≠ block → b.1 = slot ∧ Certified stakes l (.notarizeFallback slot b.2)) :
    bs.length ≤ maxNotarFallbackBlocks := by
  have hback : ∀ b ∈ bs.erase block, b.1 = slot
      ∧ Certified stakes l (.notarizeFallback slot b.2) := by
    intro b hb
    obtain ⟨hne, hb⟩ := hnd.mem_erase_iff.1 hb
    exact hbs b hb hne
  have hsix := h.notarizeFallback_le_six hpos
    (List.Nodup.map_on (f := Prod.snd) (fun b hb b' hb' heq =>
      Prod.ext ((hback b hb).1.trans (hback b' hb').1.symm) heq) (hnd.erase block)) (by
    intro b hb
    obtain ⟨block, hblock, rfl⟩ := mem_map.1 hb
    exact (hback block hblock).2)
  rw [length_map] at hsix
  have hlen := @le_length_erase _ _ _ block bs
  show bs.length ≤ 7
  omega

lemma length_le_of_backed (rootBlock : Block) (h : Ballots stakes l)
    (hgen : ∀ m ∈ l, m.vote.getType ≠ .genesis) (hpos : 0 < (stakes slot).totalStake)
    {bs : List Block} (hnd : bs.Nodup)
    (hbs : ∀ b ∈ bs, b = rootBlock ∨ b.1 = slot ∧ Backed stakes l b) :
    bs.length ≤ maxNotarFallbackBlocks := by
  refine length_le_of_fallback rootBlock h hpos hnd fun b hb hne => ?_
  obtain ⟨rfl, certType, hct, hcert⟩ := (hbs b hb).resolve_left hne
  refine ⟨rfl, hcert.notarizeFallback hct fun hgenesis => ?_⟩
  subst hgenesis
  have hnil : certVotes (.genesis b.1 b.2) (some b.2) l = [] := by
    refine eq_nil_iff_forall_not_mem.2 fun m hm => ?_
    obtain ⟨hl, -, hty, -⟩ := mem_certVotes.1 hm
    exact hgen m hl (mem_singleton.1 hty)
  unfold Certified at hcert
  simp only [toBlock, Option.map_some, hnil, stakeOf_nil,
    limitsAndVoteTypes, genesisVoteThreshold,
    Fraction.fromPercentage, slot] at hcert
  omega

lemma CertsBacked.updateCertificates [SignerStore] (hback : CertsBacked stakes rootBlock l p)
    (hl : HoldsBallots stakes l p) (hranked : ∀ m ∈ l, m.Ranked stakes)
    (hgen : ∀ m ∈ l, m.vote.getType ≠ .genesis) (hpos : 0 < (stakes v.slot).totalStake)
    (hhas : rootBank.hasEpochStakes v.slot) :
    ∃ p' ev certs, updateCertificates stakes rootBank v v.blockId (stakes v.slot).totalStake p
        = .ok (p', ev, .ok certs)
      ∧ CertsBacked stakes rootBlock l p' ∧ HoldsBallots stakes l p'
      ∧ p'.slotStakeCountersMap = p.slotStakeCountersMap := by
  refine exists_updateCertificates ⟨hback, hl, rfl⟩ ?_
  rintro q ev certs certType hmem ⟨h, hl, hctr⟩
  have hslot := slot_of_mem_voteToCertTypes hmem
  have htrack : Certified stakes l certType → ∃ r, track q.parentReadyTracker certType = .ok r := by
    refine fun hcert => exists_track fun block hb =>
      exists_addNewNotarFallbackOrStronger (h.nodup _) fun _ bs hnd hbs => ?_
    rw [← hslot, ← slot_of_toBlock hb] at hpos
    refine length_le_of_backed rootBlock hl.ballots hgen hpos hnd fun b hmem => ?_
    rcases hbs b hmem with rfl | hmem
    · exact .inr ⟨rfl, certType, hb, hcert⟩
    · exact h.backed _ b hmem
  obtain ⟨q', ev', certs', heq, hcase⟩ := exists_updateCertificate hl hranked h.stored
    (hslot ▸ hpos) (hslot ▸ hhas) hmem htrack ev certs
  refine ⟨q', _, certs', heq, ?_⟩
  rcases hcase with ⟨rfl, -⟩ | ⟨-, hcert, cert, -, hstored, hins⟩
  · exact ⟨h, hl, hctr⟩
  obtain ⟨t, tracked, c, ht, -, rfl, -⟩ := insertCertificate_cases hins
  have htracks := tracks_of_track ht
  exact ⟨⟨hstored, htracks.nodup h.nodup, htracks.forall_mem h.backed fun block hb =>
    .inr ⟨rfl, certType, hb, hcert⟩⟩, holdsBallots_congr hl rfl, hctr⟩

/-- The invariant of a pool that was given votes only. -/
structure VotesPool [SignerStore]
    (stakes : ℕ → EpochStakes) (rootBlock : Block) (l : List VoteMessage)
    (p : ConsensusPool) : Prop extends HoldsBallots stakes l p, CertsBacked stakes rootBlock l p where
  ranked : ∀ m ∈ l, m.Ranked stakes
  not_genesis : ∀ m ∈ l, m.vote.getType ≠ .genesis
  tallies : ∀ slot, Tallies stakes slot l (p.slotStakeCounters slot (stakes slot).totalStake)

lemma votesPool_new [SignerStore] (bank : RootBank) :
    VotesPool stakes (bank.slot, bank.blockId.getD 0) [] (newFromRootBank bank) := by
  refine ⟨holdsBallots_new bank, ⟨⟨nofun, nofun⟩, (trackerInv_new _).nodup, fun s b hb => .inl ?_⟩,
    nofun, nofun, fun slot => (@counts_nil _ _ slot 0 (by simp)).toTallies⟩
  unfold newFromRootBank ParentReadyTracker.new ParentReadyTracker.status at hb
  simp only [OrdMap.get?_insert] at hb
  split_ifs at hb
  · cases hb
  · exact mem_singleton.1 hb
  · cases hb

lemma completedCertificates_maybePrune (hlt : p.lastPrunedSlot < rootSlot) (ct : CertificateType) :
    (p.maybePrune rootSlot).completedCertificates.get? ct
      = if rootSlot ≤ ct.slot then p.completedCertificates.get? ct else none := by
  rw [ConsensusPool.maybePrune, if_neg (Nat.not_le.2 hlt)]
  simp
  cases p.completedCertificates.get? ct <;> simp [Option.filter]

lemma status_maybePrune (hlt : p.lastPrunedSlot < rootSlot) (s : ℕ) :
    (p.maybePrune rootSlot).parentReadyTracker.status s
      = if rootSlot ≤ s then p.parentReadyTracker.status s else {} := by
  rw [ConsensusPool.maybePrune, if_neg (Nat.not_le.2 hlt)]
  simp only [setRoot, ParentReadyTracker.status, OrdMap.get?_retain]
  by_cases hs : rootSlot ≤ s
  all_goals cases p.parentReadyTracker.slotStatuses.get? s <;> simp [Option.filter, hs]

lemma VotesPool.maybePrune [SignerStore] (h : VotesPool stakes rootBlock l p) (rootSlot : ℕ) :
    ∃ l', VotesPool stakes rootBlock l' (p.maybePrune rootSlot) := by
  rcases p.maybePrune_cases rootSlot with heq | ⟨hlt, -⟩
  · exact ⟨l, heq.symm ▸ h⟩
  have hget : ∀ {ct c}, (p.maybePrune rootSlot).completedCertificates.get? ct = some c →
      p.completedCertificates.get? ct = some c := by
    intro ct c hget
    rw [completedCertificates_maybePrune hlt] at hget
    split_ifs at hget
    exact hget
  have hstatus := status_maybePrune hlt
  refine ⟨_, holdsBallots_prune h.toHoldsBallots hlt, ⟨⟨fun ct c hc => ?_, fun ct c hc => ?_⟩,
    fun s => ?_, fun s b hb => ?_⟩, fun m hm => ?_, fun m hm => ?_, fun slot => ?_⟩
  · exact h.stored.certType_eq ct c (hget hc)
  · exact h.stored.hasSigners ct c (hget hc)
  · rw [hstatus]
    split_ifs
    · exact h.nodup s
    · exact nodup_nil
  · rw [hstatus] at hb
    split_ifs at hb with hs
    · refine (h.backed s b hb).imp_right fun hb => ⟨hb.1, hb.2.filter_slot ?_⟩
      rw [hb.1]
      exact hs
    · cases hb
  · exact h.ranked m (mem_of_mem_filter hm)
  · exact h.not_genesis m (mem_of_mem_filter hm)
  · rw [slotStakeCounters_maybePrune hlt]
    split_ifs with hs
    · exact (h.tallies slot).congr (by rw [ofType_filter_slot, if_pos hs])
        (by rw [ofType_filter_slot, if_pos hs])
    · refine (@counts_nil _ _ slot 0 fun m hm => ?_).toTallies
      have := of_mem_filter hm
      rw [decide_eq_true_eq] at this
      omega

end ConsensusPool

/-- A call that brings a vote of one of the five types, of a rank below the maximum, or prunes. -/
def PoolOp.IsVote : PoolOp → Prop
  | .addMessage _ _ (.vote m) => m.vote.getType ≠ .genesis ∧ m.rank < maximumValidators
  | .addMessage _ _ (.certificate _) => False
  | .maybePrune _ => True

/-- The rank of the vote's validator is one the rank map of its epoch counts, which is so of every
validator where no two have the same BLS key. -/
def PoolOp.InRankMap (stakes : ℕ → EpochStakes) : PoolOp → Prop
  | .addMessage _ _ (.vote m) => (m.entry stakes).isSome →
    m.rank < (stakes m.vote.slot).rankMapLen
  | _ => True

instance (op : PoolOp) : Decidable op.IsVote := by
  unfold PoolOp.IsVote
  split <;> infer_instance

instance (stakes : ℕ → EpochStakes) (op : PoolOp) : Decidable (op.InRankMap stakes) := by
  unfold PoolOp.InRankMap
  split <;> infer_instance

namespace ConsensusPool

variable {me : Pubkey}

theorem VotesPool.addVote [SignerStore] (h : VotesPool stakes rootBlock l p)
    (hop : (PoolOp.addMessage rootBank me (.vote m)).IsVote)
    (hmap : (PoolOp.addMessage rootBank me (.vote m)).InRankMap stakes) :
    ∃ p' ev res, addVote stakes rootBank me m p = .ok (p', ev, res)
      ∧ (∃ l', VotesPool stakes rootBlock l' p') ∧ ∀ e, res ≠ .error (.certificate e) := by
  by_cases hacc : Accepts stakes rootBank p m
  case neg =>
    obtain ⟨e, he, hne⟩ := addVote_of_not_accepts hacc me
    exact ⟨p, [], .error e, he, ⟨l, h⟩, fun b hb => hne b (Except.error.inj hb)⟩
  rw [addVote_of_accepts hacc]
  obtain ⟨hyes, hno⟩ := updateVotePool_spec h.toHoldsBallots hacc.entry hacc.compatible
  by_cases hf : Fresh stakes (ofType m.vote.slot m.vote.getType l) m
  case neg =>
    obtain ⟨pools, hupd, hpools⟩ := hno hf
    refine ⟨_, [], .ok [], by rw [hupd]; rfl, ⟨l, ?_⟩, nofun⟩
    exact ⟨hpools, { h with }, h.ranked, h.not_genesis, h.tallies⟩
  obtain ⟨pools, hupd, hpools⟩ := hyes hf
  have hranked : ∀ m' ∈ l ++ [m], m'.Ranked stakes :=
    forall_mem_append.2 ⟨h.ranked, forall_mem_singleton.2 ⟨hop.2, hmap hacc.entry⟩⟩
  have hgen : ∀ m' ∈ l ++ [m], m'.vote.getType ≠ .genesis :=
    forall_mem_append.2 ⟨h.not_genesis, forall_mem_singleton.2 hop.1⟩
  obtain ⟨c, ev1, hadd, htallies⟩ := (h.tallies m.vote.slot).addVote hpools.ballots rfl
    (me = m.key stakes)
  have hback : CertsBacked stakes rootBlock (l ++ [m])
      ({ p with votePools := pools }.setSlotStakeCounters m.vote.slot c) :=
    ⟨h.stored, h.nodup, fun s b hb => (h.backed s b hb).imp_right fun hb => ⟨hb.1, hb.2.snoc⟩⟩
  obtain ⟨p', ev2, certs, hcert, hback', hl', hctr⟩ := hback.updateCertificates
    (holdsBallots_setSlotStakeCounters hpools m.vote.slot c) hranked hgen
    (hpools.ballots.totalStake_pos mem_concat_self) hacc.hasEpochStakes
  refine ⟨p', ev1 ++ ev2, .ok certs, ?_, ⟨l ++ [m], hl', hback', hranked, hgen, fun slot => ?_⟩,
    nofun⟩
  · rw [hupd]
    exact countVote_some hadd hcert
  · rw [@slotStakeCounters_of_insert p p' m.vote.slot c hctr]
    split_ifs with hslot
    · rw [← hslot]
      exact htallies
    · refine (h.tallies slot).congr ?_ ?_
      all_goals rw [ofType_snoc, if_neg fun hs => hslot hs.1, append_nil]

lemma step_addMessage [SignerStore] {rootBank : RootBank} {me : Pubkey} (message : ConsensusMessage)
    {ev : List VotorEvent} {res : Except AddVoteError (List Certificate)}
    (h : (match message with
      | .vote msg => addVote stakes rootBank me msg p
      | .certificate cert => addCertificate stakes rootBank cert p) = .ok (p', ev, res)) :
    step stakes p (.addMessage rootBank me message) = .ok (p', [(.addMessage rootBank me message,
      ⟨ev, res.map (newFinalizedSlot p.highestFinalizedSlot p'.highestFinalizedSlot, ·)⟩)]) := by
  cases message with
  | vote m | certificate cert =>
    refine Except.bind_of_ok (b := (p', _)) ?_
    exact Except.bind_of_ok h

theorem VotesPool.step [SignerStore]
    (h : VotesPool stakes rootBlock l p) {op : PoolOp} (hop : op.IsVote)
    (hmap : op.InRankMap stakes) : ∃ p' reply, step stakes p op = .ok (p', [(op, reply)])
      ∧ (∃ l', VotesPool stakes rootBlock l' p') ∧ ∀ e, reply.result ≠ .error (.certificate e) := by
  cases op with
  | maybePrune rootSlot => exact ⟨_, _, rfl, h.maybePrune rootSlot, nofun⟩
  | addMessage rootBank me message =>
    cases message with
    | certificate cert => cases hop
    | vote m =>
      obtain ⟨p', ev, res, hadd, hl', hres⟩ := h.addVote hop hmap
      refine ⟨p', _, step_addMessage (.vote m) hadd, hl', fun e he => ?_⟩
      cases res with
      | error e' => exact hres e (congrArg Except.error (Except.error.inj he))
      | ok certs => cases he

/-- The stake counted to skip a slot and to notarize its blocks is at most the total. -/
def CountsWithinTotal (p : ConsensusPool) : Prop :=
  ∀ slot c, p.slotStakeCountersMap.get? slot = some c →
    c.skipTotal + c.notarizeEntryTotal.values.sum ≤ c.totalStake

/-- In every run of votes of the five types and of pruning, in any order, with conflicting and
repeated votes among them, no call panics, no certificate fails to be built, and no more than the
total stake is counted. -/
theorem votes_never_panic [SignerStore]
    {bank : RootBank} {ops : List PoolOp} (hops : ∀ op ∈ ops, op.IsVote)
    (hmap : ∀ op ∈ ops, op.InRankMap stakes) :
    ∃ p trace, run (step stakes) (newFromRootBank bank) ops = .ok (p, trace)
      ∧ (∀ e ∈ trace, ∀ err, e.2.result ≠ .error (.certificate err)) ∧ p.CountsWithinTotal := by
  have hG : Guarded (step stakes) (fun _ op => op.IsVote ∧ op.InRankMap stakes)
      (newFromRootBank bank) ops := guarded_of_mem (fun op hop => ⟨hops op hop, hmap op hop⟩) _
  obtain ⟨p, trace, hrun, ⟨l, h⟩, htrace⟩ := run_ok (P := fun _ trace p =>
      (∃ l, VotesPool stakes (bank.slot, bank.blockId.getD 0) l p)
        ∧ ∀ e ∈ trace, ∀ err, e.2.result ≠ .error (.certificate err))
    ⟨⟨[], votesPool_new bank⟩, nofun⟩ (fun _ trace p op ⟨⟨l, h⟩, htrace⟩ ⟨hop, hmap⟩ => by
      obtain ⟨p1, reply, hstep, h1, hres⟩ := h.step hop hmap
      exact ⟨p1, _, hstep, h1, forall_mem_append.2 ⟨htrace, forall_mem_singleton.2 hres⟩⟩) hG
  refine ⟨p, trace, hrun, htrace, fun slot c hc => ?_⟩
  have htallies := (h.tallies slot).sum_le h.ballots
  simpa only [slotStakeCounters, hc, Option.getD_some] using htallies

open PlainStore

/-- Two blocks of one slot, each with votes to notarize and fallback votes for the other, conflicting
and repeated votes, and a finalization. -/
theorem votes_never_panic_two_blocks : ∃ p trace,
    run (step fun _ => threeStakes) (newFromRootBank rootBankZero)
      (receive [⟨.notarize 1 7, 0⟩, ⟨.notarize 1 8, 1⟩, ⟨.notarizeFallback 1 7, 1⟩, ⟨.skip 1, 0⟩,
        ⟨.notarizeFallback 1 8, 0⟩, ⟨.notarize 1 7, 0⟩, ⟨.finalize 1, 2⟩, ⟨.notarize 2 9, 2⟩,
        ⟨.notarize 2 9, 1⟩, ⟨.notarize 2 9, 0⟩, ⟨.finalize 2, 0⟩] ++ [.maybePrune 2]) = .ok (p, trace)
      ∧ (∀ e ∈ trace, ∀ err, e.2.result ≠ .error (.certificate err)) ∧ p.CountsWithinTotal :=
  votes_never_panic (by decide) (by decide)

/-- Two of three validators have the same BLS key, so the rank map has two entries. -/
def sharedKeyStakes : EpochStakes :=
  ⟨[⟨1, 1, 50⟩, ⟨2, 2, 40⟩, ⟨3, 2, 10⟩], 100, by decide, by decide, by decide, threeStakes.total_le⟩

/-- All three vote for a block, which is finalized. The signers of the certificate are more than the
rank map has room for. -/
theorem shared_key_panics : run (step fun _ => sharedKeyStakes) (newFromRootBank rootBankZero)
    (receive [⟨.notarize 1 7, 2⟩, ⟨.notarize 1 7, 0⟩, ⟨.notarize 1 7, 1⟩]) = .error .extractSigners
      ∧ ∀ op ∈ receive [⟨.notarize 1 7, 2⟩, ⟨.notarize 1 7, 0⟩, ⟨.notarize 1 7, 1⟩], op.IsVote :=
  ⟨rfl, by decide⟩

end ConsensusPool

end BlackBull
