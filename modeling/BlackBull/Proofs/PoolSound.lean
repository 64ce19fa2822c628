import BlackBull.Proofs.Ballots
import BlackBull.Proofs.CertificateBuilder
import BlackBull.Proofs.PoolCertificates

/-!
# The certificates the pool builds are sound

Over any run the vote pools hold the ballots counted so far (`holdsBallots_run`), so a certificate
is sound but for one thing: Genesis votes are counted together whatever their block.
-/

namespace BlackBull

open List BlackBull.Except

variable {stakes : ℕ → EpochStakes} {l l' : List VoteMessage} {m : VoteMessage} {ty : VoteType}
  {slot : ℕ} {blockId : Option Hash} {p p' : ConsensusPool}

namespace ConsensusPool

lemma maybePrune_cases (p : ConsensusPool) (rootSlot : ℕ) : p.maybePrune rootSlot = p
    ∨ p.lastPrunedSlot < rootSlot ∧ (p.maybePrune rootSlot).lastPrunedSlot = rootSlot
      ∧ (p.maybePrune rootSlot).parentReadyTracker.root = rootSlot := by
  unfold maybePrune
  split_ifs with hle
  · exact .inl rfl
  · exact .inr ⟨Nat.not_le.1 hle, rfl, rfl⟩

lemma pool_spec (h : HoldsBallots stakes l p) (slot : ℕ) (ty : VoteType) (blockId : Option Hash) :
    (poolVotes blockId (p.votePool slot ty) = .ok (counted ty blockId (ofType slot ty l))
      ∧ poolStake blockId (p.votePool slot ty)
        = .ok (stakeOf stakes (counted ty blockId (ofType slot ty l))))
    ∨ (ty.byBlock = true ∧ blockId = none) ∧ poolVotes blockId (p.votePool slot ty) = .error .blockId
      ∧ poolStake blockId (p.votePool slot ty) = .error .blockId := by
  have hh := h.holds slot ty
  rcases hp : p.votePool slot ty with _ | ⟨q⟩ | ⟨q⟩ <;> rw [hp] at hh
  · exact .inl (by simp [poolVotes, poolStake, hh, counted])
  · obtain ⟨hb, rfl⟩ := hh
    exact .inl (by simp [poolVotes, poolStake, counted, hb])
  · obtain ⟨hb, -, hentries, -⟩ := hh
    cases blockId with
    | none => exact .inr ⟨⟨hb, rfl⟩, rfl, rfl⟩
    | some b =>
      refine .inl ?_
      simp only [poolVotes, poolStake, DuplicateBlockVotePool.votes,
        DuplicateBlockVotePool.totalStakeByBlockId, hentries, counted]
      split_ifs with hnil
      · simp [hnil]
      · exact ⟨rfl, rfl⟩

lemma accumulatedStake_spec (h : HoldsBallots stakes l p) {types : List VoteType} :
    Meets (p.accumulatedStake slot blockId types)
      (· = stakeOf stakes (types.flatMap fun ty => counted ty blockId (ofType slot ty l)))
      fun _ => (∃ ty ∈ types, ty.byBlock = true ∧ blockId = none)
        ∨ u64Max < stakeOf stakes (types.flatMap fun ty => counted ty blockId (ofType slot ty l)) := by
  suffices key : ∀ (types : List VoteType) (acc : ℕ), Meets (types.foldlM (fun acc ty => do
      let stake ← poolStake blockId (p.votePool slot ty)
      if u64Max < acc + stake then .error .stakeOverflow else .ok (acc + stake)) acc)
      (· = acc + stakeOf stakes (types.flatMap fun ty => counted ty blockId (ofType slot ty l)))
      fun _ => (∃ ty ∈ types, ty.byBlock = true ∧ blockId = none) ∨ u64Max
        < acc + stakeOf stakes (types.flatMap fun ty => counted ty blockId (ofType slot ty l)) by
    simpa only [Nat.zero_add, accumulatedStake] using key types 0
  intro types
  induction types with
  | nil => exact fun acc => rfl
  | cons ty types ih =>
    intro acc
    rw [foldlM_cons, flatMap_cons, stakeOf_append, ← Nat.add_assoc]
    rcases pool_spec h slot ty blockId with ⟨-, hs⟩ | ⟨hb, -, hs⟩
    · rw [hs]
      show Meets ((if u64Max < acc + _ then _ else _) >>= _) _ _
      split_ifs with hover
      · exact .inr (hover.trans_le (Nat.le_add_right _ _))
      · exact (ih _).imp (fun _ heq => heq) fun _ => Or.imp_left fun ⟨ty', hty', hb⟩ =>
          ⟨ty', mem_cons_of_mem _ hty', hb⟩
    · rw [hs]
      exact .inl ⟨ty, mem_cons_self, hb⟩

variable {res : Except AddVoteError (List Certificate)} {rootBank : RootBank}
  {certType : CertificateType} {ev : List VotorEvent} {trace : List (PoolOp × PoolReply)}
  {my : Pubkey} {op : PoolOp} {v : Vote}

lemma aggregateVotes_spec (h : HoldsBallots stakes l p) :
    Meets (p.aggregateVotes certType.slot blockId certType)
      (fun b => b.messages.Perm (certVotes certType blockId l)
        ∧ BuilderType.BuildsFrom certType (certVotes certType blockId l) b)
      fun _ => (∃ ty ∈ certType.limitsAndVoteTypes.2, ty.byBlock = true ∧ blockId = none)
        ∨ ∃ m ∈ certVotes certType blockId l, maximumValidators ≤ m.rank := by
  suffices key : ∀ (types : List VoteType) (b0 : BuilderType) (old : List VoteMessage),
      BuilderType.BuildsFrom certType old b0 → b0.messages.Perm old →
      (∀ ty ∈ types, ty ∈ certType.limitsAndVoteTypes.2) →
      (old ++ types.flatMap fun ty => counted ty blockId (ofType certType.slot ty l))
        = certVotes certType blockId l →
      Meets (types.foldlM _ b0) _ _ from
    key _ _ [] (BuilderType.buildsFrom_new certType) (by rw [BuilderType.messages_new])
      (fun _ hty => hty) rfl
  intro types
  induction types with
  | nil =>
    intro b0 old hb0 hperm _ heq
    rw [flatMap_nil, append_nil] at heq
    exact heq ▸ ⟨hperm, hb0⟩
  | cons ty types ih =>
    intro b0 old hb0 hperm hsub heq
    obtain ⟨hty, hsub⟩ := forall_mem_cons.1 hsub
    rw [flatMap_cons, ← append_assoc] at heq
    rw [foldlM_cons]
    rcases pool_spec h certType.slot ty blockId with ⟨hv, -⟩ | ⟨hb, hv, -⟩
    case inr =>
      rw [hv]
      exact .inl ⟨ty, hty, hb⟩
    rw [Except.bind_of_ok hv]
    -- the votes so far and the new ones are part of the certificate's, with distinct ranks
    have hsublist := heq ▸ sublist_append_left (old ++ counted ty blockId
      (ofType certType.slot ty l)) (types.flatMap _)
    rcases ha : b0.aggregate certType (counted ty blockId (ofType certType.slot ty l)) with e | b1
    · refine .inr (by_contra fun hranks => ?_)
      push Not at hranks
      obtain ⟨b1, hb1⟩ := hb0.exists_aggregate (fun m hm => by
          refine ⟨?_, hranks m (hsublist.subset (mem_append_right _ hm))⟩
          rwa [(mem_ofType.1 (mem_counted.1 hm).1).2.2])
        ((h.ballots.nodup_ranks certType).sublist (hsublist.map _))
      cases ha.symm.trans hb1
    · exact ih _ _ (hb0.aggregate ha)
        ((BuilderType.aggregate_ok ha).1.trans (hperm.append_right _)) hsub heq

lemma holdsBallots_new (bank : RootBank) : HoldsBallots stakes [] (newFromRootBank bank) :=
  ⟨.nil, fun _ _ => rfl⟩

section

variable (h : HoldsBallots stakes l p)
include h

lemma holdsBallots_congr (hp : p'.votePools = p.votePools) : HoldsBallots stakes l p' := by
  refine ⟨h.ballots, fun slot ty => ?_⟩
  have := h.holds slot ty
  unfold votePool at this ⊢
  rwa [hp]

lemma holdsBallots_setSlotStakeCounters (slot : ℕ) (c : SlotStakeCounters) :
    HoldsBallots stakes l (p.setSlotStakeCounters slot c) :=
  holdsBallots_congr h rfl

lemma holdsBallots_prune {rootSlot : ℕ} (hlt : p.lastPrunedSlot < rootSlot) :
    HoldsBallots stakes (l.filter fun m => rootSlot ≤ m.vote.slot) (p.maybePrune rootSlot) := by
  unfold maybePrune
  rw [if_neg (Nat.not_le.2 hlt)]
  refine ⟨h.ballots.sublist filter_sublist, fun slot ty => ?_⟩
  have hh := h.holds slot ty
  have hkeep : (toLex (rootSlot, VoteType.finalize) ≤ toLex (slot, ty)) ↔ rootSlot ≤ slot := by
    have hty : VoteType.finalize ≤ ty := by cases ty <;> decide
    rw [Prod.Lex.toLex_le_toLex]
    simp only [hty, and_true]
    omega
  unfold votePool at hh ⊢
  simp only [OrdMap.get?_retain, hkeep, ofType_filter_slot]
  cases hp : p.votePools.get? (toLex (slot, ty)) with
  | none =>
    rw [hp] at hh
    simp [hh]
  | some pool =>
    rw [hp] at hh
    by_cases hs : rootSlot ≤ slot
    · simpa [hs, Option.filter] using hh
    · simp [hs]

lemma holdsBallots_maybePrune (rootSlot : ℕ) :
    ∃ l', HoldsBallots stakes l' (p.maybePrune rootSlot) := by
  rcases p.maybePrune_cases rootSlot with heq | ⟨hlt, -⟩
  · exact ⟨l, heq.symm ▸ h⟩
  · exact ⟨_, holdsBallots_prune h hlt⟩

lemma hasConflictingVote_eq_none {key : Pubkey} :
    p.hasConflictingVote slot ty key blockId = none ↔ ∀ m ∈ l, m.vote.slot = slot →
      m.key stakes = key → ¬ ConflictsWith ty blockId m.vote := by
  have hty : ∀ ty', (p.votePool slot ty').any (isConflicting key blockId) = true
      ↔ ∃ m ∈ ofType slot ty' l, m.key stakes = key
        ∧ (ty'.byBlock = true → blockId = none ∨ m.vote.blockId = blockId) := by
    intro ty'
    have hh := h.holds slot ty'
    cases hp : p.votePool slot ty' with
    | none =>
      rw [hp] at hh
      simp [hh]
    | some pool =>
      rw [hp] at hh
      exact isConflicting_iff hh fun m hm => (mem_ofType.1 hm).2.2
  unfold hasConflictingVote ConflictsWith
  simp only [find?_eq_none, hty, mem_ofType]
  constructor
  · rintro hno m hm hs hk ⟨hmem, hb⟩
    exact hno _ hmem ⟨m, ⟨hm, hs, rfl⟩, hk, hb⟩
  · rintro hno ty' hmem ⟨m, ⟨hm, hs, rfl⟩, hk, hb⟩
    exact hno m hm hs hk ⟨hmem, hb⟩

lemma holdsBallots_insert (hb : Ballots stakes l')
    (hof : ∀ s ty', ¬ (slot = s ∧ ty = ty') → ofType s ty' l' = ofType s ty' l) {pool : VotePool}
    (hpool : Holds stakes ty (ofType slot ty l') pool) :
    HoldsBallots stakes l' { p with votePools := p.votePools.insert (toLex (slot, ty)) pool } := by
  refine ⟨hb, fun s ty' => ?_⟩
  unfold votePool
  by_cases hs : slot = s ∧ ty = ty'
  · obtain ⟨rfl, rfl⟩ := hs
    simpa using hpool
  · have hne : toLex (slot, ty) ≠ toLex (s, ty') := by
      intro he
      simp at he
      exact hs he
    simp only [OrdMap.get?_insert_ne _ hne, hof s ty' hs]
    exact h.holds s ty'

theorem updateVotePool_spec (hentry : (m.entry stakes).isSome)
    (hnone : p.hasConflictingVote m.vote.slot m.vote.getType (m.key stakes) m.vote.blockId = none) :
    (Fresh stakes (ofType m.vote.slot m.vote.getType l) m → ∃ pools,
        p.updateVotePool m (m.key stakes) (m.stake stakes) = .ok ({ p with votePools := pools },
          some (stakeOf stakes (counted m.vote.getType m.vote.blockId
            (ofType m.vote.slot m.vote.getType (l ++ [m])))))
        ∧ HoldsBallots stakes (l ++ [m]) { p with votePools := pools })
    ∧ (¬ Fresh stakes (ofType m.vote.slot m.vote.getType l) m → ∃ pools,
        p.updateVotePool m (m.key stakes) (m.stake stakes) = .ok ({ p with votePools := pools }, none)
        ∧ HoldsBallots stakes l { p with votePools := pools }) := by
  have hconf := (hasConflictingVote_eq_none h).1 hnone
  set slot := m.vote.slot with hslot
  set ty := m.vote.getType with hty
  have hof : ofType slot ty (l ++ [m]) = ofType slot ty l ++ [m] := by
    rw [ofType_append, ofType_singleton, if_pos ⟨hslot.symm, hty.symm⟩]
  have hholds : Holds stakes ty (ofType slot ty l) ((p.votePool slot ty).getD (newVotePool ty)) := by
    have hh := h.holds slot ty
    cases hp : p.votePool slot ty with
    | none =>
      rw [hp] at hh
      rw [hh]
      exact holds_newVotePool ty
    | some pool =>
      rw [hp] at hh
      exact hh
  have hle : Fresh stakes (ofType slot ty l) m →
      stakeOf stakes (counted ty m.vote.blockId (ofType slot ty l ++ [m])) ≤ u64Max := by
    intro hf
    rw [← hof]
    exact (h.ballots.snoc hentry hconf hf).stakeOf_counted_le.trans (stakes slot).total_le
  obtain ⟨hyes, hno⟩ := hholds.addsFresh hle fun m' hm' => (mem_ofType.1 hm').2.2
  refine ⟨fun hf => ?_, fun hf => ?_⟩
  · obtain ⟨pool, hadd, hpool⟩ := hyes hf
    refine ⟨p.votePools.insert (toLex (slot, ty)) pool, ?_, ?_⟩
    · unfold updateVotePool
      simp only [← hslot, ← hty, hadd, hof]
      rfl
    · refine holdsBallots_insert h (h.ballots.snoc hentry hconf hf) (fun s ty' hne => ?_)
        (hof ▸ hpool)
      rw [ofType_append, ofType_singleton, if_neg hne, append_nil]
  · obtain ⟨pool, hadd, hpool⟩ := hno hf
    refine ⟨p.votePools.insert (toLex (slot, ty)) pool, ?_, ?_⟩
    · unfold updateVotePool
      simp only [← hslot, ← hty, hadd]
      rfl
    · exact holdsBallots_insert h h.ballots (fun _ _ _ => rfl) hpool

end

lemma insertCertificate_frame [SignerStore] {cert : Certificate}
    (h : insertCertificate stakes rootBank certType cert p = .ok (p', ev)) :
    ∃ t c, p' = { p with
      completedCertificates := p.completedCertificates.insert certType cert
      parentReadyTracker := t
      highestFinalizedSlotCert := c } := by
  obtain ⟨t, -, c, -, -, rfl, -⟩ := insertCertificate_cases h
  exact ⟨t, c, rfl⟩

/-- The certificate is of the votes counted for it, which reach its limit. -/
structure BuiltFrom (stakes : ℕ → EpochStakes) (l : List VoteMessage) (blockId : Option Hash)
    (certType : CertificateType) (cert : Certificate) : Prop where
  certType_eq : cert.certType = certType
  signature : cert.signature.Perm (certVotes certType blockId l)
  limit : certType.limitsAndVoteTypes.1.toRat
    ≤ (stakeOf stakes (certVotes certType blockId l) : ℚ) / (stakes certType.slot).totalStake

lemma updateCertificate_cases [SignerStore] (h : HoldsBallots stakes l p) {ev' : List VotorEvent}
    {certs : List Certificate} (hu : updateCertificate stakes rootBank certType.slot blockId
      (stakes certType.slot).totalStake (p, ev, .ok certs) certType = .ok (p', ev', res)) :
    (p' = p ∧ ev' = ev ∧ res = .ok certs ∧ (p.completedCertificates.contains certType
        ∨ stakeOf stakes (certVotes certType blockId l) * certType.limitsAndVoteTypes.1.denominator
          < certType.limitsAndVoteTypes.1.numerator * (stakes certType.slot).totalStake))
      ∨ ∃ cert ev1, ¬ p.completedCertificates.contains certType
        ∧ insertCertificate stakes rootBank certType cert p = .ok (p', ev1) ∧ ev' = ev ++ ev1
        ∧ res = .ok (certs ++ [cert]) ∧ BuiltFrom stakes l blockId certType cert := by
  unfold updateCertificate at hu
  simp only at hu
  split_ifs at hu with hc
  · cases hu
    exact .inl ⟨rfl, rfl, rfl, .inl hc⟩
  obtain ⟨acc, hacc, hu⟩ := bind_eq_ok.1 hu
  have hstake := (accumulatedStake_spec h).of_ok hacc
  obtain ⟨ratio, hratio, hu⟩ := bind_eq_ok.1 hu
  unfold SlotStakeCounters.fractionOf at hratio
  split_ifs at hratio
  cases hratio
  split_ifs at hu with hlt
  · cases hu
    exact .inl ⟨rfl, rfl, rfl, .inr (hstake ▸ hlt)⟩
  obtain ⟨b, hb, hu⟩ := bind_eq_ok.1 hu
  obtain ⟨hperm, hfrom⟩ := (aggregateVotes_spec h).of_ok hb
  obtain ⟨cert, hcert⟩ := hfrom.exists_build (h.ballots.nodup_ranks certType)
  simp only [hcert] at hu
  obtain ⟨⟨p1, ev1⟩, hins, hu⟩ := bind_eq_ok.1 hu
  cases hu
  obtain ⟨htype, hsig, -⟩ := BuilderType.build_ok hcert
  refine .inr ⟨cert, ev1, hc, hins, rfl, rfl, ⟨htype, hsig ▸ hperm, ?_⟩⟩
  · have hge := (Fraction.ge_iff_toRat _ _).1 (Fraction.not_lt.1 hlt)
    rw [hstake] at hge
    exact hge

lemma slot_of_mem_voteToCertTypes (h : certType ∈ voteToCertTypes v) : certType.slot = v.slot := by
  cases v with
  | notarize slot b =>
    simp only [voteToCertTypes, mem_cons, not_mem_nil, or_false] at h
    rcases h with rfl | rfl | rfl <;> rfl
  | _ =>
    rw [voteToCertTypes, mem_singleton] at h
    subst h
    rfl

lemma updateCertificates_spec [SignerStore] (h : HoldsBallots stakes l p)
    (hu : updateCertificates stakes rootBank v blockId (stakes v.slot).totalStake p
      = .ok (p', ev, res)) :
    HoldsBallots stakes l p' ∧ p'.slotStakeCountersMap = p.slotStakeCountersMap
      ∧ ∃ certs, res = .ok certs ∧ ∀ c ∈ certs, c.certType ∈ voteToCertTypes v
        ∧ BuiltFrom stakes l blockId c.certType c := by
  refine foldlM_induction (P := fun acc => HoldsBallots stakes l acc.1
    ∧ acc.1.slotStakeCountersMap = p.slotStakeCountersMap ∧ ∃ certs, acc.2.2 = .ok certs
    ∧ ∀ c ∈ certs, c.certType ∈ voteToCertTypes v ∧ BuiltFrom stakes l blockId c.certType c)
    ⟨h, rfl, [], rfl, by simp⟩ ?_ hu
  rintro ⟨p1, ev1, res1⟩ certType ⟨p2, ev2, res2⟩ hmem ⟨h1, hctr, certs, hres, hcerts⟩ hstep
  subst hres
  rw [← slot_of_mem_voteToCertTypes hmem] at hstep
  rcases updateCertificate_cases h1 hstep with ⟨rfl, -, rfl, -⟩ |
    ⟨cert, ev', -, hins, -, rfl, hbuilt⟩
  · exact ⟨h1, hctr, certs, rfl, hcerts⟩
  obtain ⟨t, c, rfl⟩ := insertCertificate_frame hins
  refine ⟨holdsBallots_congr h1 rfl, hctr, _, rfl,
    forall_mem_append.2 ⟨hcerts, forall_mem_singleton.2 ?_⟩⟩
  rw [hbuilt.certType_eq]
  exact ⟨hmem, hbuilt⟩

/-- A vote the pool counts, unless it holds one in its place. -/
@[mk_iff]
structure Accepts (stakes : ℕ → EpochStakes) (rootBank : RootBank) (p : ConsensusPool)
    (m : VoteMessage) : Prop where
  hasEpochStakes : rootBank.hasEpochStakes m.vote.slot
  entry : (m.entry stakes).isSome
  root_le : rootBank.slot ≤ m.vote.slot
  compatible : p.hasConflictingVote m.vote.slot m.vote.getType (m.key stakes) m.vote.blockId = none

instance {rootBank : RootBank} : Decidable (Accepts stakes rootBank p m) :=
  decidable_of_iff' _ (accepts_iff ..)

/-- The rest of `add_vote`, once the vote pool has taken the vote or not. -/
def countVote [SignerStore]
    (stakes : ℕ → EpochStakes) (rootBank : RootBank) (my : Pubkey) (m : VoteMessage) :
    ConsensusPool × Option ℕ →
      Except VotorPanic (ConsensusPool × List VotorEvent × Except AddVoteError (List Certificate))
  | (p, none) => .ok (p, [], .ok [])
  | (p, some entryStake) => do
    let (counters, ev) ← (p.slotStakeCounters m.vote.slot (stakes m.vote.slot).totalStake).addVote
      m.vote entryStake (my = m.key stakes)
    let (p, ev', result) ← updateCertificates stakes rootBank m.vote m.vote.blockId
      (stakes m.vote.slot).totalStake (p.setSlotStakeCounters m.vote.slot counters)
    .ok (p, ev ++ ev', result)

lemma countVote_some [SignerStore]
    {entryStake : ℕ} {c : SlotStakeCounters} {ev1 ev2 : List VotorEvent}
    (hctr : (p.slotStakeCounters m.vote.slot (stakes m.vote.slot).totalStake).addVote m.vote
      entryStake (my = m.key stakes) = .ok (c, ev1))
    (hcert : updateCertificates stakes rootBank m.vote m.vote.blockId
      (stakes m.vote.slot).totalStake (p.setSlotStakeCounters m.vote.slot c) = .ok (p', ev2, res)) :
    countVote stakes rootBank my m (p, some entryStake) = .ok (p', ev1 ++ ev2, res) := by
  simp only [countVote, hctr, hcert, bind, Except.bind]

lemma getKeyAndStakes_eq (hhas : rootBank.hasEpochStakes m.vote.slot)
    (hentry : (m.entry stakes).isSome) : getKeyAndStakes stakes rootBank m.vote.slot m.rank
      = .ok (.ok (m.key stakes, m.stake stakes, (stakes m.vote.slot).totalStake)) := by
  obtain ⟨entry, hentry⟩ := Option.isSome_iff_exists.1 hentry
  have hkey : m.key stakes = entry.voteAccountPubkey := by simp [VoteMessage.key, hentry]
  have hstake : m.stake stakes = entry.stake := by simp [VoteMessage.stake, hentry]
  have hpos := (stakes m.vote.slot).stake_pos entry (mem_of_getElem? hentry)
  rw [VoteMessage.entry] at hentry
  simp only [getKeyAndStakes, RootBank.epochStakesFromSlot, if_pos hhas, hentry, hkey, hstake,
    if_neg hpos.ne']

lemma addVote_of_accepts [SignerStore] (h : Accepts stakes rootBank p m) (my : Pubkey) :
    addVote stakes rootBank my m p
      = p.updateVotePool m (m.key stakes) (m.stake stakes) >>= countVote stakes rootBank my m := by
  unfold addVote
  simp only [getKeyAndStakes_eq h.hasEpochStakes h.entry, bind, Except.bind, h.compatible,
    if_neg (Nat.not_lt.2 h.root_le)]
  rcases p.updateVotePool m (m.key stakes) (m.stake stakes) with _ | ⟨q, _ | entryStake⟩ <;> rfl

lemma addVote_of_not_accepts [SignerStore] (h : ¬ Accepts stakes rootBank p m) (my : Pubkey) :
    ∃ e, addVote stakes rootBank my m p = .ok (p, [], .error e)
      ∧ ∀ b, e ≠ .certificate b := by
  unfold addVote
  by_cases hhas : rootBank.hasEpochStakes m.vote.slot
  case neg =>
    refine ⟨.epochStakesNotFound, ?_, by simp⟩
    simp only [getKeyAndStakes, RootBank.epochStakesFromSlot, if_neg hhas, bind, Except.bind]
  by_cases hentry : (m.entry stakes).isSome
  case neg =>
    refine ⟨.invalidRank m.rank, ?_, by simp⟩
    rw [Bool.not_eq_true, Option.isSome_eq_false_iff, Option.isNone_iff_eq_none,
      VoteMessage.entry] at hentry
    simp only [getKeyAndStakes, RootBank.epochStakesFromSlot, if_pos hhas, hentry, bind, Except.bind]
  simp only [getKeyAndStakes_eq hhas hentry, bind, Except.bind]
  split_ifs with hroot
  · exact ⟨.unrootedSlot, rfl, by simp⟩
  cases hconf : p.hasConflictingVote m.vote.slot m.vote.getType (m.key stakes) m.vote.blockId with
  | some existing => exact ⟨_, rfl, by simp⟩
  | none => exact absurd ⟨hhas, hentry, Nat.not_lt.1 hroot, hconf⟩ h

/-- What adding a vote does: fail and change nothing, turn a vote down that is not fresh, or count
it as the last ballot, in the pools, in the counters and in the certificates. -/
theorem addVote_cases [SignerStore] (h : HoldsBallots stakes l p)
    (ha : addVote stakes rootBank my m p = .ok (p', ev, res)) :
    (¬ Accepts stakes rootBank p m ∧ p' = p ∧ ev = [] ∧ ∃ e, res = .error e)
      ∨ Accepts stakes rootBank p m ∧ ∃ pools,
        (¬ Fresh stakes (ofType m.vote.slot m.vote.getType l) m ∧ HoldsBallots stakes l p'
            ∧ p' = { p with votePools := pools } ∧ ev = [] ∧ res = .ok [])
          ∨ Fresh stakes (ofType m.vote.slot m.vote.getType l) m ∧ ∃ counters ev1 ev2,
            HoldsBallots stakes (l ++ [m])
              ({ p with votePools := pools }.setSlotStakeCounters m.vote.slot counters)
            ∧ (p.slotStakeCounters m.vote.slot (stakes m.vote.slot).totalStake).addVote m.vote
                (stakeOf stakes (counted m.vote.getType m.vote.blockId
                  (ofType m.vote.slot m.vote.getType (l ++ [m]))))
                (my = m.key stakes) = .ok (counters, ev1)
            ∧ updateCertificates stakes rootBank m.vote m.vote.blockId
                (stakes m.vote.slot).totalStake
                ({ p with votePools := pools }.setSlotStakeCounters m.vote.slot counters)
                = .ok (p', ev2, res)
            ∧ ev = ev1 ++ ev2 := by
  by_cases hacc : Accepts stakes rootBank p m
  case neg =>
    obtain ⟨e, he, -⟩ := addVote_of_not_accepts hacc my
    rw [he] at ha
    cases ha
    exact .inl ⟨hacc, rfl, rfl, e, rfl⟩
  rw [addVote_of_accepts hacc] at ha
  obtain ⟨hyes, hno⟩ := updateVotePool_spec h hacc.entry hacc.compatible
  by_cases hf : Fresh stakes (ofType m.vote.slot m.vote.getType l) m
  case neg =>
    obtain ⟨pools, hupd, hpools⟩ := hno hf
    rw [hupd] at ha
    cases ha
    exact .inr ⟨hacc, pools, .inl ⟨hf, hpools, rfl, rfl, rfl⟩⟩
  obtain ⟨pools, hupd, hpools⟩ := hyes hf
  rw [bind_of_ok hupd] at ha
  obtain ⟨⟨counters, ev1⟩, hctr, ha⟩ := bind_eq_ok.1 ha
  obtain ⟨⟨p2, ev2, res2⟩, hcert, ha⟩ := bind_eq_ok.1 ha
  cases ha
  exact .inr ⟨hacc, pools, .inr ⟨hf, counters, ev1, ev2,
    holdsBallots_setSlotStakeCounters hpools m.vote.slot counters, hctr, hcert, rfl⟩⟩

theorem addVote_ballots [SignerStore] (h : HoldsBallots stakes l p)
    (ha : addVote stakes rootBank my m p = .ok (p', ev, res)) :
    (HoldsBallots stakes l p' ∧ ∀ certs, res = .ok certs → certs = [])
      ∨ HoldsBallots stakes (l ++ [m]) p' ∧ ∃ certs, res = .ok certs ∧ ∀ c ∈ certs,
        c.certType ∈ voteToCertTypes m.vote
          ∧ BuiltFrom stakes (l ++ [m]) m.vote.blockId c.certType c := by
  rcases addVote_cases h ha with ⟨-, rfl, -, e, rfl⟩ |
    ⟨-, pools, ⟨-, h', -, -, rfl⟩ | ⟨-, c, ev1, ev2, h1, -, hcert, -⟩⟩
  · exact .inl ⟨h, by simp⟩
  · exact .inl ⟨h', by simp⟩
  · obtain ⟨h', -, hbuilt⟩ := updateCertificates_spec h1 hcert
    exact .inr ⟨h', hbuilt⟩

lemma addCertificate_frame [SignerStore] {cert : Certificate}
    (h : addCertificate stakes rootBank cert p = .ok (p', ev, res)) :
    p'.votePools = p.votePools ∧ p'.slotStakeCountersMap = p.slotStakeCountersMap := by
  unfold addCertificate at h
  split_ifs at h
  · cases h
    exact ⟨rfl, rfl⟩
  · cases h
    exact ⟨rfl, rfl⟩
  · obtain ⟨⟨q, ev'⟩, hins, h⟩ := bind_eq_ok.1 h
    cases h
    obtain ⟨t, c, rfl⟩ := insertCertificate_frame hins
    exact ⟨rfl, rfl⟩

theorem step_ballots [SignerStore]
    (h : HoldsBallots stakes l p) (hs : step stakes p op = .ok (p', trace)) :
    ∃ reply, trace = [(op, reply)]
      ∧ ((∃ l', HoldsBallots stakes l' p') ∧ reply.built op = []
        ∨ ∃ rootBank my m, op = .addMessage rootBank my (.vote m)
          ∧ HoldsBallots stakes (l ++ [m]) p' ∧ ∀ c ∈ reply.built op,
            c.certType ∈ voteToCertTypes m.vote
              ∧ BuiltFrom stakes (l ++ [m]) m.vote.blockId c.certType c) := by
  cases op with
  | maybePrune rootSlot =>
    cases hs
    exact ⟨_, rfl, .inl ⟨holdsBallots_maybePrune h rootSlot, rfl⟩⟩
  | addMessage rootBank my message =>
    obtain ⟨⟨q, reply⟩, hm, hs⟩ := bind_eq_ok.1 hs
    cases hs
    refine ⟨reply, rfl, ?_⟩
    cases message with
    | certificate cert =>
      obtain ⟨⟨q, ev, res⟩, hadd, hs⟩ := bind_eq_ok.1 hm
      cases hs
      exact .inl ⟨⟨l, holdsBallots_congr h (addCertificate_frame hadd).1⟩, rfl⟩
    | vote m =>
      obtain ⟨⟨q, ev, res⟩, hadd, hs⟩ := bind_eq_ok.1 hm
      cases hs
      rcases addVote_ballots h hadd with ⟨h', hnil⟩ | ⟨h', certs, rfl, hbuilt⟩
      · refine .inl ⟨⟨l, h'⟩, ?_⟩
        cases res with
        | error e => rfl
        | ok certs => exact hnil certs rfl
      · exact .inr ⟨rootBank, my, m, rfl, h', hbuilt⟩

theorem holdsBallots_step [SignerStore] (h : ∃ l, HoldsBallots stakes l p)
    (hs : step stakes p op = .ok (p', trace)) :
    ∃ l, HoldsBallots stakes l p' := by
  obtain ⟨l, h⟩ := h
  obtain ⟨reply, -, ⟨h', -⟩ | ⟨_, _, m, -, h', -⟩⟩ := step_ballots h hs
  · exact h'
  · exact ⟨_, h'⟩

/-- The Genesis votes of a slot that the pool holds, whatever their block. -/
def genesisVotes (p : ConsensusPool) (slot : ℕ) : List VoteMessage :=
  match p.votePool slot .genesis with
  | some (.simple pool) => pool.votes
  | _ => []

/-- A Genesis vote for block `b` will be counted, its certificate is not there yet, and with the
votes held before it the vote has 82% of the stake. -/
def CompletesGenesis (stakes : ℕ → EpochStakes) (rootBank : RootBank) (p : ConsensusPool)
    (m : VoteMessage) (slot : ℕ) (b : Hash) : Prop :=
  Accepts stakes rootBank p m ∧ Fresh stakes (p.genesisVotes slot) m
    ∧ ¬ p.completedCertificates.contains (.genesis slot b)
    ∧ 82 * (stakes slot).totalStake
      ≤ 100 * (stakeOf stakes (p.genesisVotes slot) + m.stake stakes)

/-- A Genesis vote that completes a certificate finds only Genesis votes for its own block. -/
def GenesisVotesAgree (stakes : ℕ → EpochStakes) (p : ConsensusPool) (op : PoolOp) : Prop :=
  match op with
  | .addMessage rootBank _ (.vote ⟨.genesis slot b, rank⟩) =>
    CompletesGenesis stakes rootBank p ⟨.genesis slot b, rank⟩ slot b →
      ∀ m ∈ p.genesisVotes slot, m.vote.blockId = some b
  | _ => True

instance (stakes : ℕ → EpochStakes) (rootBank : RootBank) (p : ConsensusPool) (m : VoteMessage)
    (slot : ℕ) (b : Hash) : Decidable (CompletesGenesis stakes rootBank p m slot b) :=
  inferInstanceAs (Decidable (_ ∧ _ ∧ _ ∧ _))

instance (stakes : ℕ → EpochStakes) (p : ConsensusPool) (op : PoolOp) :
    Decidable (GenesisVotesAgree stakes p op) := by
  unfold GenesisVotesAgree
  split <;> infer_instance

lemma genesisVotes_eq (h : HoldsBallots stakes l p) :
    p.genesisVotes slot = ofType slot .genesis l := by
  have hh := h.holds slot .genesis
  unfold genesisVotes
  rcases hp : p.votePool slot .genesis with _ | ⟨q⟩ | ⟨q⟩ <;> rw [hp] at hh
  · exact hh.symm
  · rw [hh.2]
  · exact absurd hh.1 (by decide)

lemma sound_iff {c : Certificate} (h : Ballots stakes l)
    (hc : BuiltFrom stakes l blockId c.certType c) :
    c.Sound stakes ↔ ∀ m ∈ certVotes c.certType blockId l, ∀ b, c.certType.toBlock = some b →
      m.vote.blockId = some b.2 := by
  have hmem : ∀ {m}, m ∈ c.signature ↔ m ∈ certVotes c.certType blockId l := hc.signature.mem_iff
  refine ⟨fun hs m hm => hs.block m (hmem.2 hm), fun hb => ?_⟩
  refine ⟨fun m hm => ?_, ?_, fun m hm => ?_, fun m hm => ?_, fun m hm => hb m (hmem.1 hm), ?_⟩
  · exact h.entry m (mem_certVotes.1 (hmem.1 hm)).1
  · exact ((hc.signature.map _).nodup_iff).2 (h.nodup_certVotes c.certType)
  · exact (mem_certVotes.1 (hmem.1 hm)).2.2.1
  · exact (mem_certVotes.1 (hmem.1 hm)).2.1
  · rw [stakeOf_perm hc.signature]
    exact hc.limit

lemma blockId_of_mem_voteToCertTypes (h : certType ∈ voteToCertTypes v) :
    v.blockId = certType.toBlock.map (·.2)
      ∧ ∀ ty ∈ certType.limitsAndVoteTypes.2, ty.byBlock = true → v.blockId.isSome := by
  cases v with
  | notarize slot b =>
    simp only [voteToCertTypes, mem_cons, not_mem_nil, or_false] at h
    rcases h with rfl | rfl | rfl <;> exact ⟨rfl, fun _ _ _ => rfl⟩
  | notarizeFallback slot b | genesis slot b =>
    rw [voteToCertTypes, mem_singleton] at h
    subst h
    exact ⟨rfl, fun _ _ _ => rfl⟩
  | finalize slot | skip slot | skipFallback slot =>
    rw [voteToCertTypes, mem_singleton] at h
    subst h
    refine ⟨rfl, fun ty hty hb => ?_⟩
    simp only [CertificateType.limitsAndVoteTypes, mem_cons, not_mem_nil, or_false] at hty
    rcases hty with rfl | rfl <;> cases hb

lemma block_of_not_genesis (hct : certType ∈ voteToCertTypes v) (hv : v.getType ≠ .genesis)
    (hm : m ∈ certVotes certType v.blockId l) {b : Block} (hb : certType.toBlock = some b) :
    m.vote.blockId = some b.2 := by
  obtain ⟨-, -, hty, hblock⟩ := mem_certVotes.1 hm
  have hbyBlock : m.vote.getType.byBlock = true := by
    cases certType with
    | notarize s b' | finalizeFast s b' =>
      rw [mem_singleton.1 hty]
      rfl
    | notarizeFallback s b' => rcases mem_pair.1 hty with hty | hty <;> rw [hty] <;> rfl
    | genesis s b' => cases v <;> simp_all [voteToCertTypes, Vote.getType]
    | skip s | finalize s => cases hb
  rw [hblock hbyBlock, (blockId_of_mem_voteToCertTypes hct).1, hb]
  rfl

/-- A counted Genesis vote builds a certificate just where it completes one. -/
lemma updateCertificates_genesis [SignerStore]
    (h : HoldsBallots stakes l p) {b : Hash} {certs : List Certificate}
    (hu : updateCertificates stakes rootBank (.genesis slot b) (some b) (stakes slot).totalStake p
      = .ok (p', ev, .ok certs)) :
    certs ≠ [] ↔ ¬ p.completedCertificates.contains (.genesis slot b)
      ∧ 82 * (stakes slot).totalStake ≤ 100 * stakeOf stakes (ofType slot .genesis l) := by
  have hvotes : certVotes (.genesis slot b) (some b) l = ofType slot .genesis l := flatMap_singleton ..
  obtain ⟨⟨p1, ev1, res1⟩, hstep, hu⟩ := bind_eq_ok.1 hu
  cases hu
  rcases updateCertificate_cases h hstep with
    ⟨-, -, hres, hnot⟩ | ⟨cert, ev1, hnew, -, -, hres, hbuilt⟩ <;> cases hres
  · refine iff_of_false (by simp) fun ⟨hnew, hle⟩ => ?_
    have hlt := hnot.resolve_left hnew
    rw [hvotes, Nat.mul_comm] at hlt
    exact absurd hle (Nat.not_le.2 hlt)
  · refine iff_of_true (by simp) ⟨hnew, ?_⟩
    have hlimit := hbuilt.limit
    rw [hvotes] at hlimit
    rcases Nat.eq_zero_or_pos (stakes slot).totalStake with hzero | hpos
    · simp [hzero]
    · rw [Nat.mul_comm 100]
      exact (Fraction.ge_iff_toRat ⟨_, _, hpos⟩ (.fromPercentage 82)).2 hlimit

lemma built_genesis_iff [SignerStore]
    (h : HoldsBallots stakes l p) {b : Hash} {rank : ℕ} {reply : PoolReply}
    (hs : step stakes p (.addMessage rootBank my (.vote ⟨.genesis slot b, rank⟩))
      = .ok (p', [(op, reply)])) :
    reply.built (.addMessage rootBank my (.vote ⟨.genesis slot b, rank⟩)) ≠ []
      ↔ CompletesGenesis stakes rootBank p ⟨.genesis slot b, rank⟩ slot b := by
  obtain ⟨⟨q, reply'⟩, hm, hs⟩ := bind_eq_ok.1 hs
  cases hs
  obtain ⟨⟨q, ev, res⟩, hadd, hm⟩ := bind_eq_ok.1 hm
  cases hm
  unfold CompletesGenesis
  rw [genesisVotes_eq h]
  rcases addVote_cases h hadd with ⟨hacc, -, -, e, rfl⟩ |
    ⟨hacc, pools, ⟨hf, -, -, -, rfl⟩ | ⟨hf, c, ev1, ev2, h1, -, hcert, -⟩⟩
  · exact iff_of_false (by simp [PoolReply.built, Except.map]) fun hc => hacc hc.1
  · exact iff_of_false (by simp [PoolReply.built, Except.map]) fun hc => hf hc.2.1
  · obtain ⟨-, -, certs, rfl, -⟩ := updateCertificates_spec h1 hcert
    have hstake : stakeOf stakes (ofType slot .genesis (l ++ [⟨.genesis slot b, rank⟩]))
        = stakeOf stakes (ofType slot .genesis l)
          + VoteMessage.stake stakes ⟨.genesis slot b, rank⟩ := by
      simp [ofType_append, ofType_singleton, Vote.slot, Vote.getType]
    refine (updateCertificates_genesis h1 hcert).trans ?_
    rw [hstake]
    exact ⟨fun hc => ⟨hacc, hf, hc⟩, fun hc => hc.2.2⟩

theorem step_sound_iff [SignerStore] (h : ∃ l, HoldsBallots stakes l p)
    (hs : step stakes p op = .ok (p', trace)) :
    (∀ e ∈ trace, ∀ c ∈ e.2.built e.1, c.Sound stakes) ↔ GenesisVotesAgree stakes p op := by
  obtain ⟨l, h⟩ := h
  obtain ⟨reply, rfl, hcases⟩ := step_ballots h hs
  simp
  by_cases hgenesis : ∃ rootBank my slot b rank,
      op = .addMessage rootBank my (.vote ⟨.genesis slot b, rank⟩)
  · obtain ⟨rootBank, my, slot, b, rank, rfl⟩ := hgenesis
    have hbuilds := built_genesis_iff h hs
    rcases hcases with ⟨-, hnil⟩ | ⟨_, _, m, heq, h', hbuilt⟩
    · simp only [hnil, not_mem_nil, false_implies, implies_true, true_iff]
      exact fun hc => absurd hnil (hbuilds.2 hc)
    cases heq
    have hvotes : certVotes (.genesis slot b) (some b) (l ++ [⟨.genesis slot b, rank⟩])
        = p.genesisVotes slot ++ [⟨.genesis slot b, rank⟩] := by
      rw [genesisVotes_eq h]
      simp [certVotes, CertificateType.limitsAndVoteTypes, counted, VoteType.byBlock,
        CertificateType.slot, ofType_append, ofType_singleton, Vote.slot, Vote.getType]
    have hone : ∀ c ∈ reply.built (.addMessage rootBank my (.vote ⟨.genesis slot b, rank⟩)),
        c.Sound stakes ↔ ∀ m' ∈ p.genesisVotes slot, m'.vote.blockId = some b := by
      intro c hc
      obtain ⟨hct, hb⟩ := hbuilt c hc
      rw [sound_iff h'.ballots hb, mem_singleton.1 hct]
      simp only [CertificateType.toBlock, Option.some.injEq, forall_eq']
      rw [show Vote.blockId (.genesis slot b) = some b from rfl, hvotes]
      simp only [mem_append, mem_singleton, or_imp, forall_and, forall_eq]
      exact and_iff_left rfl
    constructor
    · intro hall hc
      obtain ⟨c, hc⟩ := exists_mem_of_ne_nil _ (hbuilds.2 hc)
      exact (hone c hc).1 (hall c hc)
    · intro hagree c hc
      exact (hone c hc).2 (hagree (hbuilds.1 (ne_nil_of_mem hc)))
  · have hagree : GenesisVotesAgree stakes p op := by
      unfold GenesisVotesAgree
      split
      · exact absurd ⟨_, _, _, _, _, rfl⟩ hgenesis
      · trivial
    refine iff_of_true (fun c hc => ?_) hagree
    rcases hcases with ⟨-, hnil⟩ | ⟨_, _, m, rfl, h', hbuilt⟩
    · simp [hnil] at hc
    obtain ⟨hct, hb⟩ := hbuilt c hc
    refine (sound_iff h'.ballots hb).2 fun m' hm' b hb' => block_of_not_genesis hct ?_ hm' hb'
    obtain ⟨v, rank⟩ := m
    cases v <;> simp_all [Vote.getType]

/-- In every run of the pool the certificates it builds are sound just if no Genesis vote completes a
certificate beside Genesis votes for another block of its slot. -/
theorem built_sound_iff [SignerStore]
    {bank : RootBank} {ops : List PoolOp} {trace : List (PoolOp × PoolReply)}
    (hrun : run (step stakes) (newFromRootBank bank) ops = .ok (p, trace)) :
    (∀ e ∈ trace, ∀ c ∈ e.2.built e.1, c.Sound stakes)
      ↔ Guarded (step stakes) (GenesisVotesAgree stakes) (newFromRootBank bank) ops :=
  forall_outputs_iff_guarded (I := fun p => ∃ l, HoldsBallots stakes l p)
    (fun _ _ _ _ h hs => holdsBallots_step h hs) (fun _ _ _ _ h hs => step_sound_iff h hs)
    ⟨[], holdsBallots_new bank⟩ hrun

open PlainStore

def threeStakes : EpochStakes :=
  ⟨[⟨1, 1, 50⟩, ⟨2, 2, 40⟩, ⟨3, 3, 10⟩], 100, by decide, by decide, by decide, by decide⟩

def rootBankZero : RootBank := ⟨0, none, fun _ => true⟩

def receive (votes : List VoteMessage) : List PoolOp :=
  votes.map fun m => .addMessage rootBankZero 9 (.vote m)

/-- A Genesis vote for block 7 and one for block 8 of the same slot make a Genesis certificate for
block 8. -/
theorem genesis_certificate_of_two_blocks : ∃ p trace,
    run (step fun _ => threeStakes) (newFromRootBank rootBankZero)
      (receive [⟨.genesis 1 7, 0⟩, ⟨.genesis 1 8, 1⟩]) = .ok (p, trace)
    ∧ ∃ e ∈ trace, ∃ c ∈ e.2.built e.1, c.certType = .genesis 1 8
      ∧ ⟨.genesis 1 7, 0⟩ ∈ c.signature ∧ ¬ c.Sound fun _ => threeStakes := by
  refine ⟨_, _, rfl, (_, _), mem_cons_of_mem _ (mem_singleton_self _), _,
    mem_singleton_self _, rfl, mem_cons_self, fun hs => ?_⟩
  have := hs.block ⟨.genesis 1 7, 0⟩ mem_cons_self (1, 8) rfl
  revert this
  decide

/-- A Genesis block all agree on, and a block notarized by a vote and a fallback vote. -/
theorem built_sound_of_agreed : ∃ p trace,
    run (step fun _ => threeStakes) (newFromRootBank rootBankZero)
      (receive [⟨.genesis 1 7, 0⟩, ⟨.genesis 1 7, 1⟩, ⟨.notarize 2 5, 0⟩, ⟨.notarizeFallback 2 5, 1⟩])
      = .ok (p, trace)
    ∧ ∀ e ∈ trace, ∀ c ∈ e.2.built e.1, c.Sound fun _ => threeStakes := by
  obtain ⟨⟨p, trace⟩, hrun⟩ : ∃ r, run (step fun _ => threeStakes) (newFromRootBank rootBankZero)
      (receive [⟨.genesis 1 7, 0⟩, ⟨.genesis 1 7, 1⟩, ⟨.notarize 2 5, 0⟩, ⟨.notarizeFallback 2 5, 1⟩])
      = .ok r := ⟨_, rfl⟩
  exact ⟨p, trace, hrun, (built_sound_iff hrun).2 (by decide)⟩

end ConsensusPool

end BlackBull
