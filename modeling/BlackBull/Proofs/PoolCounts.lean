import BlackBull.Proofs.ParentReady
import BlackBull.Proofs.PoolSound
import BlackBull.Proofs.SlotStake

/-!
# What the pool tells of fallback votes

The counters of every slot count the ballots the pool holds (`CountsBallots`), through votes,
certificates and pruning.
-/

namespace BlackBull

namespace ConsensusPool

variable {stakes : ℕ → EpochStakes} {l : List VoteMessage} {m : VoteMessage} {me : Pubkey}
  {p p' : ConsensusPool} {rootBank : RootBank} {ev : List VotorEvent}
  {res : Except AddVoteError (List Certificate)} {certType : CertificateType} {cert : Certificate}

/-- The pool holds the ballots, and its counters count them. -/
structure CountsBallots (stakes : ℕ → EpochStakes) (me : Pubkey) (l : List VoteMessage)
    (p : ConsensusPool) : Prop extends HoldsBallots stakes l p where
  counts : ∀ slot, Counts stakes me slot l (p.slotStakeCounters slot (stakes slot).totalStake)

/-- The blocks of a slot the pool has told to be safe to notarize. -/
def notarSent (p : ConsensusPool) (slot : ℕ) : List Hash :=
  ((p.slotStakeCountersMap.get? slot).map (·.safeToNotarSent)).getD []

lemma notarSent_eq (p : ConsensusPool) (slot total : ℕ) :
    p.notarSent slot = (p.slotStakeCounters slot total).safeToNotarSent := by
  unfold notarSent slotStakeCounters
  cases p.slotStakeCountersMap.get? slot <;> rfl

lemma countsBallots_new (bank : RootBank) : CountsBallots stakes me [] (newFromRootBank bank) :=
  ⟨holdsBallots_new bank, fun _ => counts_nil (by simp)⟩

lemma CountsBallots.congr (h : CountsBallots stakes me l p) (hp : p'.votePools = p.votePools)
    (hc : p'.slotStakeCountersMap = p.slotStakeCountersMap) : CountsBallots stakes me l p' := by
  refine ⟨holdsBallots_congr h.toHoldsBallots hp, fun slot => ?_⟩
  have := h.counts slot
  unfold slotStakeCounters at this ⊢
  rwa [hc]

lemma track_events {t t' : ParentReadyTracker} (h : track t certType = .ok (t', ev)) :
    ∀ e ∈ ev, ∃ s b, e = .parentReady s b := by
  cases certType with
  | notarize slot b | notarizeFallback slot b | finalizeFast slot b | genesis slot b =>
    exact @trackerStep_events _ _ _ (.addNewNotarFallbackOrStronger (slot, b)) h
  | skip slot => exact @trackerStep_events _ _ _ (.addNewSkip slot) h
  | finalize slot =>
    cases h
    simp

lemma insertCertificate_events [SignerStore]
    (h : insertCertificate stakes rootBank certType cert p = .ok (p', ev)) :
    ∀ e ∈ ev, e.isFallback = false := by
  obtain ⟨t, tracked, c, ht, -, -, rfl⟩ := insertCertificate_cases h
  intro e he
  rcases mem_certEvents.1 he with he | ⟨slot, b, -, rfl⟩ | ⟨slot, b, -, rfl⟩ | ⟨block, -, rfl⟩
  · obtain ⟨s, b, rfl⟩ := track_events ht e he
    rfl
  all_goals rfl

lemma insertCertificate_lastPrunedSlot [SignerStore]
    (h : insertCertificate stakes rootBank certType cert p = .ok (p', ev)) :
    p'.lastPrunedSlot = p.lastPrunedSlot := by
  obtain ⟨t, c, rfl⟩ := insertCertificate_frame h
  rfl

lemma updateCertificates_events [SignerStore]
    (h : HoldsBallots stakes l p) {v : Vote} {blockId : Option Hash}
    (hu : updateCertificates stakes rootBank v blockId
      (stakes v.slot).totalStake p = .ok (p', ev, res)) :
    (∀ e ∈ ev, e.isFallback = false) ∧ p'.lastPrunedSlot = p.lastPrunedSlot := by
  have := foldlM_induction (P := fun acc => HoldsBallots stakes l acc.1
    ∧ (∀ e ∈ acc.2.1, e.isFallback = false) ∧ acc.1.lastPrunedSlot = p.lastPrunedSlot)
    ⟨h, by simp, rfl⟩ ?_ hu
  · exact this.2
  rintro ⟨p1, ev1, e | certs1⟩ certType ⟨p2, ev2, res2⟩ hmem ⟨h1, hev, hlast⟩ hstep
  · cases hstep
    exact ⟨h1, hev, hlast⟩
  rw [← slot_of_mem_voteToCertTypes hmem] at hstep
  rcases updateCertificate_cases h1 hstep with ⟨rfl, rfl, -, -⟩ | ⟨cert, ev', -, hins, rfl, -, -⟩
  · exact ⟨h1, hev, hlast⟩
  · refine ⟨?_, List.forall_mem_append.2 ⟨hev, insertCertificate_events hins⟩,
      (insertCertificate_lastPrunedSlot hins).trans hlast⟩
    obtain ⟨t, c, rfl⟩ := insertCertificate_frame hins
    exact holdsBallots_congr h1 rfl

lemma addCertificate_events [SignerStore]
    (h : addCertificate stakes rootBank cert p = .ok (p', ev, res)) :
    (∀ e ∈ ev, e.isFallback = false) ∧ p'.lastPrunedSlot = p.lastPrunedSlot := by
  unfold addCertificate at h
  split_ifs at h
  · cases h
    exact ⟨by simp, rfl⟩
  · cases h
    exact ⟨by simp, rfl⟩
  · obtain ⟨⟨q, ev'⟩, hins, h⟩ := Except.bind_eq_ok.1 h
    cases h
    exact ⟨insertCertificate_events hins, insertCertificate_lastPrunedSlot hins⟩

lemma slotStakeCounters_of_insert {slot : ℕ} {c : SlotStakeCounters}
    (h : p'.slotStakeCountersMap = p.slotStakeCountersMap.insert slot c) (s total : ℕ) :
    p'.slotStakeCounters s total = if slot = s then c else p.slotStakeCounters s total := by
  unfold slotStakeCounters
  rw [h, OrdMap.get?_insert]
  split_ifs <;> rfl

theorem addVote_counts [SignerStore] (h : CountsBallots stakes me l p)
    (ha : addVote stakes rootBank me m p = .ok (p', ev, res)) :
    p'.lastPrunedSlot = p.lastPrunedSlot
      ∧ (CountsBallots stakes me l p' ∧ ev = [] ∧ p'.slotStakeCountersMap = p.slotStakeCountersMap
          ∧ (∀ certs, res = .ok certs → ¬ Fresh stakes (ofType m.vote.slot m.vote.getType l) m)
        ∨ CountsBallots stakes me (l ++ [m]) p' ∧ rootBank.slot ≤ m.vote.slot
          ∧ (∃ certs, res = .ok certs) ∧ ∃ bs skip ev',
            ev = (bs.map fun b => .safeToNotar (m.vote.slot, b))
              ++ (if skip then [.safeToSkip m.vote.slot] else []) ++ ev'
            ∧ (∀ e ∈ ev', e.isFallback = false)
            ∧ (∀ slot, p'.notarSent slot = p.notarSent slot
              ++ if m.vote.slot = slot then bs else [])
            ∧ (skip = true → SafeToSkip stakes me m.vote.slot (l ++ [m]))) := by
  rcases addVote_cases h.toHoldsBallots ha with ⟨-, rfl, rfl, e, rfl⟩ |
    ⟨hacc, pools, ⟨hf, h', rfl, rfl, -⟩ | ⟨-, c, ev1, ev2, hset, hctr, hcert, rfl⟩⟩
  · exact ⟨rfl, .inl ⟨h, rfl, rfl, nofun⟩⟩
  · exact ⟨rfl, .inl ⟨⟨h', h.counts⟩, rfl, rfl, fun _ _ => hf⟩⟩
  -- the counters of the slot before and after the vote
  obtain ⟨c', bs, skip, hadd, hcounts, hsent, hskip, hnew⟩ :=
    (h.counts m.vote.slot).addVote hset.ballots rfl
  have heq : (c, ev1) = (c', _) := Except.ok.inj (hctr.symm.trans hadd)
  cases heq
  obtain ⟨h', hmap, certs, rfl, -⟩ := updateCertificates_spec hset hcert
  obtain ⟨hev, hlast⟩ := updateCertificates_events hset hcert
  have hctr' : ∀ slot total, p'.slotStakeCounters slot total
      = if m.vote.slot = slot then c else p.slotStakeCounters slot total :=
    slotStakeCounters_of_insert hmap
  refine ⟨hlast, .inr ⟨⟨h', fun slot => ?_⟩, hacc.root_le, ⟨certs, rfl⟩, bs, skip, ev2, rfl, hev,
    fun slot => ?_, fun hs => ?_⟩⟩
  · rw [hctr']
    split_ifs with hslot
    · rw [← hslot]
      exact hcounts
    · exact (h.counts slot).snoc fun hs => absurd hs hslot
  · rw [notarSent_eq p' slot (stakes slot).totalStake, hctr',
      notarSent_eq p slot (stakes slot).totalStake]
    split_ifs with hslot
    · rw [← hslot]
      exact hsent
    · rw [List.append_nil]
  · rw [← hcounts.safeToSkipSent, hskip, hs]
    simp

lemma addVote_ok [SignerStore] (h : HoldsBallots stakes l p) (hacc : Accepts stakes rootBank p m)
    (ha : addVote stakes rootBank me m p = .ok (p', ev, res)) : ∃ certs, res = .ok certs := by
  rcases addVote_cases h ha with ⟨hnot, -⟩ |
    ⟨-, pools, ⟨-, -, -, -, rfl⟩ | ⟨-, c, ev1, ev2, h1, -, hcert, -⟩⟩
  · exact absurd hacc hnot
  · exact ⟨[], rfl⟩
  · obtain ⟨-, -, certs, hres, -⟩ := updateCertificates_spec h1 hcert
    exact ⟨certs, hres⟩

lemma get?_maybePrune {rootSlot : ℕ} (hlt : p.lastPrunedSlot < rootSlot) (slot : ℕ) :
    (p.maybePrune rootSlot).slotStakeCountersMap.get? slot
      = if rootSlot ≤ slot then p.slotStakeCountersMap.get? slot else none := by
  rw [ConsensusPool.maybePrune, if_neg (Nat.not_le.2 hlt)]
  simp
  cases p.slotStakeCountersMap.get? slot <;> simp [Option.filter]

lemma slotStakeCounters_maybePrune {rootSlot : ℕ} (hlt : p.lastPrunedSlot < rootSlot)
    (slot total : ℕ) : (p.maybePrune rootSlot).slotStakeCounters slot total
      = if rootSlot ≤ slot then p.slotStakeCounters slot total else { totalStake := total } := by
  unfold slotStakeCounters
  rw [get?_maybePrune hlt]
  split_ifs <;> rfl

lemma CountsBallots.maybePrune (h : CountsBallots stakes me l p) (rootSlot : ℕ) :
    ∃ l', CountsBallots stakes me l' (p.maybePrune rootSlot) ∧ l'.Sublist l
      ∧ p.lastPrunedSlot ≤ (p.maybePrune rootSlot).lastPrunedSlot
      ∧ (p.maybePrune rootSlot).lastPrunedSlot ≤ max p.lastPrunedSlot rootSlot
      ∧ ∀ slot, (p.maybePrune rootSlot).lastPrunedSlot ≤ slot →
        (p.maybePrune rootSlot).notarSent slot = p.notarSent slot := by
  rcases p.maybePrune_cases rootSlot with heq | ⟨hlt, hlast, -⟩
  · rw [heq]
    exact ⟨l, h, List.Sublist.refl _, le_rfl, le_max_left _ _, fun _ _ => rfl⟩
  refine ⟨_, ⟨holdsBallots_prune h.toHoldsBallots hlt, fun slot => ?_⟩, List.filter_sublist,
    hlt.le.trans_eq hlast.symm, hlast.trans_le (le_max_right _ _), fun slot hs => ?_⟩
  · rw [slotStakeCounters_maybePrune hlt]
    split_ifs with hs
    · refine (h.counts slot).congr (by rw [ofType_filter_slot, if_pos hs])
        (by rw [ofType_filter_slot, if_pos hs]) ?_
      unfold firstVote
      rw [List.find?_filter]
      congr 2
      funext m
      by_cases hm : m.vote.slot = slot
      · simp [hm, hs]
      · simp [hm]
    · refine counts_nil fun m hm => ?_
      have := List.of_mem_filter hm
      rw [decide_eq_true_eq] at this
      omega
  · unfold notarSent
    rw [get?_maybePrune hlt, if_pos (hlast ▸ hs)]

end ConsensusPool

end BlackBull
