import BlackBull.Proofs.PoolReturns

/-!
# The highest finalized slot and standstill recovery

Three types of certificate can finalize a slot, in any order; the pool records the highest.
-/

namespace BlackBull

open OrdMap Option CertificateType ParentReadyTracker

def PoolOp.rootSlot : PoolOp → ℕ
  | .addMessage rootBank _ _ => rootBank.slot
  | .maybePrune rootSlot => rootSlot

namespace ConsensusPool

variable {stakes : ℕ → EpochStakes} {rootBank : RootBank} {certType ct : CertificateType}
  {cert : Certificate} {p p' q : ConsensusPool} {ev : List VotorEvent} {slot s : ℕ}
  {c c' c'' : Option ValidatedBlockFinalizationCert} {l : List VoteMessage}

/-! ## What a certificate finalizes -/

/-- A finalization gives way only to one of a higher slot, or to a fast one of its slot. -/
def FinalUp (c c' : Option ValidatedBlockFinalizationCert) : Prop :=
  ∀ hc, c = some hc → ∃ hc', c' = some hc'
    ∧ (hc.slot < hc'.slot ∨ hc.slot = hc'.slot ∧ (hc.isFast = true → hc'.isFast = true))

lemma FinalUp.refl (c : Option ValidatedBlockFinalizationCert) : FinalUp c c :=
  fun hc h => ⟨hc, h, .inr ⟨rfl, fun h => h⟩⟩

def Recorded (c : Option ValidatedBlockFinalizationCert) (slot : ℕ) (fast : Bool) : Prop :=
  ∃ hc, c = some hc ∧ (slot < hc.slot ∨ slot = hc.slot ∧ (fast = true → hc.isFast = true))

lemma Recorded.up {fast : Bool} (h : Recorded c slot fast) (hup : FinalUp c c') :
    Recorded c' slot fast := by
  obtain ⟨hc, rfl, h⟩ := h
  obtain ⟨hc', rfl, h'⟩ := hup hc rfl
  refine ⟨hc', rfl, ?_⟩
  rcases h with h | ⟨h, hf⟩ <;> rcases h' with h' | ⟨h', hf'⟩
  · exact .inl (h.trans h')
  · exact .inl (h.trans_eq h')
  · exact .inl (h.trans_lt h')
  · exact .inr ⟨h.trans h', fun hfast => hf' (hf hfast)⟩

lemma FinalUp.trans (h : FinalUp c c') (h' : FinalUp c' c'') : FinalUp c c'' :=
  fun hc hhc => Recorded.up (h hc hhc) h'

lemma extractSigners_ok [SignerStore] {signers : List Pubkey}
    (h : extractSigners stakes rootBank cert = .ok signers) : cert.HasSigners stakes := by
  unfold extractSigners RootBank.epochStakesFromSlot at h
  split_ifs at h
  simp only at h
  split at h
  case h_1 ranks hranks => exact ⟨ranks, hranks⟩
  all_goals cases h

lemma all_highestFinalizedSlot {P : ℕ → Bool} :
    p.highestFinalizedSlot.all P ↔ ∀ hc, p.highestFinalizedSlotCert = some hc → P hc.slot := by
  rw [highestFinalizedSlot]
  cases p.highestFinalizedSlotCert <;> simp

def FinalStep [SignerStore] (stakes : ℕ → EpochStakes) (cert : Certificate) (p : ConsensusPool)
    (certType : CertificateType) (c : Option ValidatedBlockFinalizationCert) : Prop :=
  c = p.highestFinalizedSlotCert ∧ (p.finalizes certType = none
    ∨ ∃ hc, c = some hc ∧ certType.slot ≤ hc.slot
      ∧ (isFastFinalization certType = true → certType.slot < hc.slot))
  ∨ (∃ block, p.finalizes certType = some block) ∧ FinalUp p.highestFinalizedSlotCert c
    ∧ (∃ hc, c = some hc ∧ hc.slot = certType.slot ∧ hc.isFast = isFastFinalization certType)
    ∧ ∀ sc, p.signed cert certType = some sc → sc.HasSigners stakes

lemma finalization_spec [SignerStore]
    (hstored : ∀ ct c, p.completedCertificates.get? ct = some c → c.certType = ct)
    (heq : cert.certType = certType) (h : finalization stakes rootBank cert p certType = .ok c) :
    FinalStep stakes cert p certType c := by
  have slow : ∀ {fc nc block}, p.finalizes certType = some block →
      fc.certType.slot = certType.slot → isFastFinalization certType = false →
      p.signed cert certType = some fc →
      finalization.slow stakes rootBank p certType.slot fc nc = .ok c →
      FinalStep stakes cert p certType c := by
    intro fc nc block hfin hslot hslow hsigned h
    unfold finalization.slow at h
    split_ifs at h with hall
    · obtain ⟨signers, hs, rfl⟩ := Except.map_eq_ok.1 h
      refine .inr ⟨⟨_, hfin⟩, fun hc hhc => ⟨_, rfl, .inl ?_⟩, ⟨_, rfl, hslot, hslow.symm⟩,
        fun _ hsc => ?_⟩
      · exact (of_decide_eq_true (all_highestFinalizedSlot.1 hall hc hhc)).trans_eq hslot.symm
      · cases hsigned.symm.trans hsc
        exact extractSigners_ok hs
    · cases h
      simp only [all_highestFinalizedSlot, not_forall, decide_eq_true_eq] at hall
      obtain ⟨hc, hhc, hnot⟩ := hall
      exact .inl ⟨rfl, .inr ⟨hc, hhc, Nat.le_of_not_lt hnot, by simp [hslow]⟩⟩
  cases certType with
  | notarize s b =>
    simp only [finalization] at h
    cases hf : p.getFinalizeCert s with
    | none =>
      rw [hf] at h
      cases h
      exact .inl ⟨rfl, .inl (by simp [finalizes, hf])⟩
    | some fc =>
      rw [hf] at h
      exact @slow _ _ (s, b) (by simp [finalizes, hf]) (by rw [hstored _ _ hf]; rfl) rfl hf h
  | finalize s =>
    simp only [finalization] at h
    cases hn : p.getNotarizeCert s with
    | none =>
      rw [hn] at h
      cases h
      exact .inl ⟨rfl, .inl (by simp [finalizes, hn])⟩
    | some nc =>
      rw [hn] at h
      simp only at h
      split_ifs at h with hb
      obtain ⟨block, hb⟩ := isSome_iff_exists.1 hb
      exact @slow _ _ (s, block.2) (by simp [finalizes, hn, hb]) (by rw [heq]) rfl rfl h
  | finalizeFast s b =>
    simp only [finalization, finalization.fast] at h
    split_ifs at h with hall
    · obtain ⟨signers, hs, rfl⟩ := Except.map_eq_ok.1 h
      refine .inr ⟨⟨(s, b), rfl⟩, fun hc hhc => ⟨_, rfl, ?_⟩,
        ⟨_, rfl, by rw [ValidatedBlockFinalizationCert.slot, heq], rfl⟩, fun sc hsc => ?_⟩
      · have hle : hc.slot ≤ s := of_decide_eq_true (all_highestFinalizedSlot.1 hall hc hhc)
        rw [ValidatedBlockFinalizationCert.slot, heq]
        rcases Nat.lt_or_ge hc.slot s with hlt | hge
        · exact .inl hlt
        · exact .inr ⟨le_antisymm hle hge, fun _ => rfl⟩
      · cases hsc
        exact extractSigners_ok hs
    · cases h
      simp only [all_highestFinalizedSlot, not_forall, decide_eq_true_eq, not_le] at hall
      obtain ⟨hc, hhc, hlt⟩ := hall
      exact .inl ⟨rfl, .inr ⟨hc, hhc, hlt.le, fun _ => hlt⟩⟩
  | notarizeFallback s b | skip s | genesis s b =>
    cases h
    exact .inl ⟨rfl, .inl rfl⟩

/-! ## The certificates and the highest finalization -/

/-- The certificates of the pool say no more than the highest finalization records, and those that
made it are there until they are pruned. -/
structure FinalInv [SignerStore] (stakes : ℕ → EpochStakes) (p : ConsensusPool) : Prop where
  certType_eq : ∀ ct c, p.completedCertificates.get? ct = some c → c.certType = ct
  fast : ∀ s b, p.completedCertificates.contains (.finalizeFast s b) →
    Recorded p.highestFinalizedSlotCert s true
  slow : ∀ s b, p.completedCertificates.contains (.finalize s) →
    p.completedCertificates.contains (.notarize s b) → Recorded p.highestFinalizedSlotCert s false
  kept_fast : ∀ hc, p.highestFinalizedSlotCert = some hc → p.lastPrunedSlot ≤ hc.slot →
    hc.isFast = true → (∃ b, p.completedCertificates.contains (.finalizeFast hc.slot b))
      ∧ ∀ b c, p.completedCertificates.get? (.finalizeFast hc.slot b) = some c → c.HasSigners stakes
  kept_slow : ∀ hc, p.highestFinalizedSlotCert = some hc → p.lastPrunedSlot ≤ hc.slot →
    hc.isFast = false → (∃ b, p.completedCertificates.contains (.notarize hc.slot b))
      ∧ ∃ c, p.completedCertificates.get? (.finalize hc.slot) = some c ∧ c.HasSigners stakes

lemma certType_eq_insert {certs : OrdMap CertificateType Certificate}
    (h : ∀ ct c, certs.get? ct = some c → c.certType = ct) (heq : cert.certType = certType) :
    ∀ ct c, (certs.insert certType cert).get? ct = some c → c.certType = ct := by
  intro ct c hget
  rw [get?_insert] at hget
  split_ifs at hget with hct
  · cases hget
    exact heq.trans hct
  · exact h ct c hget

lemma finalInv_new [SignerStore] (bank : RootBank) : FinalInv stakes (newFromRootBank bank) :=
  ⟨nofun, nofun, nofun, nofun, nofun⟩

lemma FinalInv.insertCertificate [SignerStore] (h : FinalInv stakes p)
    (hnew : ¬ p.completedCertificates.contains certType) (heq : cert.certType = certType)
    (hins : insertCertificate stakes rootBank certType cert p = .ok (p', ev)) :
    FinalInv stakes p' ∧ FinalUp p.highestFinalizedSlotCert p'.highestFinalizedSlotCert := by
  obtain ⟨t, tracked, c, -, hfinal, rfl, -⟩ := insertCertificate_cases hins
  set q : ConsensusPool :=
    { p with completedCertificates := p.completedCertificates.insert certType cert } with hq
  have hstored : ∀ ct c, q.completedCertificates.get? ct = some c → c.certType = ct :=
    certType_eq_insert h.certType_eq heq
  have hcontains : ∀ ct, q.completedCertificates.contains ct
      ↔ certType = ct ∨ p.completedCertificates.contains ct := fun ct => contains_insert
  have hold : ∀ {ct c}, p.completedCertificates.get? ct = some c →
      q.completedCertificates.get? ct = some c := by
    intro ct c hget
    rw [hq, get?_insert_ne _ ?_ _]
    · exact hget
    · rintro rfl
      exact hnew (isSome_of_eq_some hget)
  have hfin := @finalizes_isSome certType q hstored
  have hspec := finalization_spec hstored heq hfinal
  have hup : FinalUp p.highestFinalizedSlotCert c := by
    rcases hspec with ⟨rfl, -⟩ | ⟨-, hup, -⟩
    · exact FinalUp.refl _
    · exact hup
  -- whatever the certificate completes is recorded
  have hrec : (q.finalizes certType).isSome →
      Recorded c certType.slot (isFastFinalization certType) := by
    intro hsome
    rcases hspec with ⟨rfl, hnone | ⟨hc, hhc, hle, hlt⟩⟩ | ⟨-, -, ⟨hc, rfl, hslot, hfast⟩, -⟩
    · rw [hnone] at hsome
      cases hsome
    · refine ⟨hc, hhc, ?_⟩
      rcases Nat.lt_or_ge certType.slot hc.slot with h' | h'
      · exact .inl h'
      · exact .inr ⟨le_antisymm hle h', fun hf => absurd (hlt hf) (Nat.not_lt.2 h')⟩
    · exact ⟨hc, rfl, .inr ⟨hslot.symm, fun hf => hfast.trans hf⟩⟩
  refine ⟨⟨hstored, fun s b hb => ?_, fun s b hs hb => ?_, fun hc hhc hle hf => ?_,
    fun hc hhc hle hf => ?_⟩, hup⟩
  · rcases (hcontains _).1 hb with rfl | hb
    · exact hrec (hfin.2 (.inl ⟨s, b, rfl⟩))
    · exact (h.fast s b hb).up hup
  · rcases (hcontains _).1 hs with rfl | hs'
    · exact hrec (hfin.2 (.inr (.inr ⟨s, b, rfl, hb⟩)))
    rcases (hcontains _).1 hb with rfl | hb'
    · exact hrec (hfin.2 (.inr (.inl ⟨s, b, rfl, hs⟩)))
    · exact (h.slow s b hs' hb').up hup
  · have hkept (hhc : p.highestFinalizedSlotCert = some hc)
        (hne : ∀ b, certType ≠ .finalizeFast hc.slot b) :
        (∃ b, q.completedCertificates.contains (.finalizeFast hc.slot b))
          ∧ ∀ b c, q.completedCertificates.get? (.finalizeFast hc.slot b) = some c →
            c.HasSigners stakes := by
      obtain ⟨⟨b, hb⟩, hall⟩ := h.kept_fast hc hhc hle hf
      refine ⟨⟨b, (hcontains _).2 (.inr hb)⟩, fun b' c' hget => hall b' c' ?_⟩
      rwa [hq, get?_insert_ne _ (hne b') _] at hget
    rcases hspec with
      ⟨rfl, hnone | ⟨hc', hhc', -, hlt⟩⟩ | ⟨-, -, ⟨hc', rfl, hslot, hfast⟩, hsign⟩
    · refine hkept hhc fun b hct => ?_
      rw [hct] at hnone
      cases hnone
    · cases hhc'.symm.trans hhc
      refine hkept hhc fun b hct => ?_
      rw [hct] at hlt
      exact absurd (hlt rfl) (lt_irrefl _)
    · cases hhc
      rw [hf] at hfast
      cases certType with
      | finalizeFast s b =>
        have hs : hc.slot = s := hslot
        refine ⟨⟨b, (hcontains _).2 (.inl (by rw [hs]))⟩, fun b' c' hget => ?_⟩
        simp only [get?_insert] at hget
        split_ifs at hget with hct
        · cases hget
          exact hsign cert rfl
        · -- an older one of the slot was recorded
          obtain ⟨hc0, hhc0, hlt | ⟨heq0, hf0⟩⟩ := h.fast hc.slot b'
            (isSome_of_eq_some hget)
          · obtain ⟨hc1, hhc1, hup1⟩ := hup hc0 hhc0
            cases hhc1
            omega
          · rw [heq0] at hget hle
            exact (h.kept_fast hc0 hhc0 hle (hf0 rfl)).2 b' c' hget
      | _ => cases hfast
  · rcases hspec with ⟨rfl, -⟩ | ⟨hsome, -, ⟨hc', rfl, hslot, hfast⟩, hsign⟩
    · obtain ⟨⟨b, hb⟩, c', hget, hs⟩ := h.kept_slow hc hhc hle hf
      exact ⟨⟨b, (hcontains _).2 (.inr hb)⟩, c', hold hget, hs⟩
    cases hhc
    rw [hf] at hfast
    rw [← isSome_iff_exists, hfin] at hsome
    rcases hsome with ⟨s, b, rfl⟩ | ⟨s, b, rfl, hs⟩ | ⟨s, b, rfl, hb⟩
    · cases hfast
    · have hs' : hc.slot = s := hslot
      obtain ⟨fc, hfc⟩ := isSome_iff_exists.1 hs
      rw [hs']
      exact ⟨⟨b, (hcontains _).2 (.inl rfl)⟩, fc, hfc, hsign fc hfc⟩
    · have hs' : hc.slot = s := hslot
      rw [hs']
      exact ⟨⟨b, hb⟩, cert, get?_insert_self _ _ _, hsign cert rfl⟩

lemma addMessage_cases [SignerStore] {me : Pubkey} {message : ConsensusMessage} {reply : PoolReply}
    (h : addMessage stakes rootBank me message p = .ok (p', reply)) :
    ∃ ev res, (match message with
      | .vote msg => addVote stakes rootBank me msg p
      | .certificate cert => addCertificate stakes rootBank cert p) = .ok (p', ev, res)
    ∧ reply = ⟨ev, res.map
      (newFinalizedSlot p.highestFinalizedSlot p'.highestFinalizedSlot, ·)⟩ := by
  cases message with
  | vote m | certificate cert =>
    obtain ⟨⟨q, ev, res⟩, hadd, h⟩ := Except.bind_eq_ok.1 h
    cases h
    exact ⟨ev, res, hadd, rfl⟩

lemma addMessage_certificates [SignerStore]
    {me : Pubkey} {message : ConsensusMessage} {reply : PoolReply}
    {P : ConsensusPool → Prop} (hl : HoldsBallots stakes l p) (hvotes : ∀ q pools counters, P q →
      P { q with votePools := pools, slotStakeCountersMap := counters })
    (hins : ∀ q q' ct cert ev, P q → ¬ q.completedCertificates.contains ct → cert.certType = ct →
      rootBank.slot ≤ ct.slot → ConsensusPool.insertCertificate stakes rootBank ct cert q
        = .ok (q', ev) → P q') (h0 : P p)
    (h : addMessage stakes rootBank me message p = .ok (p', reply)) :
    P p' ∧ (∀ e, reply.result = .error e → p' = p)
      ∧ ∀ s certs, reply.result = .ok (s, certs) →
        s = newFinalizedSlot p.highestFinalizedSlot p'.highestFinalizedSlot := by
  obtain ⟨ev, res, hadd, rfl⟩ := addMessage_cases h
  suffices hres : P p' ∧ ∀ e, res = .error e → p' = p by
    obtain ⟨hP, herr⟩ := hres
    rcases res with e | certs
    · exact ⟨hP, fun _ _ => herr e rfl, nofun⟩
    · refine ⟨hP, nofun, fun s certs hok => ?_⟩
      cases hok
      rfl
  cases message with
  | certificate cert =>
    simp only [addCertificate] at hadd
    split_ifs at hadd with hroot hcontains
    · cases hadd
      exact ⟨h0, fun _ _ => rfl⟩
    · cases hadd
      exact ⟨h0, nofun⟩
    · obtain ⟨⟨q, ev'⟩, hinsert, hadd⟩ := Except.bind_eq_ok.1 hadd
      cases hadd
      exact ⟨hins p _ _ _ _ h0 hcontains rfl (Nat.not_lt.1 hroot) hinsert, nofun⟩
  | vote m =>
    rcases addVote_cases hl hadd with ⟨-, rfl, -, -⟩ |
      ⟨hacc, pools, ⟨-, -, rfl, -, rfl⟩ | ⟨-, counters, ev1, ev2, hl1, -, hcert, -⟩⟩
    · exact ⟨h0, fun _ _ => rfl⟩
    · exact ⟨hvotes p pools p.slotStakeCountersMap h0, nofun⟩
    obtain ⟨-, -, certs, rfl, -⟩ := updateCertificates_spec hl1 hcert
    refine ⟨?_, nofun⟩
    -- each turn of the loop inserts one certificate or none
    refine (foldlM_induction (P := fun acc => HoldsBallots stakes (l ++ [m]) acc.1 ∧ P acc.1
      ∧ ∃ certs, acc.2.2 = .ok certs) ⟨hl1, hvotes p _ _ h0, [], rfl⟩ ?_ hcert).2.1
    rintro ⟨q, ev, res⟩ certType ⟨q', ev', res'⟩ hmem ⟨hq, hPq, certs', hres⟩ hstep
    subst hres
    have hslot := slot_of_mem_voteToCertTypes hmem
    rw [← hslot] at hstep
    rcases updateCertificate_cases hq hstep with ⟨rfl, -, rfl, -⟩ |
      ⟨cert, ev3, hnew, hinsert, -, rfl, hb⟩
    · exact ⟨hq, hPq, certs', rfl⟩
    · have hP' := hins q q' certType cert ev3 hPq hnew hb.certType_eq (hslot ▸ hacc.root_le) hinsert
      obtain ⟨t, c, rfl⟩ := insertCertificate_frame hinsert
      exact ⟨holdsBallots_congr hq rfl, hP', _, rfl⟩

lemma contains_maybePrune {rootSlot : ℕ} (hlt : p.lastPrunedSlot < rootSlot) {ct : CertificateType} :
    (p.maybePrune rootSlot).completedCertificates.contains ct
      ↔ rootSlot ≤ ct.slot ∧ p.completedCertificates.contains ct := by
  unfold contains
  rw [completedCertificates_maybePrune hlt]
  split_ifs with hle <;> simp [hle]

lemma highestFinalizedSlotCert_maybePrune (rootSlot : ℕ) :
    (p.maybePrune rootSlot).highestFinalizedSlotCert = p.highestFinalizedSlotCert := by
  unfold ConsensusPool.maybePrune
  split_ifs <;> rfl

lemma FinalInv.maybePrune [SignerStore] (h : FinalInv stakes p) (rootSlot : ℕ) :
    FinalInv stakes (p.maybePrune rootSlot) := by
  rcases p.maybePrune_cases rootSlot with heq | ⟨hlt, hlast, -⟩
  · exact heq.symm ▸ h
  have hget := completedCertificates_maybePrune hlt
  have hcontains := @contains_maybePrune p rootSlot hlt
  have hhigh : (p.maybePrune rootSlot).highestFinalizedSlotCert = p.highestFinalizedSlotCert :=
    highestFinalizedSlotCert_maybePrune rootSlot
  refine ⟨fun ct c hc => ?_, fun s b hb => ?_, fun s b hs hb => ?_, fun hc hhc hle hf => ?_,
    fun hc hhc hle hf => ?_⟩
  · rw [hget] at hc
    split_ifs at hc
    exact h.certType_eq ct c hc
  · rw [hhigh]
    exact h.fast s b (hcontains.1 hb).2
  · rw [hhigh]
    exact h.slow s b (hcontains.1 hs).2 (hcontains.1 hb).2
  · rw [hhigh] at hhc
    rw [hlast] at hle
    obtain ⟨⟨b, hb⟩, hall⟩ := h.kept_fast hc hhc (hlt.le.trans hle) hf
    refine ⟨⟨b, hcontains.2 ⟨hle, hb⟩⟩, fun b c hget' => hall b c ?_⟩
    rwa [hget, if_pos (show rootSlot ≤ slot (.finalizeFast hc.slot b) from hle)]
      at hget'
  · rw [hhigh] at hhc
    rw [hlast] at hle
    obtain ⟨⟨b, hb⟩, c, hc', hsign⟩ := h.kept_slow hc hhc (hlt.le.trans hle) hf
    refine ⟨⟨b, hcontains.2 ⟨hle, hb⟩⟩, c, ?_, hsign⟩
    rwa [hget, if_pos (show rootSlot ≤ slot (.finalize hc.slot) from hle)]

/-! ## The tracker, in runs whose root does not go back -/

variable {bank : RootBank}

/-- The tracker of a pool that was made from `bank` and has not seen a lower root. It knows the
blocks of all certificates above its root, and they are not more than a slot has room for. -/
structure TracksCerts (bank : RootBank) (p : ConsensusPool) : Prop where
  root : p.parentReadyTracker.root = max bank.slot p.lastPrunedSlot
  nodup : ∀ s, (p.parentReadyTracker.status s).notarFallbacks.Nodup
  length_le : ∀ s, (p.parentReadyTracker.status s).notarFallbacks.length ≤ maxNotarFallbackBlocks
  mem : ∀ ct block, p.completedCertificates.contains ct → ct.toBlock = some block →
    p.parentReadyTracker.root < block.1 →
    block ∈ (p.parentReadyTracker.status block.1).notarFallbacks
  highest : ∀ hc, p.highestFinalizedSlotCert = some hc → bank.slot ≤ hc.slot

lemma tracksCerts_new (bank : RootBank) : TracksCerts bank (newFromRootBank bank) := by
  refine ⟨(Nat.max_eq_left (Nat.zero_le _)).symm, (trackerInv_new _).nodup, fun s => ?_, nofun, nofun⟩
  unfold newFromRootBank ParentReadyTracker.new status
  simp only [get?_insert, get?_empty]
  split_ifs <;> simp [maxNotarFallbackBlocks]

lemma TracksCerts.insertCertificate [SignerStore]
    (h : TracksCerts bank p) (hinv : FinalInv stakes p)
    (heq : cert.certType = certType) (hle : bank.slot ≤ certType.slot)
    (hins : insertCertificate stakes rootBank certType cert p = .ok (p', ev)) :
    TracksCerts bank p' := by
  obtain ⟨t, tracked, c, ht, hfinal, rfl, -⟩ := insertCertificate_cases hins
  have htracks := tracks_of_track ht
  refine ⟨htracks.root.trans h.root, htracks.nodup h.nodup, fun s => ?_,
    fun ct block hct hb hlt => ?_, fun hc hhc => ?_⟩
  · rcases htracks.notarFallbacks s with hsame | ⟨-, -, -, -, -, hlen⟩
    · simp only [hsame]
      exact h.length_le s
    · exact hlen
  · rcases contains_insert.1 hct with rfl | hct
    · exact htracks.mem block hb (htracks.root ▸ hlt)
    · have hmem := h.mem ct block hct hb (htracks.root ▸ hlt)
      rcases htracks.notarFallbacks block.1 with hsame | ⟨b, -, -, -, happ, -⟩
      · simp only [hsame]
        exact hmem
      · simp only [happ]
        exact List.mem_append_left _ hmem
  · have hstored := certType_eq_insert hinv.certType_eq heq
    rcases finalization_spec hstored heq hfinal with ⟨rfl, -⟩ | ⟨-, -, ⟨hc', rfl, hslot, -⟩, -⟩
    · exact h.highest hc hhc
    · cases hhc
      exact hle.trans_eq hslot.symm

lemma TracksCerts.maybePrune (h : TracksCerts bank p) {rootSlot : ℕ} (hle : bank.slot ≤ rootSlot) :
    TracksCerts bank (p.maybePrune rootSlot) := by
  rcases p.maybePrune_cases rootSlot with heq | ⟨hlt, hlast, hroot⟩
  · exact heq.symm ▸ h
  have hstatus := status_maybePrune hlt
  refine ⟨by rw [hroot, hlast, Nat.max_eq_right hle], fun s => ?_, fun s => ?_,
    fun ct block hct hb hlt' => ?_, fun hc hhc => ?_⟩
  · rw [hstatus]
    split_ifs
    · exact h.nodup s
    · exact List.nodup_nil
  · rw [hstatus]
    split_ifs
    · exact h.length_le s
    · exact Nat.zero_le _
  · rw [hroot] at hlt'
    rw [hstatus, if_pos hlt'.le]
    refine h.mem ct block ((contains_maybePrune hlt).1 hct).2 hb ?_
    rw [h.root]
    omega
  · rw [highestFinalizedSlotCert_maybePrune] at hhc
    exact h.highest hc hhc

/-! ## Runs -/

lemma newFinalizedSlot_self (h : Option ℕ) : newFinalizedSlot h h = none := by
  cases h with
  | none => rfl
  | some s => simp [newFinalizedSlot]

lemma newFinalizedSlot_eq_some {before after : Option ℕ} :
    newFinalizedSlot before after = some s ↔ after = some s ∧ ∀ s0, before = some s0 → s0 < s := by
  unfold newFinalizedSlot
  cases before <;> cases after <;> simp
  constructor
  · rintro ⟨hlt, rfl⟩
    exact ⟨rfl, hlt⟩
  · rintro ⟨rfl, hlt⟩
    exact ⟨hlt, rfl⟩

theorem FinalInv.step [SignerStore]
    {op : PoolOp} {trace : List (PoolOp × PoolReply)} (h : FinalInv stakes p)
    (hl : HoldsBallots stakes l p) (hs : step stakes p op = .ok (p', trace)) :
    FinalInv stakes p' ∧ FinalUp p.highestFinalizedSlotCert p'.highestFinalizedSlotCert
      ∧ ∃ reply, trace = [(op, reply)]
        ∧ (∀ e, reply.result = .error e → p' = p)
        ∧ ∀ s certs, reply.result = .ok (s, certs) →
          s = newFinalizedSlot p.highestFinalizedSlot p'.highestFinalizedSlot := by
  cases op with
  | maybePrune rootSlot =>
    cases hs
    have hhigh := @highestFinalizedSlotCert_maybePrune p rootSlot
    refine ⟨h.maybePrune rootSlot, by rw [hhigh]; exact FinalUp.refl _, _, rfl, nofun,
      fun s certs hok => ?_⟩
    cases hok
    rw [highestFinalizedSlot, highestFinalizedSlot, hhigh, newFinalizedSlot_self]
  | addMessage rootBank me message =>
    obtain ⟨⟨q, reply⟩, hm, hs⟩ := Except.bind_eq_ok.1 hs
    cases hs
    obtain ⟨⟨hinv, hup⟩, herr, hok⟩ := addMessage_certificates (P := fun q =>
        FinalInv stakes q ∧ FinalUp p.highestFinalizedSlotCert q.highestFinalizedSlotCert) hl
      (fun q pools counters hq => ⟨{ hq.1 with }, hq.2⟩)
      (fun q q' ct cert ev hq hnew heq _ hins => by
        obtain ⟨h1, h2⟩ := hq.1.insertCertificate hnew heq hins
        exact ⟨h1, hq.2.trans h2⟩)
      ⟨h, FinalUp.refl _⟩ hm
    exact ⟨hinv, hup, reply, rfl, herr, hok⟩

theorem TracksCerts.step [SignerStore]
    {op : PoolOp} {trace : List (PoolOp × PoolReply)} (h : TracksCerts bank p)
    (hinv : FinalInv stakes p) (hl : HoldsBallots stakes l p) (hle : bank.slot ≤ op.rootSlot)
    (hs : step stakes p op = .ok (p', trace)) :
    TracksCerts bank p' := by
  cases op with
  | maybePrune rootSlot =>
    cases hs
    exact h.maybePrune hle
  | addMessage rootBank me message =>
    obtain ⟨⟨q, reply⟩, hm, hs⟩ := Except.bind_eq_ok.1 hs
    cases hs
    exact (addMessage_certificates (P := fun q => FinalInv stakes q ∧ TracksCerts bank q) hl
      (fun q pools counters hq => ⟨{ hq.1 with }, { hq.2 with }⟩)
      (fun q q' ct cert ev hq hnew heq hroot hins => ⟨(hq.1.insertCertificate hnew heq hins).1,
        hq.2.insertCertificate hq.1 heq (hle.trans hroot) hins⟩)
      ⟨hinv, h⟩ hm).1.2

/-! ## Standstill -/

def Selected (p : ConsensusPool) (ct : CertificateType) : Prop :=
  let (slot, fast) := (p.highestFinalizedSlotCert.map fun c => (c.slot, c.isFast)).getD (0, false)
  certForStandstill slot fast ct = .ok true

lemma selected_iff {hc : ValidatedBlockFinalizationCert}
    (hhc : p.highestFinalizedSlotCert = some hc) :
    p.Selected ct ↔ certForStandstill hc.slot hc.isFast ct = .ok true := by
  simp [Selected, hhc]

lemma certForStandstill_of_lt {highest : ℕ} {fast : Bool} (h : ct.slot < highest) :
    certForStandstill highest fast ct = .ok false := by
  unfold certForStandstill
  rw [if_neg h.asymm, if_neg h.ne]

/-- The only fast certificates that are sent are those of a fast highest finalization. -/
lemma FinalInv.fast_of_selected [SignerStore] (h : FinalInv stakes p) {b : Hash}
    (hb : p.completedCertificates.contains (.finalizeFast s b))
    (hsel : p.Selected (.finalizeFast s b)) :
    ∃ hc, p.highestFinalizedSlotCert = some hc ∧ hc.slot = s ∧ hc.isFast = true := by
  obtain ⟨hc, hhc, hlt | ⟨heq, hf⟩⟩ := h.fast s b hb
  · rw [selected_iff hhc, certForStandstill_of_lt hlt] at hsel
    cases hsel
  · exact ⟨hc, hhc, heq.symm, hf rfl⟩

/-- Both certificates of a slow finalization are sent only if it is the highest. -/
lemma FinalInv.slow_of_selected [SignerStore] (h : FinalInv stakes p) {b : Hash}
    (hs : p.completedCertificates.contains (.finalize s))
    (hb : p.completedCertificates.contains (.notarize s b))
    (hct : ct = .finalize s ∨ ct = .notarize s b) (hsel : p.Selected ct) :
    ∃ hc, p.highestFinalizedSlotCert = some hc ∧ hc.slot = s ∧ hc.isFast = false := by
  have hslot : ct.slot = s := by rcases hct with rfl | rfl <;> rfl
  obtain ⟨hc, hhc, hlt | ⟨rfl, -⟩⟩ := h.slow s b hs hb
  · rw [selected_iff hhc, certForStandstill_of_lt (hslot.trans_lt hlt)] at hsel
    cases hsel
  · refine ⟨hc, hhc, rfl, ?_⟩
    rw [selected_iff hhc] at hsel
    cases hf : hc.isFast with
    | false => rfl
    | true => rcases hct with rfl | rfl <;> simp [hf, certForStandstill, slot] at hsel

theorem FinalInv.getCertsForStandstill [SignerStore] (h : FinalInv stakes p) :
    ∃ certs, p.getCertsForStandstill = .ok certs
      ∧ ∀ c, c ∈ certs ↔ p.completedCertificates.get? c.certType = some c
        ∧ p.Selected c.certType := by
  set flags := (p.highestFinalizedSlotCert.map fun c => (c.slot, c.isFast)).getD (0, false)
    with hflags
  have hsel : ∀ ct, p.Selected ct ↔ certForStandstill flags.1 flags.2 ct = .ok true :=
    fun ct => Iff.rfl
  have htest : ∀ e ∈ p.completedCertificates.entries, certForStandstill flags.1 flags.2 e.1
      = .ok ((certForStandstill flags.1 flags.2 e.1).toOption.getD false) := by
    rintro ⟨ct, c⟩ hmem
    have hcontains : p.completedCertificates.contains ct :=
      isSome_of_eq_some (mem_entries.1 hmem)
    cases htest : certForStandstill flags.1 flags.2 ct with
    | ok b => rfl
    | error e =>
      -- the panic is for a fast certificate of the highest slot, if that is not fast
      unfold certForStandstill at htest
      split_ifs at htest with hlt heq
      split at htest <;> try cases htest
      rename_i s b hfast
      obtain ⟨hc, hhc, hle⟩ := h.fast s b hcontains
      simp only [hhc, map_some, getD_some] at hflags
      rw [hflags] at hlt heq hfast
      simp only [slot] at hlt heq hfast
      rcases hle with hle | ⟨-, hf⟩
      · omega
      · rw [hf rfl] at hfast
        cases hfast
  refine ⟨(p.completedCertificates.entries.filter fun e =>
    (certForStandstill flags.1 flags.2 e.1).toOption.getD false).map (·.2), ?_, fun c => ?_⟩
  · show (p.completedCertificates.entries.filterM (fun e =>
      certForStandstill flags.1 flags.2 e.1) >>= _) = _
    rw [filterM_eq htest]
    rfl
  · simp only [List.mem_map, List.mem_filter, Prod.exists, exists_eq_right, mem_entries, hsel]
    constructor
    · rintro ⟨ct, hget, htrue⟩
      obtain rfl := h.certType_eq ct c hget
      have hok := htest _ (mem_entries.2 hget)
      rw [htrue] at hok
      exact ⟨hget, hok⟩
    · rintro ⟨hget, htrue⟩
      exact ⟨_, hget, by rw [htrue]; rfl⟩

/-- A pool at the root of `p` that has been given some of its certificates for a standstill. -/
structure Fed [SignerStore]
    (stakes : ℕ → EpochStakes) (p : ConsensusPool) (rootSlot : ℕ) (q : ConsensusPool) :
    Prop where
  inv : FinalInv stakes q
  sub : ∀ ct c, q.completedCertificates.get? ct = some c →
    p.completedCertificates.get? ct = some c ∧ p.Selected ct
  root : q.parentReadyTracker.root = rootSlot
  nodup : ∀ s, (q.parentReadyTracker.status s).notarFallbacks.Nodup
  blocks : ∀ s, ∀ b ∈ (q.parentReadyTracker.status s).notarFallbacks, s ≤ rootSlot
    ∨ b.1 = s ∧ ∃ ct, p.completedCertificates.contains ct ∧ ct.toBlock = some b
  notPruned : q.lastPrunedSlot = 0

lemma fed_new [SignerStore]
    (p : ConsensusPool) : Fed stakes p rootBank.slot (newFromRootBank rootBank) := by
  refine ⟨finalInv_new rootBank, nofun, rfl, (trackerInv_new _).nodup, fun s b hb => .inl ?_, rfl⟩
  unfold newFromRootBank ParentReadyTracker.new status at hb
  simp only [get?_insert, get?_empty] at hb
  split_ifs at hb with hs hs'
  · cases hb
  · exact hs'.ge
  · cases hb

/-- What a fresh pool needs to know to take up the work of `p`: its root is that of `p`, the highest
finalization has not been pruned, and the stakes of its epoch are known. -/
structure TakesUp (bank rootBank : RootBank) (p : ConsensusPool) : Prop where
  slot_eq : rootBank.slot = max bank.slot p.lastPrunedSlot
  notPruned : ∀ slot, p.highestFinalizedSlot = some slot → p.lastPrunedSlot ≤ slot
  hasEpochStakes : ∀ slot, p.highestFinalizedSlot = some slot → rootBank.hasEpochStakes slot

namespace Fed

variable [SignerStore] (h : Fed stakes p rootBank.slot q) (hp : FinalInv stakes p)
  (htracks : TracksCerts bank p) (htake : TakesUp bank rootBank p)
include h htake

include hp in
lemma exists_signers (hget : p.completedCertificates.get? cert.certType = some cert)
    (hsel : p.Selected cert.certType) :
    ∀ sc, let q' : ConsensusPool := { q with
        completedCertificates := q.completedCertificates.insert cert.certType cert }
      (q'.finalizes cert.certType).isSome → q'.signed cert cert.certType = some sc →
      ∃ signers, extractSigners stakes rootBank sc = .ok signers := by
  intro sc q' hfin hsc
  have hsub : ∀ {ct c}, q'.completedCertificates.get? ct = some c →
      p.completedCertificates.get? ct = some c := by
    intro ct c hc
    simp only [q', get?_insert] at hc
    split_ifs at hc with hct
    · cases hc
      exact hct ▸ hget
    · exact (h.sub ct c hc).1
  have hcontains : ∀ {ct}, q'.completedCertificates.contains ct →
      p.completedCertificates.contains ct := by
    intro ct hct
    obtain ⟨c, hc⟩ := isSome_iff_exists.1 hct
    exact isSome_of_eq_some (hsub hc)
  have hself : p.completedCertificates.contains cert.certType := isSome_of_eq_some hget
  have hextract : ∀ {hc : ValidatedBlockFinalizationCert} {c},
      p.highestFinalizedSlotCert = some hc → c.certType.slot = hc.slot → c.HasSigners stakes →
      ∃ signers, extractSigners stakes rootBank c = .ok signers := by
    intro hc c hhc hslot hsign
    refine exists_extractSigners hsign (htake.hasEpochStakes _ ?_)
    rw [highestFinalizedSlot, hhc, hslot]
    rfl
  have hpruned : ∀ {hc}, p.highestFinalizedSlotCert = some hc → p.lastPrunedSlot ≤ hc.slot := by
    intro hc hhc
    exact htake.notPruned _ (by rw [highestFinalizedSlot, hhc]; rfl)
  rcases (finalizes_isSome (certType_eq_insert h.inv.certType_eq rfl)).1 hfin with
    ⟨s, b, hct⟩ | ⟨s, b, hct, hs⟩ | ⟨s, b, hct, hb⟩
  · rw [hct] at hself hsel hget hsc
    cases hsc
    obtain ⟨hc, hhc, rfl, hf⟩ := hp.fast_of_selected hself hsel
    exact hextract hhc (by rw [hct]; rfl) ((hp.kept_fast hc hhc (hpruned hhc) hf).2 b _ hget)
  · rw [hct] at hself hsel hsc
    obtain ⟨hc, hhc, rfl, hf⟩ := hp.slow_of_selected (hcontains hs) hself (.inr rfl) hsel
    obtain ⟨-, c, hc', hsign⟩ := hp.kept_slow hc hhc (hpruned hhc) hf
    obtain rfl := some.inj (hc'.symm.trans (hsub hsc))
    exact hextract hhc (by rw [hp.certType_eq _ _ hc']; rfl) hsign
  · rw [hct] at hself hsel hsc hget
    cases hsc
    obtain ⟨hc, hhc, rfl, hf⟩ := hp.slow_of_selected hself (hcontains hb) (.inl rfl) hsel
    obtain ⟨-, c, hc', hsign⟩ := hp.kept_slow hc hhc (hpruned hhc) hf
    obtain rfl := some.inj (hc'.symm.trans hget)
    exact hextract hhc (by rw [hct]; rfl) hsign

include htracks in
lemma track_returns (hcontains : p.completedCertificates.contains certType) :
    ∃ r, track q.parentReadyTracker certType = .ok r := by
  refine exists_track fun block hb =>
    exists_addNewNotarFallbackOrStronger (h.nodup _) ?_
  intro hlt bs hnd hbs
  rw [h.root, htake.slot_eq, ← htracks.root] at hlt
  have hsub : bs ⊆ (p.parentReadyTracker.status block.1).notarFallbacks := by
    intro b hb'
    rcases hbs b hb' with rfl | hmem
    · exact htracks.mem certType b hcontains hb hlt
    rcases h.blocks _ b hmem with hle | ⟨hslot, ct, hct, hblock⟩
    · rw [htake.slot_eq, ← htracks.root] at hle
      omega
    · rw [← hslot] at hlt ⊢
      exact htracks.mem ct b hct hblock hlt
  exact (hnd.subperm hsub).length_le.trans (htracks.length_le _)

include hp htracks

theorem addCertificate (hget : p.completedCertificates.get? cert.certType = some cert)
    (hsel : p.Selected cert.certType) :
    ∃ q' ev res, addCertificate stakes rootBank cert q = .ok (q', ev, res)
      ∧ Fed stakes p rootBank.slot q'
      ∧ (∀ ct, q.completedCertificates.contains ct → q'.completedCertificates.contains ct)
      ∧ (rootBank.slot ≤ cert.certType.slot → q'.completedCertificates.contains cert.certType) := by
  unfold ConsensusPool.addCertificate
  split_ifs with hroot hcontains
  · exact ⟨q, _, _, rfl, h, fun _ hct => hct, fun hle => absurd hroot (Nat.not_lt.2 hle)⟩
  · exact ⟨q, _, _, rfl, h, fun _ hct => hct, fun _ => hcontains⟩
  have hself : p.completedCertificates.contains cert.certType := isSome_of_eq_some hget
  obtain ⟨⟨q', ev⟩, hins⟩ := exists_insertCertificate
    (certType_eq_insert h.inv.certType_eq rfl) (h.exists_signers hp htake hget hsel)
    (h.track_returns htracks htake hself)
  refine ⟨q', ev, .ok [cert], by rw [hins]; rfl, ?_⟩
  obtain ⟨hinv, -⟩ := h.inv.insertCertificate hcontains rfl hins
  obtain ⟨t, tracked, c, ht, -, rfl, -⟩ := insertCertificate_cases hins
  have htr := tracks_of_track ht
  refine ⟨⟨hinv, fun ct c hc => ?_, htr.root.trans h.root, htr.nodup h.nodup,
    htr.forall_mem h.blocks fun block hb => .inr ⟨rfl, _, hself, hb⟩, h.notPruned⟩,
    fun ct hct => contains_insert.2 (.inr hct), fun _ => contains_insert.2 (.inl rfl)⟩
  simp only [get?_insert] at hc
  split_ifs at hc with hct
  · cases hc
    exact hct ▸ ⟨hget, hsel⟩
  · exact h.sub ct c hc

theorem highest_eq
    (hall : ∀ ct, p.completedCertificates.contains ct → p.Selected ct → rootBank.slot ≤ ct.slot →
      q.completedCertificates.contains ct) :
    q.highestFinalizedSlotCert.map (fun c => (c.slot, c.isFast))
      = p.highestFinalizedSlotCert.map fun c => (c.slot, c.isFast) := by
  have hsub : ∀ {ct}, q.completedCertificates.contains ct →
      p.completedCertificates.contains ct ∧ p.Selected ct := by
    intro ct hct
    obtain ⟨c, hc⟩ := isSome_iff_exists.1 hct
    obtain ⟨hget, hsel⟩ := h.sub ct c hc
    exact ⟨isSome_of_eq_some hget, hsel⟩
  cases hq : q.highestFinalizedSlotCert with
  | some hcq =>
    have hle : q.lastPrunedSlot ≤ hcq.slot := h.notPruned.trans_le (Nat.zero_le _)
    cases hf : hcq.isFast with
    | true =>
      obtain ⟨⟨b, hb⟩, -⟩ := h.inv.kept_fast hcq hq hle hf
      obtain ⟨hb', hsel⟩ := hsub hb
      obtain ⟨hc, hhc, hslot, hfast⟩ := hp.fast_of_selected hb' hsel
      rw [hhc, map_some, map_some, hslot, hfast, hf]
    | false =>
      obtain ⟨⟨b, hb⟩, c, hc, -⟩ := h.inv.kept_slow hcq hq hle hf
      obtain ⟨hb', hsel⟩ := hsub hb
      obtain ⟨hs', -⟩ := @hsub (.finalize hcq.slot) (isSome_of_eq_some hc)
      obtain ⟨hc, hhc, hslot, hfast⟩ := hp.slow_of_selected hs' hb' (.inr rfl) hsel
      rw [hhc, map_some, map_some, hslot, hfast, hf]
  | none =>
    cases hhc : p.highestFinalizedSlotCert with
    | none => rfl
    | some hc =>
      -- what finalized the slot in `p` has arrived, so the fresh pool has recorded something
      have hslot : p.highestFinalizedSlot = some hc.slot := by rw [highestFinalizedSlot, hhc]; rfl
      have hpruned := htake.notPruned _ hslot
      have hroot : rootBank.slot ≤ hc.slot := by
        rw [htake.slot_eq]
        exact Nat.max_le.2 ⟨htracks.highest hc hhc, hpruned⟩
      have hsel : ∀ {ct}, ct.slot = hc.slot → certForStandstill hc.slot hc.isFast ct = .ok true →
          p.completedCertificates.contains ct → q.completedCertificates.contains ct := by
        intro ct hct htrue hcontains
        exact hall ct hcontains ((selected_iff hhc).2 htrue) (hct ▸ hroot)
      cases hf : hc.isFast with
      | true =>
        obtain ⟨⟨b, hb⟩, -⟩ := hp.kept_fast hc hhc hpruned hf
        obtain ⟨_, hnone, -⟩ := h.inv.fast hc.slot b (hsel rfl (by
          simp [certForStandstill, slot, hf]) hb)
        cases hq.symm.trans hnone
      | false =>
        obtain ⟨⟨b, hb⟩, c, hc', -⟩ := hp.kept_slow hc hhc hpruned hf
        have hs : q.completedCertificates.contains (.finalize hc.slot) := hsel rfl (by
          simp [certForStandstill, slot, hf]) (isSome_of_eq_some hc')
        have hn : q.completedCertificates.contains (.notarize hc.slot b) := hsel rfl (by
          simp [certForStandstill, slot, hf]) hb
        obtain ⟨_, hnone, -⟩ := h.inv.slow hc.slot b hs hn
        cases hq.symm.trans hnone

theorem run (me : Pubkey) {certs : List Certificate}
    (hcerts : ∀ c ∈ certs, p.completedCertificates.get? c.certType = some c
      ∧ p.Selected c.certType) :
    ∃ q' trace, BlackBull.run (step stakes) q
        (certs.map fun c => .addMessage rootBank me (.certificate c)) = .ok (q', trace)
      ∧ Fed stakes p rootBank.slot q'
      ∧ (∀ ct, q.completedCertificates.contains ct → q'.completedCertificates.contains ct)
      ∧ ∀ c ∈ certs, rootBank.slot ≤ c.certType.slot →
        q'.completedCertificates.contains c.certType := by
  induction certs generalizing q with
  | nil => exact ⟨q, [], rfl, h, fun _ hct => hct, nofun⟩
  | cons c certs ih =>
    obtain ⟨⟨hget, hsel⟩, hcerts⟩ := List.forall_mem_cons.1 hcerts
    obtain ⟨q1, ev, res, hadd, h1, hmono, hc⟩ := h.addCertificate hp htracks htake hget hsel
    obtain ⟨q', trace, hrun, h', hmono', hall⟩ := ih h1 hcerts
    exact ⟨q', _, run_cons_ok.2 ⟨q1, _, trace, step_addMessage (.certificate c) hadd, hrun, rfl⟩, h',
      fun ct hct => hmono' ct (hmono ct hct),
      List.forall_mem_cons.2 ⟨fun hle => hmono' _ (hc hle), hall⟩⟩

end Fed

def Raised (p p' : ConsensusPool) : Prop :=
  ∃ slot, p'.highestFinalizedSlot = some slot ∧ ∀ s, p.highestFinalizedSlot = some s → s < slot

/-- In every run, a call leaves the highest finalized slot or raises it, and returns it just if it
raises it; a slow finalization is not recorded over a fast one of its slot. The certificates for a
standstill are found without a panic, and bring a fresh pool at the same root, in any order, to the
same highest finalized slot, finalized in the same way. The pool's root is that of the bank it was
made from, until it is pruned to a later one; its calls come with no earlier root. -/
theorem standstill_recovers [SignerStore] {ops : List PoolOp} {trace : List (PoolOp × PoolReply)}
    (hrun : run (step stakes) (newFromRootBank bank) ops = .ok (p, trace)) :
    (∀ op p' reply, step stakes p op = .ok (p', [(op, reply)]) →
      FinalUp p.highestFinalizedSlotCert p'.highestFinalizedSlotCert
      ∧ (∀ slot certs, reply.result = .ok (slot, certs) →
        (slot.isSome ↔ Raised p p') ∧ ∀ s, slot = some s → p'.highestFinalizedSlot = some s)
      ∧ ∀ e, reply.result = .error e → p' = p)
    ∧ ∃ certs, p.getCertsForStandstill = .ok certs
      ∧ ((∀ op ∈ ops, bank.slot ≤ op.rootSlot) → ∀ rootBank, TakesUp bank rootBank p →
        ∀ (me : Pubkey) (order : List Certificate), order.Perm certs → ∃ q trace',
          run (step stakes) (newFromRootBank rootBank)
            (order.map fun c => .addMessage rootBank me (.certificate c)) = .ok (q, trace')
          ∧ q.highestFinalizedSlot = p.highestFinalizedSlot
          ∧ q.highestFinalizedSlotCert.map (·.isFast)
            = p.highestFinalizedSlotCert.map (·.isFast)) := by
  obtain ⟨⟨l, hl⟩, hinv, htracks⟩ := run_induction (P := fun ops _ p =>
      (∃ l, HoldsBallots stakes l p) ∧ FinalInv stakes p
        ∧ ((∀ op ∈ ops, bank.slot ≤ op.rootSlot) → TracksCerts bank p))
    ⟨⟨[], holdsBallots_new bank⟩, finalInv_new bank, fun _ => tracksCerts_new bank⟩
    (fun _ _ p op p' _ ⟨⟨l, hl⟩, hinv, htracks⟩ _ hs =>
      ⟨holdsBallots_step ⟨l, hl⟩ hs, (hinv.step hl hs).1, fun hroots =>
        (htracks fun op hop => hroots op (List.mem_append_left _ hop)).step hinv hl
          (hroots op List.mem_concat_self) hs⟩)
    (guarded_of_mem (Q := fun _ => True) (fun _ _ => trivial) _) hrun
  refine ⟨fun op p' reply hs => ?_, ?_⟩
  · obtain ⟨-, hup, reply', heq, herr, hok⟩ := hinv.step hl hs
    obtain rfl : reply = reply' := by simpa using heq
    refine ⟨hup, fun slot certs hres => ?_, herr⟩
    rw [hok slot certs hres]
    refine ⟨?_, fun s hs => (newFinalizedSlot_eq_some.1 hs).1⟩
    rw [isSome_iff_exists]
    exact exists_congr fun s => newFinalizedSlot_eq_some
  obtain ⟨certs, hcerts, hmem⟩ := hinv.getCertsForStandstill
  refine ⟨certs, hcerts, fun hroots rootBank htake me order hperm => ?_⟩
  obtain ⟨q, trace', hrun', hfed, -, hall⟩ := (fed_new p).run hinv (htracks hroots) htake me
    fun c hc => (hmem c).1 (hperm.mem_iff.1 hc)
  have hsame := hfed.highest_eq hinv (htracks hroots) htake fun ct hct hsel hle => by
    obtain ⟨c, hc⟩ := isSome_iff_exists.1 hct
    obtain rfl := hinv.certType_eq ct c hc
    exact hall c (hperm.mem_iff.2 ((hmem c).2 ⟨hc, hsel⟩)) hle
  refine ⟨q, trace', hrun', ?_, ?_⟩
  · have hslot := congrArg (Option.map Prod.fst) hsame
    rwa [Option.map_map, Option.map_map] at hslot
  · have hfast := congrArg (Option.map Prod.snd) hsame
    rwa [Option.map_map, Option.map_map] at hfast

open PlainStore

/-- A fast finalization, a slow one above it and a skipped slot. -/
def slowOps : List PoolOp :=
  receive [⟨.notarize 2 8, 0⟩, ⟨.notarize 2 8, 1⟩, ⟨.finalize 3, 0⟩, ⟨.notarize 3 9, 0⟩,
    ⟨.finalize 3, 2⟩, ⟨.notarize 3 9, 2⟩, ⟨.skip 4, 0⟩, ⟨.skip 4, 2⟩] ++ [.maybePrune 2]

/-- The certificates arrive in the opposite order. -/
theorem standstill_recovers_slow : ∃ p trace certs q trace',
    run (step fun _ => threeStakes) (newFromRootBank rootBankZero) slowOps = .ok (p, trace)
    ∧ p.getCertsForStandstill = .ok certs
    ∧ run (step fun _ => threeStakes) (newFromRootBank ⟨2, some 8, fun _ => true⟩)
      (certs.reverse.map fun c => .addMessage ⟨2, some 8, fun _ => true⟩ 9 (.certificate c))
      = .ok (q, trace')
    ∧ q.highestFinalizedSlot = some 3 ∧ q.highestFinalizedSlotCert.map (·.isFast) = some false := by
  obtain ⟨⟨p, trace⟩, hrun, hp⟩ := Except.exists_of_any
    (x := run (step fun _ => threeStakes) (newFromRootBank rootBankZero) slowOps)
    (p := fun r => r.1.lastPrunedSlot = 2 ∧ r.1.highestFinalizedSlot = some 3
      ∧ r.1.highestFinalizedSlotCert.map (·.isFast) = some false) (by decide +kernel)
  obtain ⟨hpruned, hslot, hfast⟩ := hp
  obtain ⟨-, certs, hcerts, hrec⟩ := standstill_recovers hrun
  have htake : TakesUp rootBankZero ⟨2, some 8, fun _ => true⟩ p := by
    refine ⟨by rw [hpruned]; rfl, fun s hs => ?_, fun _ _ => rfl⟩
    cases hslot.symm.trans hs
    rw [hpruned]
    decide
  obtain ⟨q, trace', hrun', hslot', hfast'⟩ := hrec (by decide) _ htake 9 certs.reverse
    certs.reverse_perm
  exact ⟨p, trace, certs, q, trace', hrun, hcerts, hrun', hslot'.trans hslot, hfast'.trans hfast⟩

end ConsensusPool

end BlackBull
