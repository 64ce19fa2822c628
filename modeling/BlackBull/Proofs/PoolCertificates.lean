import BlackBull.Votor.ConsensusPool

/-!
# What inserting a certificate does

Inserting a certificate keeps it, tells the parent-ready tracker, records a finalization and pushes
its events.
-/

namespace BlackBull

open CertificateType

namespace ConsensusPool

/-- What the tracker learns from a certificate. -/
def track (t : ParentReadyTracker) :
    CertificateType → Except VotorPanic (ParentReadyTracker × List VotorEvent)
  | .notarize slot b | .notarizeFallback slot b | .finalizeFast slot b | .genesis slot b =>
    t.addNewNotarFallbackOrStronger (slot, b)
  | .skip slot => .ok (t.addNewSkip slot)
  | .finalize _ => .ok (t, [])

/-- The highest finalization once a certificate is there. -/
def finalization [SignerStore] (stakes : ℕ → EpochStakes) (rootBank : RootBank) (cert : Certificate)
    (p : ConsensusPool) :
    CertificateType → Except VotorPanic (Option ValidatedBlockFinalizationCert)
  | .notarize slot _ =>
    match p.getFinalizeCert slot with
    | none => .ok p.highestFinalizedSlotCert
    | some finalizeCert => slow slot finalizeCert cert
  | .finalize slot =>
    match p.getNotarizeCert slot with
    | none => .ok p.highestFinalizedSlotCert
    | some notarizeCert =>
      if notarizeCert.certType.toBlock.isSome then slow slot cert notarizeCert
      else .error .blockId
  | .finalizeFast slot _ => fast slot
  | _ => .ok p.highestFinalizedSlotCert
where
  slow (slot : ℕ) (finalizeCert notarizeCert : Certificate) :
      Except VotorPanic (Option ValidatedBlockFinalizationCert) :=
    if p.highestFinalizedSlot.all (· < slot) then
      (extractSigners stakes rootBank finalizeCert).map fun signers =>
        some (.finalize finalizeCert notarizeCert signers)
    else .ok p.highestFinalizedSlotCert
  fast (slot : ℕ) : Except VotorPanic (Option ValidatedBlockFinalizationCert) :=
    if p.highestFinalizedSlot.all (· ≤ slot) then
      (extractSigners stakes rootBank cert).map fun signers => some (.fastFinalize cert signers)
    else .ok p.highestFinalizedSlotCert

/-- The block that a certificate finalizes, with those there. -/
def finalizes (p : ConsensusPool) : CertificateType → Option Block
  | .notarize slot b => if (p.getFinalizeCert slot).isSome then some (slot, b) else none
  | .finalize slot => (p.getNotarizeCert slot).bind fun c =>
    c.certType.toBlock.map fun b => (slot, b.2)
  | .finalizeFast slot b => some (slot, b)
  | _ => none

/-- The events of a certificate, with those of the tracker. -/
def certEvents (p : ConsensusPool) (tracked : List VotorEvent) (certType : CertificateType) :
    List VotorEvent :=
  match certType with
  | .notarizeFallback slot b => .blockNotarFallback (slot, b) :: tracked
  | .notarize slot b => .blockNotarized (slot, b) :: tracked ++ finalized false
  | .finalizeFast _ _ => finalized true ++ tracked
  | .finalize _ => tracked ++ finalized false
  | .skip _ | .genesis _ _ => tracked
where
  finalized (fast : Bool) : List VotorEvent :=
    (p.finalizes certType).toList.map fun block => .finalized block fast

variable {stakes : ℕ → EpochStakes} {rootBank : RootBank} {certType : CertificateType}
  {cert : Certificate} {p p' : ConsensusPool} {ev : List VotorEvent} {slot : ℕ}

theorem insertCertificate_eq [SignerStore] : insertCertificate stakes rootBank certType cert p = (do
    let q : ConsensusPool :=
      { p with completedCertificates := p.completedCertificates.insert certType cert }
    let (t, tracked) ← track p.parentReadyTracker certType
    let c ← finalization stakes rootBank cert q certType
    .ok ({ q with parentReadyTracker := t, highestFinalizedSlotCert := c },
      certEvents q tracked certType)) := by
  have slow : ∀ {q : ConsensusPool} {t slot fc nc}, setSlowFinalization stakes rootBank slot fc nc
      { q with parentReadyTracker := t } = (finalization.slow stakes rootBank q slot fc nc).map
        fun c => { q with parentReadyTracker := t, highestFinalizedSlotCert := c } := by
    intro q t slot fc nc
    unfold setSlowFinalization finalization.slow highestFinalizedSlot
    split_ifs
    · cases extractSigners stakes rootBank fc <;> rfl
    · rfl
  have fast : ∀ {q : ConsensusPool} {t slot}, setFastFinalization stakes rootBank slot cert
      { q with parentReadyTracker := t } = (finalization.fast stakes rootBank cert q slot).map
        fun c => { q with parentReadyTracker := t, highestFinalizedSlotCert := c } := by
    intro q t slot
    unfold setFastFinalization finalization.fast highestFinalizedSlot
    split_ifs
    · cases extractSigners stakes rootBank cert <;> rfl
    · rfl
  unfold insertCertificate
  set q : ConsensusPool :=
    { p with completedCertificates := p.completedCertificates.insert certType cert } with hq
  have hqt : q.parentReadyTracker = p.parentReadyTracker := rfl
  simp only [trackNotarFallbackOrStronger]
  cases certType with
  | skip slot => rfl
  | notarizeFallback slot b | genesis slot b =>
    simp only [track]
    cases p.parentReadyTracker.addNewNotarFallbackOrStronger (slot, b) <;> rfl
  | notarize slot b =>
    simp only [track]
    cases p.parentReadyTracker.addNewNotarFallbackOrStronger (slot, b) with
    | error e => rfl
    | ok r =>
      have hfc : getFinalizeCert { q with parentReadyTracker := r.1 } slot
        = q.getFinalizeCert slot := rfl
      simp only [bind, Except.bind, hfc, finalization, certEvents, certEvents.finalized, finalizes]
      cases q.getFinalizeCert slot with
      | none => simp
      | some fc =>
        simp only [slow]
        cases finalization.slow stakes rootBank q slot fc cert <;> rfl
  | finalize slot =>
    simp only [track, bind, Except.bind, finalization, certEvents, certEvents.finalized, finalizes]
    cases q.getNotarizeCert slot with
    | none => rfl
    | some nc =>
      cases hb : nc.certType.toBlock with
      | none => simp [hb]
      | some block =>
        have := @slow q q.parentReadyTracker slot cert nc
        simp only [this]
        cases finalization.slow stakes rootBank q slot cert nc <;> simp [Except.map, hb, hqt]
  | finalizeFast slot b =>
    simp only [track]
    cases p.parentReadyTracker.addNewNotarFallbackOrStronger (slot, b) with
    | error e => rfl
    | ok r =>
      simp only [bind, Except.bind, fast, finalization]
      cases finalization.fast stakes rootBank cert q slot <;> rfl

theorem insertCertificate_cases [SignerStore]
    (h : insertCertificate stakes rootBank certType cert p = .ok (p', ev)) :
    ∃ t tracked c, track p.parentReadyTracker certType = .ok (t, tracked)
      ∧ finalization stakes rootBank cert
        { p with completedCertificates := p.completedCertificates.insert certType cert } certType
          = .ok c
      ∧ p' = { p with
        completedCertificates := p.completedCertificates.insert certType cert
        parentReadyTracker := t
        highestFinalizedSlotCert := c }
      ∧ ev = certEvents
        { p with completedCertificates := p.completedCertificates.insert certType cert }
        tracked certType := by
  rw [insertCertificate_eq] at h
  obtain ⟨⟨t, tracked⟩, ht, h⟩ := Except.bind_eq_ok.1 h
  obtain ⟨c, hc, h⟩ := Except.bind_eq_ok.1 h
  cases h
  exact ⟨t, tracked, c, ht, hc, rfl, rfl⟩

def isFastFinalization : CertificateType → Bool
  | .finalizeFast _ _ => true
  | _ => false

lemma mem_certEvents {tracked : List VotorEvent} {e : VotorEvent} :
    e ∈ certEvents p tracked certType ↔ e ∈ tracked
      ∨ (∃ slot b, certType = .notarizeFallback slot b ∧ e = .blockNotarFallback (slot, b))
      ∨ (∃ slot b, certType = .notarize slot b ∧ e = .blockNotarized (slot, b))
      ∨ ∃ block, p.finalizes certType = some block
        ∧ e = .finalized block (isFastFinalization certType) := by
  have hfin : ∀ {fast}, e ∈ certEvents.finalized p certType fast
      ↔ ∃ block, p.finalizes certType = some block ∧ e = .finalized block fast := by
    intro fast
    simp only [certEvents.finalized, List.mem_map, Option.mem_toList, eq_comm]
  cases certType with
  | notarizeFallback slot b => simp [certEvents, finalizes, or_comm]
  | notarize slot b =>
    simp only [certEvents, List.cons_append, List.mem_cons, List.mem_append, hfin, reduceCtorEq, false_and, exists_const, false_or,
      notarize.injEq]
    constructor
    · rintro (h | h | h)
      · exact .inr (.inl ⟨slot, b, ⟨rfl, rfl⟩, h⟩)
      · exact .inl h
      · exact .inr (.inr h)
    · rintro (h | ⟨_, _, ⟨rfl, rfl⟩, h⟩ | h)
      · exact .inr (.inl h)
      · exact .inl h
      · exact .inr (.inr h)
  | finalizeFast slot b =>
    simp only [certEvents, List.mem_append, hfin, reduceCtorEq, false_and,
      exists_const, false_or]
    exact or_comm
  | finalize slot =>
    simp only [certEvents, List.mem_append, hfin, isFastFinalization, reduceCtorEq, false_and,
      exists_const, false_or]
  | skip slot | genesis slot b => simp [certEvents, finalizes]

lemma getNotarizeCert_eq_some {c : Certificate} (h : p.getNotarizeCert slot = some c) :
    ∃ b, p.completedCertificates.get? (.notarize slot b) = some c := by
  obtain ⟨⟨ct, c'⟩, hmem, he⟩ := List.exists_of_findSome?_eq_some h
  cases ct with
  | notarize s b =>
    simp only at he
    split_ifs at he with hs
    cases he
    exact ⟨b, hs ▸ OrdMap.mem_entries.1 hmem⟩
  | _ => cases he

/-- The certificate whose signers are extracted. -/
def signed (p : ConsensusPool) (cert : Certificate) : CertificateType → Option Certificate
  | .notarize slot _ => p.getFinalizeCert slot
  | _ => some cert

lemma contains_insert {certs : OrdMap CertificateType Certificate} {ct : CertificateType} :
    (certs.insert certType cert).contains ct = true ↔ certType = ct ∨ certs.contains ct = true := by
  unfold OrdMap.contains
  rw [OrdMap.get?_insert]
  split_ifs with h <;> simp [h]

lemma getNotarizeCert_isSome : (p.getNotarizeCert slot).isSome
    ↔ ∃ b, p.completedCertificates.contains (.notarize slot b) := by
  constructor
  · intro h
    obtain ⟨c, hc⟩ := Option.isSome_iff_exists.1 h
    obtain ⟨b, hb⟩ := getNotarizeCert_eq_some hc
    exact ⟨b, by rw [OrdMap.contains, hb]; rfl⟩
  · rintro ⟨b, hb⟩
    obtain ⟨c, hc⟩ := Option.isSome_iff_exists.1 hb
    unfold getNotarizeCert
    rw [List.findSome?_isSome_iff]
    exact ⟨_, OrdMap.mem_entries.2 hc, by simp⟩

lemma finalizes_isSome
    (hstored : ∀ ct c, p.completedCertificates.get? ct = some c → c.certType = ct) :
    (p.finalizes certType).isSome ↔ (∃ s b, certType = .finalizeFast s b)
      ∨ (∃ s b, certType = .notarize s b ∧ p.completedCertificates.contains (.finalize s))
      ∨ ∃ s b, certType = .finalize s ∧ p.completedCertificates.contains (.notarize s b) := by
  cases certType with
  | finalizeFast s b => simp [finalizes]
  | notarize s b =>
    have : (p.getFinalizeCert s).isSome = p.completedCertificates.contains (.finalize s) := rfl
    simp only [finalizes, this]
    split_ifs with h <;> simp [h]
  | finalize s =>
    have hblock : ∀ c, p.getNotarizeCert s = some c → c.certType.toBlock.isSome := by
      intro c hc
      obtain ⟨b, hb⟩ := getNotarizeCert_eq_some hc
      rw [hstored _ _ hb]
      rfl
    have hiff := @getNotarizeCert_isSome p s
    simp only [finalizes]
    cases hn : p.getNotarizeCert s with
    | none => simpa [hn] using hiff
    | some c =>
      obtain ⟨b, hb⟩ := Option.isSome_iff_exists.1 (hblock c hn)
      simpa [hn, hb] using hiff
  | notarizeFallback s b | skip s | genesis s b => simp [finalizes]

lemma exists_finalization [SignerStore]
    (hstored : ∀ ct c, p.completedCertificates.get? ct = some c → c.certType = ct)
    (hsign : ∀ sc, (p.finalizes certType).isSome → p.signed cert certType = some sc →
      ∃ signers, extractSigners stakes rootBank sc = .ok signers) :
    ∃ c, finalization stakes rootBank cert p certType = .ok c := by
  have slow : ∀ {slot fc nc}, (∃ signers, extractSigners stakes rootBank fc = .ok signers) →
      ∃ c, finalization.slow stakes rootBank p slot fc nc = .ok c := by
    rintro slot fc nc ⟨signers, hs⟩
    unfold finalization.slow
    split_ifs
    · rw [hs]
      exact ⟨_, rfl⟩
    · exact ⟨_, rfl⟩
  cases certType with
  | notarize s b =>
    simp only [finalization]
    cases hf : p.getFinalizeCert s with
    | none => exact ⟨_, rfl⟩
    | some fc => exact slow (hsign fc (by simp [finalizes, hf]) hf)
  | finalize s =>
    simp only [finalization]
    cases hn : p.getNotarizeCert s with
    | none => exact ⟨_, rfl⟩
    | some nc =>
      obtain ⟨b, hb⟩ := getNotarizeCert_eq_some hn
      have hct := hstored _ _ hb
      simp only [hct]
      exact slow (hsign cert (by simp [finalizes, hn, hct, toBlock]) rfl)
  | finalizeFast s b =>
    obtain ⟨signers, hs⟩ := hsign cert rfl rfl
    simp only [finalization, finalization.fast]
    split_ifs
    · rw [hs]
      exact ⟨_, rfl⟩
    · exact ⟨_, rfl⟩
  | notarizeFallback s b | skip s | genesis s b => exact ⟨_, rfl⟩

end ConsensusPool

end BlackBull
