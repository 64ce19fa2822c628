import BlackBull.Proofs.CertificateBuilder
import BlackBull.Proofs.VoteSigverify
import BlackBull.Votor.CertVerify

/-!
# What is built verifies

A certificate built of votes that are those of its type, with valid signatures, verifies, and its
stake is that of the signers, each counted once.
-/

namespace BlackBull

open List BuilderType SignerStore

lemma iterOnes_resize_perm {bitmap : List ℕ} {n : ℕ} (hnd : bitmap.Nodup)
    (hn : cutLength bitmap ≤ n) : (iterOnes (resize bitmap n)).Perm bitmap := by
  have hones : iterOnes (resize bitmap n) = (range n).filter (· ∈ bitmap) := by
    unfold iterOnes
    rw [length_resize]
    refine filter_congr fun rank hrank => ?_
    rw [resize, getElem?_map, getElem?_range (mem_range.1 hrank), Option.map_some,
      Option.getD_some]
  rw [hones]
  refine (perm_ext_iff_of_nodup (nodup_range.filter _) hnd).2 fun rank => ?_
  rw [mem_filter, mem_range, decide_eq_true_eq]
  exact ⟨And.right, fun h => ⟨cutLength_le_iff.1 hn rank h, h⟩⟩

section Verify

variable {Key Msg Sig : Type} [AddCommGroup Key] [AddCommGroup Sig] [DecidableEq Sig]
  {bls : VoteScheme Key Msg Sig} {rankMap : ℕ → Option (ℕ × Key)} {bitmap bitmap0 bitmap1 : List ℕ}
  {n total maxValidators : ℕ} {payload fallbackPayload : Msg} {signature : Sig}

variable (rankMap) in
def rankStake (rank : ℕ) : ℕ := ((rankMap rank).map (·.1)).getD 0

variable (rankMap) in
def rankKey (rank : ℕ) : Key := ((rankMap rank).map (·.2)).getD 0

variable (bls rankMap) in
/-- The signatures of a payload by the keys of the ranks, summed. -/
def signedBy (payload : Msg) (bitmap : List ℕ) : Sig :=
  (bitmap.map fun rank => bls.sign payload (rankKey rankMap rank)).sum

omit [DecidableEq Sig] in
@[simp] lemma signedBy_nil : signedBy bls rankMap payload [] = 0 := rfl

variable (rankMap) in
/-- The ranks are distinct and below `n`, and have keys. -/
structure Known (n : ℕ) (bitmap : List ℕ) : Prop where
  nodup : bitmap.Nodup
  cutLength_le : cutLength bitmap ≤ n
  isSome : ∀ rank ∈ bitmap, (rankMap rank).isSome

lemma collectPubkeys_eq (h : Known rankMap n bitmap) (htotal : total ≤ u64Max) :
    ∃ keys, collectPubkeys rankMap (resize bitmap n) total
        = .ok (keys, min (total + (bitmap.map (rankStake rankMap)).sum) u64Max)
      ∧ keys.Perm (bitmap.map (rankKey rankMap)) := by
  have hperm := iterOnes_resize_perm h.nodup h.cutLength_le
  suffices hfold : ∀ (ranks : List ℕ) (keys : List Key) (total : ℕ), total ≤ u64Max →
      (∀ rank ∈ ranks, (rankMap rank).isSome) → ranks.foldlM (collectPubkey rankMap) (keys, total)
      = .ok (keys ++ ranks.map (rankKey rankMap),
        min (total + (ranks.map (rankStake rankMap)).sum) u64Max) by
    refine ⟨_, (hfold _ [] total htotal fun rank hr => h.isSome rank (hperm.subset hr)).trans ?_,
      hperm.map _⟩
    rw [(hperm.map (rankStake rankMap)).sum_eq, nil_append]
  intro ranks
  induction ranks with
  | nil =>
    intro keys total htotal _
    simp [min_eq_left htotal]
    rfl
  | cons rank ranks ih =>
    intro keys total htotal hsome
    obtain ⟨hrank, hsome⟩ := forall_mem_cons.1 hsome
    obtain ⟨⟨stake, key⟩, hget⟩ := Option.isSome_iff_exists.1 hrank
    have hstep : collectPubkey rankMap (keys, total) rank
        = .ok (keys ++ [key], saturatingAdd total stake) := by
      rw [collectPubkey, hget]
    have hmin : ∀ x, min (min (total + stake) u64Max + x) u64Max
        = min (total + (stake + x)) u64Max := by
      omega
    rw [foldlM_cons, hstep]
    refine (ih _ _ (min_le_right _ _) hsome).trans ?_
    simp [hmin, rankKey, rankStake, hget]

lemma verifySignature_ok {keys : List Key} (hkeys : keys.Perm (bitmap.map (rankKey rankMap)))
    (hne : bitmap ≠ []) :
    verifySignature bls payload (signedBy bls rankMap payload bitmap) keys = .ok () := by
  have hne' : keys ≠ [] := by
    rintro rfl
    exact hne (map_eq_nil_iff.1 (nil_perm.1 hkeys))
  have hagg : aggregatePubkeys keys = some keys.sum := if_neg (by simpa using hne')
  rw [verifySignature, hagg, Option.map_some, hkeys.sum_eq, map_list_sum, map_map]
  exact if_pos rfl

lemma verifySingleVoteSignature_ok (h : Known rankMap n bitmap) (hne : bitmap ≠ []) :
    verifySingleVoteSignature bls rankMap payload (signedBy bls rankMap payload bitmap)
      (resize bitmap n) = .ok (min (bitmap.map (rankStake rankMap)).sum u64Max) := by
  obtain ⟨keys, hcollect, hkeys⟩ := collectPubkeys_eq h (Nat.zero_le _)
  rw [Nat.zero_add] at hcollect
  exact Except.bind_eq_ok.2 ⟨_, hcollect, Except.bind_eq_ok.2 ⟨_, verifySignature_ok hkeys hne, rfl⟩⟩

lemma verifySplitSignature_ok {keys0 keys1 : List Key}
    (hkeys0 : keys0.Perm (bitmap0.map (rankKey rankMap)))
    (hkeys1 : keys1.Perm (bitmap1.map (rankKey rankMap))) (hne : bitmap0 ≠ [] ∨ bitmap1 ≠ []) :
    verifySplitSignature bls payload fallbackPayload (signedBy bls rankMap payload bitmap0
      + signedBy bls rankMap fallbackPayload bitmap1) keys0 keys1 = .ok () := by
  rw [verifySplitSignature, hkeys0.isEmpty_eq, hkeys1.isEmpty_eq]
  by_cases h0 : bitmap0 = []
  · subst h0
    rw [signedBy_nil, zero_add]
    exact verifySignature_ok hkeys1 (hne.resolve_left fun h => h rfl)
  rw [if_neg (by simpa using h0)]
  by_cases h1 : bitmap1 = []
  · subst h1
    rw [signedBy_nil, add_zero]
    exact verifySignature_ok hkeys0 h0
  rw [if_neg (by simpa using h1), (hkeys0.map _).sum_eq, (hkeys1.map _).sum_eq, map_map,
    map_map]
  exact if_pos rfl

variable {certType : CertificateType} {batches : List (List VoteMessage)} {b : BuilderType}
  {sig : VoteMessage → Sig}

lemma getType_fallback_ne {vote : Vote} (h : some vote = (getVotePayloads certType).2) :
    vote.getType ≠ (getVotePayloads certType).1.getType := by
  cases certType <;> cases h <;> nofun

lemma length_voteTypes (h : (getVotePayloads certType).2 = none) :
    certType.limitsAndVoteTypes.2.length = 1 := by
  cases certType <;> first | rfl | cases h

lemma foldlM_aggregate (h : batches.foldlM (fun b msgs => b.aggregate certType msgs)
      (BuilderType.new certType) = .ok b) :
    BuilderType.BuildsFrom certType batches.flatten b ∧ b.messages.Perm batches.flatten
      ∧ b.ranks = setRanks (getVotePayloads certType).1.getType batches.flatten ([], []) := by
  refine foldlM_taken (P := fun taken b => BuilderType.BuildsFrom certType taken.flatten b
    ∧ b.messages.Perm taken.flatten ∧ b.ranks = setRanks
      (getVotePayloads certType).1.getType taken.flatten ([], [])) ?_ ?_ h
  · exact ⟨buildsFrom_new certType, by rw [messages_new]; rfl,
      ranks_new certType⟩
  · rintro taken b msgs b' - ⟨hfrom, hperm, hranks⟩ hb
    rw [flatten_append, flatten_singleton]
    refine ⟨hfrom.aggregate hb, (aggregate_ok hb).1.trans (hperm.append_right _), ?_⟩
    have hhead : certType.limitsAndVoteTypes.2.head? = some (getVotePayloads certType).1.getType := by
      cases certType <;> rfl
    rw [(aggregate_ok hb).2.2.1 _ hhead, hranks]
    simp [setRanks]

variable (bls rankMap sig maxValidators) in
/-- The rank has a key, and the signature is by it. -/
def ValidMessage (m : VoteMessage) : Prop :=
  m.rank < maxValidators ∧ ∃ stake key, rankMap m.rank = some (stake, key)
    ∧ sig m = bls.sign (bls.hash m.vote) key

omit [DecidableEq Sig] in
lemma ValidMessage.known {msgs : List VoteMessage} (hnodup : (msgs.map (·.rank)).Nodup)
    (h : ∀ m ∈ msgs, ValidMessage bls rankMap maxValidators sig m) :
    Known rankMap maxValidators (msgs.map (·.rank)) := by
  refine ⟨hnodup, cutLength_le_iff.2 fun rank hr => ?_, fun rank hr => ?_⟩
  · obtain ⟨m, hm, rfl⟩ := mem_map.1 hr
    exact (h m hm).1
  · obtain ⟨m, hm, rfl⟩ := mem_map.1 hr
    obtain ⟨-, stake, key, hget, -⟩ := h m hm
    exact hget ▸ rfl

omit [DecidableEq Sig] in
lemma ValidMessage.sum_eq {msgs : List VoteMessage} {vote : Vote}
    (h : ∀ m ∈ msgs, ValidMessage bls rankMap maxValidators sig m)
    (hvote : ∀ m ∈ msgs, m.vote = vote) :
    (msgs.map sig).sum = signedBy bls rankMap (bls.hash vote) (msgs.map (·.rank)) := by
  rw [signedBy, map_map]
  refine congrArg sum (map_congr_left fun m hm => ?_)
  obtain ⟨-, stake, key, hget, hsig⟩ := h m hm
  rw [hsig, hvote m hm, Function.comp, rankKey, hget]
  rfl

variable [SignerStore] {fallbackVote : Vote} {code : List UInt8} {cert : Certificate}

lemma verifyCertificate_base2 (hdecode : decode code maxValidators = some (.base2 (resize bitmap n)))
    (h : Known rankMap n bitmap) (hne : bitmap ≠ []) :
    verifyCertificate bls rankMap certType
      (signedBy bls rankMap (bls.hash (getVotePayloads certType).1) bitmap) code maxValidators
      = .ok (min (bitmap.map (rankStake rankMap)).sum u64Max) := by
  unfold verifyCertificate
  rcases getVotePayloads certType with ⟨primaryVote, _ | fallbackVote⟩
  · simp only [verifyBase2, hdecode]
    exact verifySingleVoteSignature_ok h hne
  · simp only [verifyBase3, hdecode]
    exact verifySingleVoteSignature_ok h hne

lemma verifyCertificate_base3
    (hdecode : decode code maxValidators = some (.base3 (resize bitmap0 n) (resize bitmap1 n)))
    (hvotes : (getVotePayloads certType).2 = some fallbackVote)
    (h0 : Known rankMap n bitmap0) (h1 : Known rankMap n bitmap1)
    (hne : bitmap0 ≠ [] ∨ bitmap1 ≠ []) :
    verifyCertificate bls rankMap certType
      (signedBy bls rankMap (bls.hash (getVotePayloads certType).1) bitmap0
        + signedBy bls rankMap (bls.hash fallbackVote) bitmap1) code maxValidators
      = .ok (min ((bitmap0.map (rankStake rankMap)).sum
        + (bitmap1.map (rankStake rankMap)).sum) u64Max) := by
  obtain ⟨keys0, hcollect0, hkeys0⟩ := collectPubkeys_eq h0 (Nat.zero_le u64Max)
  obtain ⟨keys1, hcollect1, hkeys1⟩ := collectPubkeys_eq h1
    (min_le_right (0 + (bitmap0.map (rankStake rankMap)).sum) u64Max)
  unfold verifyCertificate
  revert hvotes
  rcases getVotePayloads certType with ⟨primaryVote, _ | fallbackVote⟩
  · nofun
  rintro ⟨⟩
  simp only [verifyBase3, hdecode]
  refine Except.bind_eq_ok.2 ⟨_, hcollect0, Except.bind_eq_ok.2 ⟨_, hcollect1,
    Except.bind_eq_ok.2 ⟨_, verifySplitSignature_ok hkeys0 hkeys1 hne, congrArg Except.ok ?_⟩⟩⟩
  omega

lemma verifyCertificate_votes {primary fallback : List VoteMessage}
    (hprimary : ∀ m ∈ primary, m.vote = (getVotePayloads certType).1)
    (hfallback : ∀ m ∈ fallback, some m.vote = (getVotePayloads certType).2)
    (hne : primary ++ fallback ≠ []) (hnodup : ((primary ++ fallback).map (·.rank)).Nodup)
    (hvalid : ∀ m ∈ primary ++ fallback, ValidMessage bls rankMap maxValidators sig m)
    (hdecodes : cert.Decodes maxValidators (primary.map (·.rank), fallback.map (·.rank)))
    (hbase2 : (getVotePayloads certType).2 = none →
      ∃ ranks, decode cert.bitmap maxValidators = some (.base2 ranks)) :
    verifyCertificate bls rankMap certType ((primary ++ fallback).map sig).sum cert.bitmap
      maxValidators
      = .ok (min ((primary ++ fallback).map fun m => rankStake rankMap m.rank).sum u64Max) := by
  obtain ⟨hvalid0, hvalid1⟩ := forall_mem_append.1 hvalid
  rw [map_append] at hnodup
  have h0 := ValidMessage.known (nodup_append.1 hnodup).1 hvalid0
  have h1 := ValidMessage.known (nodup_append.1 hnodup).2.1 hvalid1
  have hstake : ∀ msgs : List VoteMessage, msgs.map (fun m => rankStake rankMap m.rank)
      = (msgs.map (·.rank)).map (rankStake rankMap) := fun msgs => by
    rw [map_map, Function.comp_def]
  rw [map_append, sum_append, ValidMessage.sum_eq hvalid0 hprimary, hstake,
    map_append, map_append, sum_append]
  rcases hdecodes with ⟨hdecode, hnil⟩ | hdecode
  · obtain rfl := map_eq_nil_iff.1 hnil
    have hne0 : primary.map (·.rank) ≠ [] := by simpa using hne
    simpa using @verifyCertificate_base2 _ _ _ _ _ _ bls _ _ _ _ certType _ _ hdecode
      { h0 with cutLength_le := le_rfl } hne0
  · obtain ⟨fallbackVote, hvote⟩ := Option.ne_none_iff_exists'.1 fun hnone => by
      obtain ⟨ranks, hbase2⟩ := hbase2 hnone
      cases hdecode.symm.trans hbase2
    have hvotes : ∀ m ∈ fallback, m.vote = fallbackVote := fun m hm =>
      Option.some.inj ((hfallback m hm).trans hvote)
    rw [ValidMessage.sum_eq hvalid1 hvotes]
    refine verifyCertificate_base3 hdecode hvote { h0 with cutLength_le := le_max_left _ _ }
      { h1 with cutLength_le := le_max_right _ _ } ?_
    simpa [or_iff_not_imp_left] using hne

/-- A certificate of votes for what it is to certify is built and verifies. -/
theorem verifyCertificate_build
    (hb : batches.foldlM (fun b msgs => b.aggregate certType msgs) (BuilderType.new certType)
      = .ok b)
    (hne : batches.flatten ≠ [])
    (hvote : ∀ m ∈ batches.flatten, m.vote = (getVotePayloads certType).1
      ∨ some m.vote = (getVotePayloads certType).2)
    (hnodup : (batches.flatten.map (·.rank)).Nodup)
    (hvalid : ∀ m ∈ batches.flatten, ValidMessage bls rankMap maxValidators sig m) :
    ∃ cert, b.build certType = .ok cert
      ∧ verifyCertificate bls rankMap cert.certType (cert.signature.map sig).sum
          cert.bitmap maxValidators
        = .ok (min (batches.flatten.map fun m => rankStake rankMap m.rank).sum u64Max) := by
  obtain ⟨hfrom, hmsgs, hranks⟩ := foldlM_aggregate hb
  obtain ⟨cert, hbuild⟩ := hfrom.exists_build hnodup
  obtain ⟨hcert, hsignature, -⟩ := build_ok hbuild
  have hlt := fun m hm => (hvalid m hm).1
  refine ⟨cert, hbuild, ?_⟩
  have hsplit := filter_append_perm (fun m : VoteMessage =>
    m.vote.getType = (getVotePayloads certType).1.getType) batches.flatten
  rw [← hsignature] at hmsgs
  rw [hcert, ((hmsgs.trans hsplit.symm).map sig).sum_eq,
    ← (hsplit.map fun m => rankStake rankMap m.rank).sum_eq]
  simp only [setRanks, decide_not] at hranks
  refine verifyCertificate_votes (fun m hm => ?_) (fun m hm => ?_) ?_ ?_ ?_ ?_ ?_
  · obtain ⟨hm, hty⟩ := mem_filter.1 hm
    exact (hvote m hm).resolve_right fun h => getType_fallback_ne h (of_decide_eq_true hty)
  · obtain ⟨hm, hty⟩ := mem_filter.1 hm
    refine (hvote m hm).resolve_left fun h => ?_
    simp [h] at hty
  · intro hnil
    rw [hnil] at hsplit
    exact hne (nil_perm.1 hsplit)
  · exact (hsplit.map _).nodup_iff.2 hnodup
  · exact fun m hm => hvalid m (hsplit.subset hm)
  · exact hranks ▸ hfrom.decodes hbuild hlt
  · exact fun hnone => hfrom.base2 hbuild (length_voteTypes hnone) hlt

end Verify

def numberRanks (rank : ℕ) : Option (ℕ × ℤ) := [(100, 3), (10, 5)][rank]?

open PlainStore

def numberSignature (m : VoteMessage) : ℤ := m.vote.slot * rankKey numberRanks m.rank

theorem verifyCertificate_build_split : ∃ b cert,
    aggregate (.skip 2) [⟨.skip 2, 1⟩, ⟨.skipFallback 2, 0⟩] (.new (.skip 2)) = .ok b
    ∧ b.build (.skip 2) = .ok cert
    ∧ verifyCertificate numberScheme numberRanks cert.certType
        (cert.signature.map numberSignature).sum cert.bitmap 10 = .ok 110 := by
  obtain ⟨cert, hbuild, hverify⟩ := @verifyCertificate_build _ _ _ _ _ _ numberScheme numberRanks 10
    (.skip 2) [[⟨.skip 2, 1⟩, ⟨.skipFallback 2, 0⟩]] _ numberSignature _ rfl (by decide) (by decide)
    (by decide) (by
      simp only [flatten_singleton, forall_mem_cons]
      exact ⟨⟨by decide, 10, 5, rfl, rfl⟩, ⟨by decide, 100, 3, rfl, rfl⟩, nofun⟩)
  exact ⟨_, cert, rfl, hbuild, hverify⟩

/-- The builder takes a vote for another slot, whose signature is valid, and no vote at all; neither
certificate verifies. -/
theorem verifyCertificate_otherVotes :
    (∃ cert, (aggregate (.skip 2) [⟨.skip 3, 0⟩] (.new (.skip 2))
        = .ok (.skip [⟨.skip 3, 0⟩] [0] none)
      ∧ ValidMessage numberScheme numberRanks 10 numberSignature ⟨.skip 3, 0⟩
      ∧ build (.skip 2) (.skip [⟨.skip 3, 0⟩] [0] none) = .ok cert
      ∧ verifyCertificate numberScheme numberRanks (.skip 2) (numberSignature ⟨.skip 3, 0⟩)
        cert.bitmap 10 = .error .verifySig))
    ∧ ∃ cert, aggregate (.skip 2) [] (.new (.skip 2)) = .ok (.skip [] [] none)
      ∧ build (.skip 2) (.skip [] [] none) = .ok cert
      ∧ verifyCertificate numberScheme numberRanks (.skip 2) 0 cert.bitmap 10
        = .error .verifySig := by
  exact ⟨⟨_, rfl, ⟨by decide, 100, 3, rfl, rfl⟩, rfl, rfl⟩, _, rfl, rfl, rfl⟩

end BlackBull
