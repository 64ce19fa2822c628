import BlackBull.Lib.Run
import BlackBull.Sigverify.VoteSigverify

/-!
# The optimistic path

The optimistic check passes just if the errors of the signatures add up to zero
(`verifyVotesOptimistic_verified`); the votes are valid just if each error is zero.
-/

namespace BlackBull

open List VotePayload

section Verify

variable {Key Msg Sig : Type} [AddCommGroup Sig] {votes : List (VotePayload Key Msg Sig)}

lemma aggregateSignatures_eq (hne : votes ≠ []) (h : ∀ v ∈ votes, v.signature ≠ none) :
    aggregateSignatures votes = some (votes.map fun v => v.signature.getD 0).sum := by
  have hmap : votes.mapM VotePayload.signature = some (votes.map fun v => v.signature.getD 0) := by
    refine mapM_eq_map fun v hv => ?_
    obtain ⟨sig, hsig⟩ := Option.ne_none_iff_exists'.1 (h v hv)
    rw [hsig]
    rfl
  rw [aggregateSignatures, if_neg (by simpa using hne), hmap, Option.map_some]

lemma aggregateSignatures_eq_none (h : ¬ (votes ≠ [] ∧ ∀ v ∈ votes, v.signature ≠ none)) :
    aggregateSignatures votes = none := by
  rw [aggregateSignatures]
  split_ifs with hne
  · rfl
  · rw [List.isEmpty_iff] at hne
    have hsome : ∃ v ∈ votes, v.signature = none := by
      simpa [hne] using h
    obtain ⟨v, hv, hsig⟩ := hsome
    obtain ⟨votes, votes', rfl⟩ := append_of_mem hv
    simp [hsig]

variable [AddCommGroup Key] {bls : VoteScheme Key Msg Sig}

variable (bls) in
def VotePayload.Prepared (v : VotePayload Key Msg Sig) : Prop :=
  ∀ payload ∈ v.preparedPayload, payload = bls.hash v.voteMessage.vote

variable (bls) in
/-- The errors of the signatures cancel only if there are none. -/
def NoCancelling (votes : List (VotePayload Key Msg Sig)) : Prop :=
  (∀ v ∈ votes, v.signature ≠ none) → (votes.map (·.error bls)).sum = 0 →
    ∀ v ∈ votes, v.error bls = 0

lemma VotePayload.valid_iff {v : VotePayload Key Msg Sig} :
    v.Valid bls ↔ v.signature ≠ none ∧ v.error bls = 0 := by
  rw [Valid, error, LinearScheme.error, sub_eq_zero]
  cases v.signature <;> simp

variable (bls) in
lemma aggregatePubkeysByPayload_spec (votes : List (VotePayload Key Msg Sig)) :
    ∃ distinctVotes keys, aggregatePubkeysByPayload bls votes
        = (distinctVotes, distinctVotes.map bls.hash, some keys)
      ∧ (zipWith (fun payload key => bls.sign payload key) (distinctVotes.map bls.hash) keys).sum
        = (votes.map fun v => bls.sign (bls.hash v.voteMessage.vote) v.blsPubkey).sum := by
  let groups := groupPairs (votes.map fun v => (v.voteMessage.vote, v.blsPubkey))
  have hkeys : (groups.mapM fun g => aggregatePubkeys g.2) = some (groups.map (·.2.sum)) := by
    refine mapM_eq_map fun g hg => ?_
    rw [aggregatePubkeys, if_neg (by simpa using ne_nil_of_mem_groupPairs _ g hg)]
    rfl
  refine ⟨groups.map (·.1), groups.map (·.2.sum), ?_, ?_⟩
  · rw [aggregatePubkeysByPayload, map_map]
    simp only [groups, hkeys]
    rfl
  · rw [map_map, zipWith_map, zipWith_self]
    have hsum := sum_groupPairs (fun vote => bls.sign (bls.hash vote))
      (votes.map fun v => (v.voteMessage.vote, v.blsPubkey))
    rw [map_map] at hsum
    exact hsum

variable [DecidableEq Sig]

instance (votes : List (VotePayload Key Msg Sig)) : Decidable (NoCancelling bls votes) :=
  inferInstanceAs (Decidable (_ → _ → _))

lemma VotePayload.verify_eq {v : VotePayload Key Msg Sig} (h : v.Prepared bls) :
    v.verify bls = if v.Valid bls then some v else none := by
  have hpayload : v.preparedPayload.getD (bls.hash v.voteMessage.vote)
      = bls.hash v.voteMessage.vote := by
    rcases hp : v.preparedPayload with _ | payload
    · rfl
    · exact h payload hp
  unfold verify
  rw [hpayload]
  rfl

lemma verifyAggregate_eq_true {sig : Sig} {keys : List Key} {payloads : List Msg} :
    verifyAggregate bls keys sig payloads = true
      ↔ sig = (zipWith (fun payload key => bls.sign payload key) payloads keys).sum := by
  unfold verifyAggregate
  split
  · simp
  · exact decide_eq_true_iff

lemma verifyVotesOptimistic_verified : (verifyVotesOptimistic bls votes).1 = .verified
    ↔ (votes ≠ [] ∧ ∀ v ∈ votes, v.signature ≠ none) ∧ (votes.map (·.error bls)).sum = 0 := by
  obtain ⟨distinctVotes, keys, hkeys, hsum⟩ := aggregatePubkeysByPayload_spec bls votes
  by_cases h : votes ≠ [] ∧ ∀ v ∈ votes, v.signature ≠ none
  · have herror := bls.sum_eq_iff_error (fun v : VotePayload Key Msg Sig => v.blsPubkey)
      (fun v => bls.hash v.voteMessage.vote) (fun v => v.signature.getD 0) votes
    rw [and_iff_right h]
    refine Iff.trans ?_ herror
    rw [verifyVotesOptimistic, hkeys, aggregateSignatures_eq h.1 h.2, ← hsum,
      ← verifyAggregate_eq_true]
    dsimp only
    split_ifs with heq <;> simp [heq]
  · rw [verifyVotesOptimistic, aggregateSignatures_eq_none h]
    simp [h]

lemma verifyVotesOptimistic_payloads (votes : List (VotePayload Key Msg Sig)) :
    (verifyVotesOptimistic bls votes).2.2 = (verifyVotesOptimistic bls votes).2.1.map bls.hash := by
  obtain ⟨distinctVotes, keys, hkeys, -⟩ := aggregatePubkeysByPayload_spec bls votes
  rw [verifyVotesOptimistic, hkeys]
  cases aggregateSignatures votes <;> rfl

lemma filterMap_verify (h : ∀ v ∈ votes, v.Prepared bls) :
    votes.filterMap (·.verify bls) = votes.filter (·.Valid bls) := by
  induction votes with
  | nil => rfl
  | cons v votes ih =>
    obtain ⟨hv, hvotes⟩ := forall_mem_cons.1 h
    rw [filterMap_cons, verify_eq hv, ih hvotes]
    by_cases hvalid : v.Valid bls <;> simp [hvalid]

lemma eq_of_lookup_zip_map {α β : Type} [DecidableEq α] {f : α → β} {l : List α} {a : α} {b : β}
    (h : (l.zip (l.map f)).lookup a = some b) : b = f a := by
  induction l with
  | nil => cases h
  | cons a' l ih =>
    rw [map_cons, zip_cons_cons, lookup_cons] at h
    by_cases heq : a = a'
    · subst heq
      simpa using h.symm
    · rw [beq_false_of_ne heq] at h
      exact ih h

lemma verifyIndividualVotes_fst (h : ∀ v ∈ votes, v.Prepared bls) (distinctVotes : List Vote) :
    (verifyIndividualVotes bls votes distinctVotes (distinctVotes.map bls.hash)).1.map
        unprepared
      = (votes.filter (·.Valid bls)).map unprepared := by
  rw [verifyIndividualVotes]
  split_ifs
  · rw [filterMap_verify fun v hv => ?_, filter_map, map_map]
    · rfl
    · obtain ⟨v, -, rfl⟩ := mem_map.1 hv
      exact fun payload hpayload => eq_of_lookup_zip_map hpayload
  · rw [filterMap_verify h]

/-- The votes that are taken are the valid ones, unless invalid ones cancel. -/
theorem verifyVotes_exact_iff (rootSlot : ℕ) (h : ∀ v ∈ votes, v.Prepared bls) :
    (verifyVotes bls rootSlot votes).1.map unprepared
        = ((nearVotes rootSlot votes).filter (·.Valid bls)).map unprepared
      ↔ NoCancelling bls (nearVotes rootSlot votes) := by
  have hnear : ∀ v ∈ nearVotes rootSlot votes, v.Prepared bls :=
    fun v hv => h v (mem_of_mem_filter hv)
  rw [verifyVotes]
  by_cases hverified : (verifyVotesOptimistic bls (nearVotes rootSlot votes)).1 = .verified
  · simp only [hverified, if_true]
    obtain ⟨⟨-, hsome⟩, hsum⟩ := verifyVotesOptimistic_verified.1 hverified
    constructor
    · -- nothing may be missing, so all are valid
      intro heq _ _ v hv
      have hlen := congrArg length heq
      rw [length_map, length_map] at hlen
      have hall := length_filter_eq_length_iff.1 hlen.symm v hv
      exact (valid_iff.1 (of_decide_eq_true hall)).2
    · intro hno
      rw [filter_eq_self.2 fun v hv => ?_]
      exact decide_eq_true (valid_iff.2 ⟨hsome v hv, hno hsome hsum v hv⟩)
  · simp only [hverified]
    rw [verifyVotesOptimistic_payloads]
    refine iff_of_true (verifyIndividualVotes_fst hnear _) fun hsome hsum v hv => ?_
    have hne := ne_nil_of_mem hv
    exact absurd (verifyVotesOptimistic_verified.2 ⟨⟨hne, hsome⟩, hsum⟩) hverified

end Verify

/-- Keys and signatures are numbers, and the hash of a vote is its slot. -/
def numberScheme : VoteScheme ℤ ℤ ℤ where
  sign := AddMonoidHom.mulLeft
  hash v := v.slot

def numberVote (key sig : ℤ) (sender : Pubkey) : VotePayload ℤ ℤ ℤ where
  voteMessage := ⟨.notarize 2 7, sender⟩
  signature := some sig
  blsPubkey := key
  pubkey := sender
  remotePubkey := sender

theorem verifyVotes_exact_one_invalid :
    (verifyVotes numberScheme 0 [numberVote 3 6 0, numberVote 5 11 1]).1.map unprepared
      = [numberVote 3 6 0].map unprepared := by
  refine ((verifyVotes_exact_iff 0 ?_).2 ?_).trans ?_
  · intro v hv
    simp at hv
    rcases hv with rfl | rfl <;> nofun
  · decide
  · rfl

/-- Neither signature verifies; their sum does. -/
theorem cancelling_votes_accepted :
    verifyVotes numberScheme 0 [numberVote 3 7 0, numberVote 5 9 1]
        = ([numberVote 3 7 0, numberVote 5 9 1], [])
      ∧ (verifyIndividualVotes numberScheme [numberVote 3 7 0, numberVote 5 9 1] [] []).1 = []
      ∧ ∀ v ∈ [numberVote 3 7 0, numberVote 5 9 1], ¬ v.Valid numberScheme := by
  refine ⟨rfl, rfl, ?_⟩
  decide

end BlackBull
