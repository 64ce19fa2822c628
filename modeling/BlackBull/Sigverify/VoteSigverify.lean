import BlackBull.Lib.Bilinear
import BlackBull.Votor.VotePool

/-!
# Signature verification of votes

`core/src/bls_sigverify/bls_vote_sigverify.rs`.
-/

namespace BlackBull

structure VoteScheme (Key Msg Sig : Type) [AddCommGroup Key] [AddCommGroup Sig] extends
    LinearScheme Key Msg Sig where
  hash : Vote → Msg

/-- `VoteMessage` along with other information needed to sig verify it. -/
structure VotePayload (Key Msg Sig : Type) where
  voteMessage : VoteMessage
  /-- The signature of the message, if its bytes are a point of the group. -/
  signature : Option Sig
  blsPubkey : Key
  pubkey : Pubkey
  remotePubkey : Pubkey
  preparedPayload : Option Msg := none

inductive OptimisticVerificationResult
  | verified
  | failed (numDistinctMessages : ℕ)
  deriving DecidableEq, Repr

/-- Votes for slots further than this from the root are discarded. -/
def numSlotsForVerify : ℕ := 90000

/-- The share of distinct votes, in percent, up to which prepared payloads are kept. -/
def preparedPayloadCacheDistinctVoteThresholdPercent : ℕ := 90

def shouldPreparePayloadCache (distinctVoteCount totalVoteCount : ℕ) : Bool :=
  distinctVoteCount * 100 ≤ totalVoteCount * preparedPayloadCacheDistinctVoteThresholdPercent

section Verify

variable {Key Msg Sig : Type} [AddCommGroup Key] [AddCommGroup Sig] [DecidableEq Sig]
  (bls : VoteScheme Key Msg Sig)

namespace VotePayload

variable (v : VotePayload Key Msg Sig)

def slot : ℕ := v.voteMessage.vote.slot

def verify : Option (VotePayload Key Msg Sig) :=
  let payload := v.preparedPayload.getD (bls.hash v.voteMessage.vote)
  if v.signature = some (bls.sign payload v.blsPubkey) then some v else none

def Valid : Prop :=
  v.signature = some (bls.sign (bls.hash v.voteMessage.vote) v.blsPubkey)

instance (v : VotePayload Key Msg Sig) : Decidable (v.Valid bls) :=
  inferInstanceAs (Decidable (_ = _))

def error : Sig :=
  bls.toLinearScheme.error v.blsPubkey (bls.hash v.voteMessage.vote) (v.signature.getD 0)

def unprepared : VotePayload Key Msg Sig :=
  { v with preparedPayload := none }

end VotePayload

/-- Keys are aggregated as points, which fails on none. -/
def aggregatePubkeys (keys : List Key) : Option Key :=
  if keys.isEmpty then none else some keys.sum

/-- Fails if there is no vote, or a signature that is no point. -/
def aggregateSignatures (votes : List (VotePayload Key Msg Sig)) : Option Sig :=
  if votes.isEmpty then none else (votes.mapM VotePayload.signature).map List.sum

def aggregatePubkeysByPayload (votes : List (VotePayload Key Msg Sig)) :
    List Vote × List Msg × Option (List Key) :=
  let groupedVotes := groupPairs (votes.map fun v => (v.voteMessage.vote, v.blsPubkey))
  (groupedVotes.map (·.1), groupedVotes.map (bls.hash ·.1),
    groupedVotes.mapM fun g => aggregatePubkeys g.2)

/-- One payload takes two pairings, several take one each and one for the signature. -/
def verifyAggregate (aggregatePubkeys : List Key) (aggregateSignature : Sig)
    (distinctPayloads : List Msg) : Bool :=
  match aggregatePubkeys, distinctPayloads with
  | [aggregatePubkey], [payload] => aggregateSignature = bls.sign payload aggregatePubkey
  | _, _ => aggregateSignature = (List.zipWith (fun payload key => bls.sign payload key)
      distinctPayloads aggregatePubkeys).sum

def verifyVotesOptimistic (votes : List (VotePayload Key Msg Sig)) :
    OptimisticVerificationResult × List Vote × List Msg :=
  let (distinctVotes, distinctPayloads, pubkeysResult) := aggregatePubkeysByPayload bls votes
  match aggregateSignatures votes, pubkeysResult with
  | none, _ => (.failed 0, [], [])
  | some _, none => (.failed distinctPayloads.length, distinctVotes, distinctPayloads)
  | some aggregateSignature, some aggregatePubkeys =>
    (if verifyAggregate bls aggregatePubkeys aggregateSignature distinctPayloads then .verified
      else .failed distinctPayloads.length, distinctVotes, distinctPayloads)

def verifyIndividualVotes (votesToVerify : List (VotePayload Key Msg Sig))
    (distinctVotes : List Vote) (distinctPayloads : List Msg) :
    List (VotePayload Key Msg Sig) × List Pubkey :=
  let votes := if shouldPreparePayloadCache distinctVotes.length votesToVerify.length then
      let preparedPayloads := distinctVotes.zip distinctPayloads
      votesToVerify.map fun v =>
        { v with preparedPayload := preparedPayloads.lookup v.voteMessage.vote }
    else votesToVerify
  (votes.filterMap (·.verify bls),
    (votes.filter fun v => (v.verify bls).isNone).map (·.remotePubkey))

def nearVotes (rootSlot : ℕ) (votes : List (VotePayload Key Msg Sig)) :
    List (VotePayload Key Msg Sig) :=
  votes.filter (·.slot ≤ saturatingAdd rootSlot numSlotsForVerify)

def verifyVotes (rootSlot : ℕ) (votesToVerify : List (VotePayload Key Msg Sig)) :
    List (VotePayload Key Msg Sig) × List Pubkey :=
  let votes := nearVotes rootSlot votesToVerify
  let (optimisticResult, distinctVotes, distinctPayloads) := verifyVotesOptimistic bls votes
  if optimisticResult = .verified then (votes, [])
  else verifyIndividualVotes bls votes distinctVotes distinctPayloads

end Verify

end BlackBull
