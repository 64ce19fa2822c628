import BlackBull.Sigverify.VoteSigverify
import BlackBull.Votor.CertificateBuilder

/-!
# The certificate verifier

`bls-cert-verify/src/cert_verify.rs`.
-/

namespace BlackBull

inductive CertVerifyError
  | missingRank
  | verifySig
  | decode
  | wrongEncoding
  deriving DecidableEq, Repr

def getVotePayloads : CertificateType → Vote × Option Vote
  | .notarize slot hash | .finalizeFast slot hash => (.notarize slot hash, none)
  | .finalize slot => (.finalize slot, none)
  | .genesis slot hash => (.genesis slot hash, none)
  | .notarizeFallback slot hash => (.notarize slot hash, some (.notarizeFallback slot hash))
  | .skip slot => (.skip slot, some (.skipFallback slot))

section Verify

variable {Key Msg Sig : Type} [AddCommGroup Key] [AddCommGroup Sig] [DecidableEq Sig]
  [SignerStore] (bls : VoteScheme Key Msg Sig) (rankMap : ℕ → Option (ℕ × Key))

def collectPubkey (acc : List Key × ℕ) (rank : ℕ) : Except CertVerifyError (List Key × ℕ) :=
  match rankMap rank with
  | none => .error .missingRank
  | some (stake, pubkey) => .ok (acc.1 ++ [pubkey], saturatingAdd acc.2 stake)

def collectPubkeys (ranks : List Bool) (totalStake : ℕ) : Except CertVerifyError (List Key × ℕ) :=
  (iterOnes ranks).foldlM (collectPubkey rankMap) ([], totalStake)

def verifySignature (payload : Msg) (signature : Sig) (pubkeys : List Key) :
    Except CertVerifyError Unit :=
  if (aggregatePubkeys pubkeys).map (bls.sign payload) = some signature then .ok ()
  else .error .verifySig

def verifySingleVoteSignature (payload : Msg) (signature : Sig) (ranks : List Bool) :
    Except CertVerifyError ℕ := do
  let (pubkeys, totalStake) ← collectPubkeys rankMap ranks 0
  verifySignature bls payload signature pubkeys
  .ok totalStake

def verifyBase2 (payload : Msg) (signature : Sig) (ranks : List UInt8) (maxValidators : ℕ) :
    Except CertVerifyError ℕ :=
  match SignerStore.decode ranks maxValidators with
  | none => .error .decode
  | some (.base2 ranks) => verifySingleVoteSignature bls rankMap payload signature ranks
  | some (.base3 _ _) => .error .wrongEncoding

/-- A signature of two payloads, of which one may have no signer. -/
def verifySplitSignature (payload fallbackPayload : Msg) (signature : Sig)
    (primaryPubkeys fallbackPubkeys : List Key) : Except CertVerifyError Unit :=
  if primaryPubkeys.isEmpty then verifySignature bls fallbackPayload signature fallbackPubkeys
  else if fallbackPubkeys.isEmpty then verifySignature bls payload signature primaryPubkeys
  else if signature = (primaryPubkeys.map (bls.sign payload)).sum
      + (fallbackPubkeys.map (bls.sign fallbackPayload)).sum then .ok ()
  else .error .verifySig

def verifyBase3 (payload fallbackPayload : Msg) (signature : Sig) (ranks : List UInt8)
    (maxValidators : ℕ) : Except CertVerifyError ℕ :=
  match SignerStore.decode ranks maxValidators with
  | none => .error .decode
  | some (.base2 ranks) => verifySingleVoteSignature bls rankMap payload signature ranks
  | some (.base3 ranks fallbackRanks) => do
    let (primaryPubkeys, totalStake) ← collectPubkeys rankMap ranks 0
    let (fallbackPubkeys, totalStake) ← collectPubkeys rankMap fallbackRanks totalStake
    verifySplitSignature bls payload fallbackPayload signature primaryPubkeys fallbackPubkeys
    .ok totalStake

def verifyCertificate (certType : CertificateType) (signature : Sig) (bitmap : List UInt8)
    (maxValidators : ℕ) : Except CertVerifyError ℕ :=
  match getVotePayloads certType with
  | (primaryVote, none) =>
    verifyBase2 bls rankMap (bls.hash primaryVote) signature bitmap maxValidators
  | (primaryVote, some fallbackVote) => verifyBase3 bls rankMap (bls.hash primaryVote)
      (bls.hash fallbackVote) signature bitmap maxValidators

end Verify

end BlackBull
