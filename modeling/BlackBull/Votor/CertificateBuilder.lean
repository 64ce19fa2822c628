import BlackBull.Votor.VotePool

/-!
# The certificate builder

`votor/src/consensus_pool/certificate_builder.rs`.
-/

namespace BlackBull

def maximumValidators : ℕ := 4096

/-- The bits of the ranks that signed, with a second vote type in two bitmaps. -/
inductive Decoded
  | base2 (ranks : List Bool)
  | base3 (ranks fallbackRanks : List Bool)
  deriving DecidableEq, Repr

structure Certificate where
  certType : CertificateType
  signature : List VoteMessage
  bitmap : List UInt8
  deriving DecidableEq, Repr

inductive AggregateError
  | invalidRank (rank : ℕ)
  | validatorAlreadyIncluded
  | voteType
  deriving DecidableEq, Repr

inductive BuildError
  | encode
  deriving DecidableEq, Repr

/-- The signer-store crate: it decodes to the bits it was given, if they are not too many. Two bitmaps
must have one length, and no bit that is set in both. -/
class SignerStore where
  encodeBase2 : List Bool → Except BuildError (List UInt8)
  encodeBase3 : List Bool → List Bool → Except BuildError (List UInt8)
  decode : List UInt8 → ℕ → Option Decoded
  exists_encodeBase2 : ∀ ranks, ranks.length ≤ maximumValidators →
    ∃ bitmap, encodeBase2 ranks = .ok bitmap
  exists_encodeBase3 : ∀ ranks fallbackRanks, ranks.length ≤ maximumValidators →
    ranks.length = fallbackRanks.length → (true, true) ∉ ranks.zip fallbackRanks →
    ∃ bitmap, encodeBase3 ranks fallbackRanks = .ok bitmap
  decode_base2 : ∀ {ranks bitmap maxValidators}, encodeBase2 ranks = .ok bitmap →
    ranks.length ≤ maxValidators → decode bitmap maxValidators = some (.base2 ranks)
  decode_base3 : ∀ {ranks fallbackRanks bitmap maxValidators},
    encodeBase3 ranks fallbackRanks = .ok bitmap → ranks.length ≤ maxValidators →
    decode bitmap maxValidators = some (.base3 ranks fallbackRanks)

open SignerStore

/-- The bits up to the last that is set. -/
def cutLength (bitmap : List ℕ) : ℕ := (bitmap.map (· + 1)).foldr max 0

def resize (bitmap : List ℕ) (newLen : ℕ) : List Bool :=
  (List.range newLen).map fun rank => decide (rank ∈ bitmap)

def iterOnes (ranks : List Bool) : List ℕ :=
  (List.range ranks.length).filter fun rank => ranks[rank]?.getD false

section Build

variable [SignerStore] (certType : CertificateType) (signature : List VoteMessage)

def buildCertFromBitmap (bitmap : List ℕ) : Except BuildError Certificate := do
  let bitmap ← encodeBase2 (resize bitmap (cutLength bitmap))
  .ok ⟨certType, signature, bitmap⟩

def buildCertFromBitmaps (bitmap0 bitmap1 : List ℕ) : Except BuildError Certificate := do
  let newLength := max (cutLength bitmap0) (cutLength bitmap1)
  let bitmap ← encodeBase3 (resize bitmap0 newLength) (resize bitmap1 newLength)
  .ok ⟨certType, signature, bitmap⟩

end Build

def trySetBitmap (bitmap : List ℕ) (rank : ℕ) : Except AggregateError (List ℕ) :=
  if maximumValidators ≤ rank then .error (.invalidRank rank)
  else if rank ∈ bitmap then .error .validatorAlreadyIncluded
  else .ok (bitmap ++ [rank])

inductive BuilderType
  | singleVote (signature : List VoteMessage) (bitmap : List ℕ)
  | skip (signature0 : List VoteMessage) (bitmap0 : List ℕ)
      (sigAndBitmap1 : Option (List VoteMessage × List ℕ))
  | notarFallback (signature : List VoteMessage) (bitmap0 : List ℕ) (bitmap1 : Option (List ℕ))
  deriving DecidableEq, Repr

namespace BuilderType

def new : CertificateType → BuilderType
  | .skip _ => .skip [] [] none
  | .notarizeFallback _ _ => .notarFallback [] [] none
  | .finalize _ | .finalizeFast _ _ | .notarize _ _ | .genesis _ _ => .singleVote [] []

def setSingle (ty : VoteType) (bitmap : List ℕ) (msg : VoteMessage) :
    Except AggregateError (List ℕ) :=
  if msg.vote.getType = ty then trySetBitmap bitmap msg.rank else .error .voteType

def setSkip (ty₀ ty₁ : VoteType) (acc : List ℕ × Option (List VoteMessage × List ℕ))
    (msg : VoteMessage) : Except AggregateError (List ℕ × Option (List VoteMessage × List ℕ)) :=
  if msg.vote.getType = ty₀ then do
    let bitmap0 ← trySetBitmap acc.1 msg.rank
    .ok (bitmap0, acc.2)
  else if msg.vote.getType = ty₁ then do
    let (signature, bitmap) := acc.2.getD ([], [])
    let bitmap ← trySetBitmap bitmap msg.rank
    .ok (acc.1, some (signature, bitmap))
  else .error .voteType

def setNotarFallback (ty₀ ty₁ : VoteType) (acc : List ℕ × Option (List ℕ)) (msg : VoteMessage) :
    Except AggregateError (List ℕ × Option (List ℕ)) :=
  if msg.vote.getType = ty₀ then do
    let bitmap0 ← trySetBitmap acc.1 msg.rank
    .ok (bitmap0, acc.2)
  else if msg.vote.getType = ty₁ then do
    let bitmap ← trySetBitmap (acc.2.getD []) msg.rank
    .ok (acc.1, some bitmap)
  else .error .voteType

def aggregate (certType : CertificateType) (msgs : List VoteMessage) :
    BuilderType → Except AggregateError BuilderType
  | .singleVote signature bitmap =>
    match certType.limitsAndVoteTypes.2 with
    | [ty] => do
      let bitmap ← msgs.foldlM (setSingle ty) bitmap
      .ok (.singleVote (signature ++ msgs) bitmap)
    | _ => .error .voteType
  | .skip signature0 bitmap0 sigAndBitmap1 =>
    match certType.limitsAndVoteTypes.2 with
    | [ty₀, ty₁] => do
      let (bitmap0, sigAndBitmap1) ← msgs.foldlM (setSkip ty₀ ty₁) (bitmap0, sigAndBitmap1)
      .ok (.skip (signature0 ++ msgs.filter (·.vote.getType = ty₀)) bitmap0
        (sigAndBitmap1.map fun sb => (sb.1 ++ msgs.filter (·.vote.getType = ty₁), sb.2)))
    | _ => .error .voteType
  | .notarFallback signature bitmap0 bitmap1 =>
    match certType.limitsAndVoteTypes.2 with
    | [ty₀, ty₁] => do
      let (bitmap0, bitmap1) ← msgs.foldlM (setNotarFallback ty₀ ty₁) (bitmap0, bitmap1)
      .ok (.notarFallback (signature ++ msgs) bitmap0 bitmap1)
    | _ => .error .voteType

def build [SignerStore] (certType : CertificateType) : BuilderType → Except BuildError Certificate
  | .singleVote signature bitmap => buildCertFromBitmap certType signature bitmap
  | .skip signature0 bitmap0 none => buildCertFromBitmap certType signature0 bitmap0
  | .skip signature0 bitmap0 (some (signature1, bitmap1)) =>
    buildCertFromBitmaps certType (signature0 ++ signature1) bitmap0 bitmap1
  | .notarFallback signature bitmap0 none => buildCertFromBitmap certType signature bitmap0
  | .notarFallback signature bitmap0 (some bitmap1) =>
    buildCertFromBitmaps certType signature bitmap0 bitmap1

end BuilderType

end BlackBull
