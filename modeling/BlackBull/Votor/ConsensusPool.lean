import BlackBull.Lib.Run
import BlackBull.Votor.CertificateBuilder
import BlackBull.Votor.ParentReady
import BlackBull.Votor.SlotStake

/-!
# The consensus pool

`votor/src/consensus_pool.rs`: the votes and certificates a node has received, the certificates it
builds from them, and the events it tells the event handler.
-/

namespace BlackBull

inductive AddVoteError
  | conflictingVoteType (voteType existing : VoteType) (slot : ℕ) (pubkey : Pubkey)
  | epochStakesNotFound
  | unrootedSlot
  | certificate (e : BuildError)
  | invalidRank (rank : ℕ)
  deriving DecidableEq, Repr

inductive ConsensusMessage
  | vote (msg : VoteMessage)
  | certificate (cert : Certificate)
  deriving DecidableEq, Repr

/-- A finalization (`runtime/src/validated_block_finalization.rs`), slow or fast. -/
inductive ValidatedBlockFinalizationCert
  | finalize (finalizeCert notarizeCert : Certificate) (signers : List Pubkey)
  | fastFinalize (cert : Certificate) (signers : List Pubkey)
  deriving DecidableEq, Repr

def ValidatedBlockFinalizationCert.slot : ValidatedBlockFinalizationCert → ℕ
  | finalize finalizeCert _ _ => finalizeCert.certType.slot
  | fastFinalize cert _ => cert.certType.slot

def ValidatedBlockFinalizationCert.isFast : ValidatedBlockFinalizationCert → Bool
  | finalize _ _ _ => false
  | fastFinalize _ _ => true

structure ConsensusPool where
  votePools : OrdMap PoolId VotePool := ∅
  completedCertificates : OrdMap CertificateType Certificate := ∅
  parentReadyTracker : ParentReadyTracker
  highestFinalizedSlotCert : Option ValidatedBlockFinalizationCert := none
  slotStakeCountersMap : OrdMap ℕ SlotStakeCounters := ∅
  lastPrunedSlot : ℕ := 0

inductive PoolOp
  | addMessage (rootBank : RootBank) (myVotePubkey : Pubkey) (message : ConsensusMessage)
  | maybePrune (rootSlot : ℕ)

/-- What a call leaves behind: the events it pushed and what it returned. -/
structure PoolReply where
  events : List VotorEvent := []
  result : Except AddVoteError (Option ℕ × List Certificate) := .ok (none, [])

/-- The certificates a call built from votes, of those it returned. -/
def PoolReply.built (reply : PoolReply) : PoolOp → List Certificate
  | .addMessage _ _ (.vote _) =>
    match reply.result with
    | .ok (_, certs) => certs
    | .error _ => []
  | _ => []

namespace ConsensusPool

def newFromRootBank (bank : RootBank) : ConsensusPool where
  -- to account for genesis and snapshots a default block id is allowed
  parentReadyTracker := .new (bank.slot, bank.blockId.getD 0)

variable (p : ConsensusPool)

def votePool (slot : ℕ) (ty : VoteType) : Option VotePool :=
  p.votePools.get? (toLex (slot, ty))

def slotStakeCounters (slot totalStake : ℕ) : SlotStakeCounters :=
  (p.slotStakeCountersMap.get? slot).getD { totalStake }

def setSlotStakeCounters (slot : ℕ) (c : SlotStakeCounters) : ConsensusPool :=
  { p with slotStakeCountersMap := p.slotStakeCountersMap.insert slot c }

def getFinalizeCert (slot : ℕ) : Option Certificate :=
  p.completedCertificates.get? (.finalize slot)

/-- The first in the order of the map. -/
def getNotarizeCert (slot : ℕ) : Option Certificate :=
  p.completedCertificates.entries.findSome? fun e =>
    match e.1 with
    | .notarize s _ => if s = slot then some e.2 else none
    | _ => none

def highestFinalizedSlot : Option ℕ :=
  p.highestFinalizedSlotCert.map (·.slot)

def updateVotePool (vote : VoteMessage) (key : Pubkey) (stake : ℕ) :
    Except VotorPanic (ConsensusPool × Option ℕ) := do
  let ty := vote.vote.getType
  let pool := (p.votePool vote.vote.slot ty).getD (newVotePool ty)
  let (pool, r) ← pool.addVote key stake vote
  .ok ({ p with votePools := p.votePools.insert (toLex (vote.vote.slot, ty)) pool }, r)

def isConflicting (key : Pubkey) (blockId : Option Hash) : VotePool → Bool
  | .simple pool => pool.hasPrevValidatorVote key
  | .duplicateBlock pool =>
    match blockId with
    | some blockId => pool.hasPrevValidatorVoteForBlock key blockId
    | none => pool.hasPrevValidatorVote key

def hasConflictingVote (slot : ℕ) (ty : VoteType) (key : Pubkey)
    (blockId : Option Hash) : Option VoteType :=
  (conflictingTypes ty).find? fun ty' => (p.votePool slot ty').any (isConflicting key blockId)

def poolStake (blockId : Option Hash) : Option VotePool → Except VotorPanic ℕ
  | none => .ok 0
  | some (.simple pool) => .ok pool.totalStake
  | some (.duplicateBlock pool) =>
    match blockId with
    | some blockId => .ok (pool.totalStakeByBlockId blockId)
    | none => .error .blockId

def accumulatedStake (slot : ℕ) (blockId : Option Hash)
    (types : List VoteType) : Except VotorPanic ℕ :=
  types.foldlM (fun acc ty => do
    let stake ← poolStake blockId (p.votePool slot ty)
    if u64Max < acc + stake then .error .stakeOverflow else .ok (acc + stake)) 0

def poolVotes (blockId : Option Hash) : Option VotePool → Except VotorPanic (List VoteMessage)
  | none => .ok []
  | some (.simple pool) => .ok pool.votes
  | some (.duplicateBlock pool) =>
    match blockId with
    | some blockId => .ok ((pool.votes blockId).getD [])
    | none => .error .blockId

def aggregateVotes (slot : ℕ) (blockId : Option Hash)
    (certType : CertificateType) : Except VotorPanic BuilderType :=
  certType.limitsAndVoteTypes.2.foldlM (fun builder ty => do
    let votes ← poolVotes blockId (p.votePool slot ty)
    match builder.aggregate certType votes with
    | .ok builder => .ok builder
    | .error _ => .error .aggregate) (.new certType)

/-- Whether a certificate is sent again in a standstill: those above the highest finalized slot, and
those that finalized it. -/
def certForStandstill (highestSlot : ℕ) (hasFastFinalize : Bool) (certType : CertificateType) :
    Except VotorPanic Bool :=
  if highestSlot < certType.slot then .ok true
  else if certType.slot = highestSlot then
    match certType, hasFastFinalize with
    | .finalize _, false | .notarize _ _, false | .finalizeFast _ _, true => .ok true
    | .finalizeFast _ _, false => .error .standstill
    | _, _ => .ok false
  else .ok false

def getCertsForStandstill : Except VotorPanic (List Certificate) := do
  let (highestSlot, hasFastFinalize) :=
    (p.highestFinalizedSlotCert.map fun c => (c.slot, c.isFast)).getD (0, false)
  let entries ← p.completedCertificates.entries.filterM fun e =>
    certForStandstill highestSlot hasFastFinalize e.1
  .ok (entries.map (·.2))

section Stakes

variable [SignerStore] (stakes : ℕ → EpochStakes) (rootBank : RootBank)

def getKeyAndStakes (slot rank : ℕ) : Except VotorPanic (Except AddVoteError (Pubkey × ℕ × ℕ)) :=
  match rootBank.epochStakesFromSlot stakes slot with
  | none => .ok (.error .epochStakesNotFound)
  | some epochStakes =>
    match epochStakes.sortedPubkeys[rank]? with
    | none => .ok (.error (.invalidRank rank))
    | some entry =>
      if entry.stake = 0 then .error .zeroStake
      else .ok (.ok (entry.voteAccountPubkey, entry.stake, epochStakes.totalStake))

/-- The vote accounts of a certificate's ranks. The certificate must have one bitmap, no longer
than the rank map. -/
def extractSigners (cert : Certificate) : Except VotorPanic (List Pubkey) :=
  match rootBank.epochStakesFromSlot stakes cert.certType.slot with
  | none => .error .extractSigners
  | some epochStakes =>
    match SignerStore.decode cert.bitmap epochStakes.rankMapLen with
    | some (.base2 ranks) => .ok ((iterOnes ranks).filterMap fun rank =>
        epochStakes.sortedPubkeys[rank]?.map (·.voteAccountPubkey))
    | some (.base3 _ _) | none => .error .extractSigners

def trackNotarFallbackOrStronger (p : ConsensusPool) (block : Block) :
    Except VotorPanic (ConsensusPool × List VotorEvent) := do
  let (t, ev) ← p.parentReadyTracker.addNewNotarFallbackOrStronger block
  .ok ({ p with parentReadyTracker := t }, ev)

def setSlowFinalization (slot : ℕ) (finalizeCert notarizeCert : Certificate)
    (p : ConsensusPool) : Except VotorPanic ConsensusPool :=
  if p.highestFinalizedSlot.all (· < slot) then do
    let signers ← extractSigners stakes rootBank finalizeCert
    .ok { p with highestFinalizedSlotCert := some (.finalize finalizeCert notarizeCert signers) }
  else .ok p

def setFastFinalization (slot : ℕ) (cert : Certificate) (p : ConsensusPool) :
    Except VotorPanic ConsensusPool :=
  if p.highestFinalizedSlot.all (· ≤ slot) then do
    let signers ← extractSigners stakes rootBank cert
    .ok { p with highestFinalizedSlotCert := some (.fastFinalize cert signers) }
  else .ok p

def insertCertificate (certType : CertificateType) (cert : Certificate)
    (p : ConsensusPool) : Except VotorPanic (ConsensusPool × List VotorEvent) :=
  let p := { p with completedCertificates := p.completedCertificates.insert certType cert }
  match certType with
  | .notarizeFallback slot blockId => do
    let (p, ev) ← p.trackNotarFallbackOrStronger (slot, blockId)
    .ok (p, .blockNotarFallback (slot, blockId) :: ev)
  | .skip slot =>
    let (t, ev) := p.parentReadyTracker.addNewSkip slot
    .ok ({ p with parentReadyTracker := t }, ev)
  | .notarize slot blockId => do
    let (p, ev) ← p.trackNotarFallbackOrStronger (slot, blockId)
    match p.getFinalizeCert slot with
    | none => .ok (p, .blockNotarized (slot, blockId) :: ev)
    | some finalizeCert =>
      let p ← setSlowFinalization stakes rootBank slot finalizeCert cert p
      .ok (p, .blockNotarized (slot, blockId) :: ev ++ [.finalized (slot, blockId) false])
  | .finalize slot =>
    match p.getNotarizeCert slot with
    | none => .ok (p, [])
    | some notarizeCert =>
      match notarizeCert.certType.toBlock with
      | none => .error .blockId
      | some (_, blockId) => do
        let p ← setSlowFinalization stakes rootBank slot cert notarizeCert p
        .ok (p, [.finalized (slot, blockId) false])
  | .finalizeFast slot blockId => do
    let (p, ev) ← p.trackNotarFallbackOrStronger (slot, blockId)
    let p ← setFastFinalization stakes rootBank slot cert p
    .ok (p, .finalized (slot, blockId) true :: ev)
  | .genesis slot blockId => p.trackNotarFallbackOrStronger (slot, blockId)

/-- One turn of the loop of `updateCertificates`. An error of `build` ends the loop: later turns
leave it as it is. -/
def updateCertificate (slot : ℕ) (blockId : Option Hash) (totalStake : ℕ)
    (acc : ConsensusPool × List VotorEvent × Except AddVoteError (List Certificate))
    (certType : CertificateType) :
    Except VotorPanic (ConsensusPool × List VotorEvent × Except AddVoteError (List Certificate)) :=
  match acc with
  | (_, _, .error _) => .ok acc
  | (p, ev, .ok certs) =>
    if p.completedCertificates.contains certType then .ok acc
    else do
      let (limit, voteTypes) := certType.limitsAndVoteTypes
      let accumulated ← p.accumulatedStake slot blockId voteTypes
      let ratio ← SlotStakeCounters.fractionOf accumulated totalStake
      if ratio.lt limit then .ok acc
      else do
        let builder ← p.aggregateVotes slot blockId certType
        match builder.build certType with
        | .error e => .ok (p, ev, .error (.certificate e))
        | .ok cert => do
          let (p, ev') ← insertCertificate stakes rootBank certType cert p
          .ok (p, ev ++ ev', .ok (certs ++ [cert]))

/-- For a new vote, checks if any of the related certificates are newly complete. -/
def updateCertificates (vote : Vote) (blockId : Option Hash)
    (totalStake : ℕ) (p : ConsensusPool) :
    Except VotorPanic (ConsensusPool × List VotorEvent × Except AddVoteError (List Certificate)) :=
  (voteToCertTypes vote).foldlM (updateCertificate stakes rootBank vote.slot blockId totalStake)
    (p, [], .ok [])

def addVote (myVotePubkey : Pubkey) (msg : VoteMessage) (p : ConsensusPool) :
    Except VotorPanic (ConsensusPool × List VotorEvent × Except AddVoteError (List Certificate)) := do
  let slot := msg.vote.slot
  match ← getKeyAndStakes stakes rootBank slot msg.rank with
  | .error e => .ok (p, [], .error e)
  | .ok (key, stake, totalStake) =>
    if slot < rootBank.slot then .ok (p, [], .error .unrootedSlot)
    else
      let blockId := msg.vote.blockId
      let ty := msg.vote.getType
      match p.hasConflictingVote slot ty key blockId with
      | some existing => .ok (p, [], .error (.conflictingVoteType ty existing slot key))
      | none => do
        match ← p.updateVotePool msg key stake with
        | (p, none) => .ok (p, [], .ok [])
        | (p, some entryStake) => do
          let counters := p.slotStakeCounters slot totalStake
          let (counters, ev) ← counters.addVote msg.vote entryStake (myVotePubkey = key)
          let p := p.setSlotStakeCounters slot counters
          let (p, ev', result) ← updateCertificates stakes rootBank msg.vote blockId totalStake p
          .ok (p, ev ++ ev', result)

def addCertificate (cert : Certificate) (p : ConsensusPool) :
    Except VotorPanic (ConsensusPool × List VotorEvent × Except AddVoteError (List Certificate)) :=
  if cert.certType.slot < rootBank.slot then .ok (p, [], .error .unrootedSlot)
  else if p.completedCertificates.contains cert.certType then .ok (p, [], .ok [])
  else do
    let (p, ev) ← insertCertificate stakes rootBank cert.certType cert p
    .ok (p, ev, .ok [cert])

def newFinalizedSlot (before after : Option ℕ) : Option ℕ :=
  match before, after with
  | _, none => none
  | none, some s => some s
  | some s₀, some s => if s₀ < s then some s else none

def addMessage (myVotePubkey : Pubkey) (message : ConsensusMessage)
    (p : ConsensusPool) : Except VotorPanic (ConsensusPool × PoolReply) := do
  let (p', events, result) ← match message with
    | .vote msg => addVote stakes rootBank myVotePubkey msg p
    | .certificate cert => addCertificate stakes rootBank cert p
  let newFinalizedSlot := newFinalizedSlot p.highestFinalizedSlot p'.highestFinalizedSlot
  .ok (p', ⟨events, result.map (newFinalizedSlot, ·)⟩)

def maybePrune (rootSlot : ℕ) (p : ConsensusPool) : ConsensusPool :=
  if rootSlot ≤ p.lastPrunedSlot then p
  else
    { p with
      completedCertificates := p.completedCertificates.retain fun c _ => rootSlot ≤ c.slot
      votePools := p.votePools.retain fun id _ => toLex (rootSlot, VoteType.finalize) ≤ id
      slotStakeCountersMap := p.slotStakeCountersMap.retain fun s _ => rootSlot ≤ s
      parentReadyTracker := p.parentReadyTracker.setRoot rootSlot
      lastPrunedSlot := rootSlot }

def step (p : ConsensusPool) (op : PoolOp) :
    Except VotorPanic (ConsensusPool × List (PoolOp × PoolReply)) :=
  match op with
  | .addMessage rootBank myVotePubkey message => do
    let (p, reply) ← addMessage stakes rootBank myVotePubkey message p
    .ok (p, [(op, reply)])
  | .maybePrune rootSlot => .ok (p.maybePrune rootSlot, [(op, {})])

end Stakes

end ConsensusPool

end BlackBull
