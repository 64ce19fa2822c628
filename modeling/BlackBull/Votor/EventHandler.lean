import BlackBull.Votor.VoteHistory
import BlackBull.Votor.VotePool

/-!
# The event handler

`votor/src/event_handler.rs`, with what it calls in `voting_utils.rs` and `root_utils.rs`: the votes
a node casts on the events of its pool, its timers and replay.
-/

namespace BlackBull

inductive GenerateVoteTxResult
  | nonVoting
  | hotSpare
  | waitForStartupVerification
  | waitToVoteSlot (slot : ℕ)
  | noRankFound
  | noAuthorizedVoter
  | voteAccountNotFound
  | consensusMessage (rank : ℕ)
  deriving DecidableEq, Repr

inductive Outlet
  | ownVotes
  | savedVoteHistory
  | commitment
  | consensusMetrics
  | repair
  | leaderWindow
  | bls
  deriving DecidableEq, Repr

/-- What a turn of the event loop meets outside the handler. -/
structure HandlerEnv where
  generateVoteTx : Vote → GenerateVoteTxResult
  connected : Outlet → Bool
  banks : ℕ → Option ReplayBank
  identity : Pubkey
  restore : Pubkey → Option VoteHistory

inductive Stop
  | panic (p : VotorPanic)
  | disconnected (outlet : Outlet)
  | setIdentity
  deriving DecidableEq, Repr

inductive HandlerLog
  | received (event : VotorEvent)
  | cast (vote : Vote)
  | ownVote (msg : VoteMessage) (isRefresh : Bool)
  | pushVote (msg : VoteMessage)
  | setTimeouts (slot : ℕ) (standstillSlot : Option ℕ)
  | fetchBlock (block : Block)
  | commitNotarize (slot : ℕ)
  | produceWindow (startSlot : ℕ)
  deriving DecidableEq, Repr

structure Handler where
  myPubkey : Pubkey
  voteHistory : VoteHistory
  pendingBlocks : OrdMap ℕ (List (Block × Block)) := ∅
  finalizedBlocks : List Block := []
  receivedShred : List ℕ := []
  standstillSlot : Option ℕ := none
  highestParentReady : ℕ × Block := (0, (0, 0))
  root : ℕ
  votes : List VoteMessage := []
  log : List HandlerLog := []

abbrev HandlerM := EStateM Stop Handler

def firstOfConsecutiveLeaderSlots (slot : ℕ) : ℕ :=
  slot / numConsecutiveLeaderSlots * numConsecutiveLeaderSlots

def lastOfConsecutiveLeaderSlots (slot : ℕ) : ℕ :=
  firstOfConsecutiveLeaderSlots slot + numConsecutiveLeaderSlots - 1

def leaderSlotIndex (slot : ℕ) : ℕ := slot % numConsecutiveLeaderSlots

namespace Handler

def check {α : Type} : Except VotorPanic α → HandlerM α
  | .ok a => pure a
  | .error p => throw (.panic p)

def record (entry : HandlerLog) : HandlerM Unit := modify fun h => { h with log := h.log ++ [entry] }

variable (env : HandlerEnv)

def send (outlet : Outlet) : HandlerM Unit :=
  if env.connected outlet then pure () else throw (.disconnected outlet)

def setVoteHistory (vh : VoteHistory) : HandlerM Unit := modify fun h => { h with voteHistory := vh }

def enterVote (vote : Vote) : HandlerM Unit := do
  let h ← get
  let vh ← check (h.voteHistory.addVote vote)
  setVoteHistory vh
  record (.cast vote)

def sendVote (vote : Vote) (isRefresh : Bool) : HandlerM Unit :=
  match env.generateVoteTx vote with
  | .consensusMessage rank => do
    send env .ownVotes
    record (.ownVote ⟨vote, rank⟩ isRefresh)
    send env .savedVoteHistory
    modify fun h => { h with votes := h.votes ++ [⟨vote, rank⟩] }
  | _ => pure ()

/-- Cast or refresh a vote. A vote that gets no message is entered into the history all the same. -/
def generateVoteMessage (vote : Vote) (isRefresh : Bool) : HandlerM Unit :=
  if isRefresh then sendVote env vote true
  else do
    enterVote vote
    sendVote env vote false

def tryFinal (block : Block) : HandlerM Unit := do
  let h ← get
  if !h.voteHistory.isBlockNotarized block then pure ()
  else if ← check (h.voteHistory.isItsOver block.1) then pure ()
  else if ← check (h.voteHistory.badWindow block.1) then pure ()
  else if (← check (h.voteHistory.getVotedNotar block.1)) ≠ some block.2 then pure ()
  else generateVoteMessage env (.finalize block.1) false

/-- Whether the block may be voted on: parent ready for the first of a window, or a vote for the
parent, just before it. -/
def parentAllows (vh : VoteHistory) (slot : ℕ) (parentBlock : Block) : Except VotorPanic Bool :=
  if leaderSlotIndex slot = 0 ∨ slot = 1 then .ok (vh.isParentReady slot parentBlock)
  else if parentBlock.1 + 1 ≠ slot then .ok false
  else do
    let parent ← vh.getVotedNotar parentBlock.1
    .ok (parent = some parentBlock.2)

def tryNotar (block parentBlock : Block) : HandlerM Bool := do
  let h ← get
  if ← check (h.voteHistory.hasVoted block.1) then pure false
  else if !(← check (parentAllows h.voteHistory block.1 parentBlock)) then pure false
  else do
    generateVoteMessage env (.notarize block.1 block.2) false
    send env .commitment
    record (.commitNotarize block.1)
    modify fun h => { h with pendingBlocks := h.pendingBlocks.remove block.1 }
    tryFinal env block
    pure true

def checkPendingBlocks : HandlerM Unit := do
  let h ← get
  h.pendingBlocks.values.flatten.forM fun b => do
    let _ ← tryNotar env b.1 b.2
    pure ()

def trySkip (slot : ℕ) : HandlerM Unit := do
  let h ← get
  if ← check (h.voteHistory.hasVoted slot) then pure ()
  else generateVoteMessage env (.skip slot) false

def trySkipWindow (slot : ℕ) : HandlerM Unit := do
  let h ← get
  let start := max (max (firstOfConsecutiveLeaderSlots slot) h.root) 1
  (List.range' start (lastOfConsecutiveLeaderSlots slot + 1 - start)).forM (trySkip env)

def refreshVotes (highestFinalizedSlot : ℕ) : HandlerM Unit := do
  let h ← get
  (h.voteHistory.votesCastSince highestFinalizedSlot).forM (generateVoteMessage env · true)

def rootable (h : Handler) (block : Block) : Except VotorPanic Bool :=
  match env.banks block.1 with
  | none => .ok false
  | some bank =>
    if h.root < block.1 then do
      let voted ← h.voteHistory.hasVoted block.1
      .ok (voted ∧ bank.isFrozen ∧ bank.blockId = some block.2)
    else .ok false

def setRoot (newRoot : ℕ) (h : Handler) : Handler :=
  { h with
    voteHistory := h.voteHistory.setRoot newRoot
    pendingBlocks := h.pendingBlocks.retain fun s _ => newRoot ≤ s
    finalizedBlocks := h.finalizedBlocks.filter (newRoot ≤ ·.1)
    receivedShred := h.receivedShred.filter (newRoot ≤ ·)
    root := newRoot }

def checkRootableBlocks : HandlerM Unit := do
  let h ← get
  let slots ← check (h.finalizedBlocks.filterM (rootable env h))
  match (slots.map (·.1)).max? with
  | none => pure ()
  | some newRoot => modify (setRoot newRoot)

/-- The parent for which parent ready should be added, if the block is finalized and replayed but
the window never was parent ready. -/
def addMissingParentReady (block : Block) (h : Handler) : Option Block :=
  let first := firstOfConsecutiveLeaderSlots block.1
  if first = block.1 ∨ first = 0 then none
  else if h.voteHistory.highestParentReadySlot.any (first ≤ ·) ∨ block ∉ h.finalizedBlocks then none
  else do
    let bank ← env.banks block.1
    if !bank.isFrozen ∨ bank.blockId ≠ some block.2 then none
    else do
      let (parentSlot, parentBlockId) ← bank.parent
      let parentBlockId ← parentBlockId
      some (parentSlot, parentBlockId)

def setTimeouts (should : Bool) (slot : ℕ) (standstillSlot : Option ℕ) : HandlerM Unit :=
  if should then record (.setTimeouts slot standstillSlot) else pure ()

def handleParentReadyEvent (slot : ℕ) (parentBlock : Block) : HandlerM Unit := do
  let h ← get
  let (vh, shouldSetTimeouts) := h.voteHistory.addParentReady slot parentBlock
  setVoteHistory vh
  checkPendingBlocks env
  setTimeouts shouldSetTimeouts slot h.standstillSlot
  modify fun h =>
    if h.highestParentReady.1 < slot then { h with highestParentReady := (slot, parentBlock) } else h

def handleMissingParentReady (slot : ℕ) (block : Block) : HandlerM Unit := do
  let h ← get
  match addMissingParentReady env block h with
  | none => pure ()
  | some parentBlock => handleParentReadyEvent env slot parentBlock

def handleSetIdentity : HandlerM Unit := do
  let h ← get
  if h.myPubkey ≠ env.identity ∨ h.voteHistory.nodePubkey ≠ env.identity then do
    modify fun h => { h with myPubkey := env.identity }
    match env.restore env.identity with
    | none => throw .setIdentity
    | some vh => setVoteHistory vh
  else pure ()

def requestRepair (block : Block) : HandlerM Unit := do
  send env .repair
  record (.fetchBlock block)

def addPending (slot : ℕ) (block parentBlock : Block) (h : Handler) : Handler :=
  let pending := (h.pendingBlocks.get? slot).getD [] ++ [(block, parentBlock)]
  { h with pendingBlocks := h.pendingBlocks.insert slot pending }

def voteOrKeep (slot : ℕ) (block parentBlock : Block) : HandlerM Unit := do
  if ← tryNotar env block parentBlock then checkPendingBlocks env
  else do
    let h ← get
    if ← check (h.voteHistory.hasVoted slot) then pure ()
    else modify (addPending slot block parentBlock)

def handleBlock (slot : ℕ) (bank : ReplayBank) : HandlerM Unit := do
  send env .consensusMetrics
  match bank.blockId with
  | none => throw (.panic .bankBlockId)
  | some blockId => do
    let block := (bank.slot, blockId)
    -- the child of genesis and of a snapshot has a default parent block id
    voteOrKeep env slot block (bank.parentSlot, bank.parentBlockId.getD 0)
    checkRootableBlocks env
    handleMissingParentReady env slot block

/-- The end of a slot within its window starts the next one, for the metrics. -/
def sendStartOfSlot (slot : ℕ) : HandlerM Unit :=
  if slot ≠ lastOfConsecutiveLeaderSlots slot then send env .consensusMetrics else pure ()

def handleEvent : VotorEvent → HandlerM Unit
  | .block slot bank => handleBlock env slot bank
  | .blockNotarized block => do
    modify fun h => { h with voteHistory := h.voteHistory.addBlockNotarized block }
    tryFinal env block
    requestRepair env block
  | .blockNotarFallback block => requestRepair env block
  | .firstShred slot => modify fun h => { h with receivedShred := slot :: h.receivedShred }
  | .parentReady slot parentBlock => do
    send env .consensusMetrics
    handleParentReadyEvent env slot parentBlock
  | .timeoutCrashedLeader slot => do
    let h ← get
    if (← check (h.voteHistory.hasVoted slot)) || decide (slot ∈ h.receivedShred) then pure ()
    else trySkipWindow env slot
  | .timeout slot => do
    sendStartOfSlot env slot
    let h ← get
    if ← check (h.voteHistory.hasVoted slot) then pure () else trySkipWindow env slot
  | .safeToNotar block => do
    trySkipWindow env block.1
    let h ← get
    if ← check (h.voteHistory.isItsOver block.1) then pure ()
    else if ← check (h.voteHistory.hasVotedNotarFallback block.1 block.2) then pure ()
    else generateVoteMessage env (.notarizeFallback block.1 block.2) false
  | .safeToSkip slot => do
    trySkipWindow env slot
    let h ← get
    if ← check (h.voteHistory.isItsOver slot) then pure ()
    else if ← check (h.voteHistory.hasVotedSkipFallback slot) then pure ()
    else generateVoteMessage env (.skipFallback slot) false
  | .produceWindow startSlot =>
    if env.connected .leaderWindow then record (.produceWindow startSlot)
    else throw (.panic .leaderWindow)
  | .finalized block _ => do
    modify fun h => { h with finalizedBlocks := block :: h.finalizedBlocks }
    requestRepair env block
    checkRootableBlocks env
    modify fun h =>
      if h.standstillSlot.any (· < block.1) then { h with standstillSlot := none } else h
    handleMissingParentReady env block.1 block
    send env .consensusMetrics
  | .standstill highestFinalizedSlot => do
    modify fun h => { h with standstillSlot := some (h.standstillSlot.getD highestFinalizedSlot) }
    refreshVotes env highestFinalizedSlot
  | .setIdentity => handleSetIdentity env

def pushVotes : HandlerM Unit := do
  let h ← get
  h.votes.forM fun msg => do
    send env .bls
    record (.pushVote msg)

def turn (e : VotorEvent × HandlerEnv) : HandlerM Unit := do
  let h ← get
  if e.1.shouldIgnore h.root then pure ()
  else do
    modify fun h => { h with votes := [] }
    record (.received e.1)
    handleEvent e.2 e.1
    pushVotes e.2

def eventLoop (events : List (VotorEvent × HandlerEnv)) : HandlerM Unit := events.forM turn

def new (myPubkey : Pubkey) (root : ℕ) : Handler :=
  { myPubkey, voteHistory := .new myPubkey 0, root }

end Handler

end BlackBull
