import BlackBull.Tower.Lockout
import BlackBull.Votor.Messages

/-!
# Vote accounts

The vote state of `programs/vote/src/vote_state/handler.rs` and the instructions of
`programs/vote/src/vote_state/mod.rs` that change its votes.
-/

namespace BlackBull

inductive VoteError
  | voteTooOld
  | slotsMismatch
  | slotHashMismatch
  | emptySlots
  | timestampTooOld
  | lockoutConflict
  | newVoteStateLockoutMismatch
  | slotsNotOrdered
  | confirmationsNotOrdered
  | zeroConfirmations
  | confirmationTooLarge
  | rootRollBack
  | confirmationRollBack
  | slotSmallerThanRoot
  | tooManyVotes
  | votesTooOldAllFiltered
  | rootOnDifferentFork
  | assertionFailed
  deriving DecidableEq, Repr

/-- An instruction fails with an error, or an assertion of the code does. -/
inductive VoteFailure
  | error (e : VoteError)
  | panicked
  deriving DecidableEq, Repr

structure LandedVote extends Lockout where
  latency : ℕ
  deriving DecidableEq, Repr

namespace LandedVote

def ofLockout (v : Lockout) : LandedVote := ⟨v, 0⟩

def confirm (v : LandedVote) : LandedVote := { v with toLockout := v.toLockout.confirm }

end LandedVote

abbrev SlotHash := ℕ × Hash

structure EpochCredits where
  epoch : ℕ
  credits : ℕ
  prevCredits : ℕ
  deriving DecidableEq, Repr

structure VoteState where
  votes : List LandedVote := []
  rootSlot : Option ℕ := none
  epochCredits : List EpochCredits := []
  lastTimestamp : ℕ × ℤ := (0, 0)
  deriving DecidableEq, Repr

def voteCreditsGraceSlots : ℕ := 2

def voteCreditsMaximumPerSlot : ℕ := 16

def maxEpochCreditsHistory : ℕ := 64

def computeVoteLatency (votedForSlot currentSlot : ℕ) : ℕ := min (currentSlot - votedForSlot) 255

/-- The credits of a vote that landed with a latency; 0 stands for an unknown one. -/
def creditsForLatency (latency : ℕ) : ℕ :=
  if latency = 0 then 1
  else if latency ≤ voteCreditsGraceSlots then voteCreditsMaximumPerSlot
  else
    let diff := latency - voteCreditsGraceSlots
    if voteCreditsMaximumPerSlot ≤ diff then 1 else voteCreditsMaximumPerSlot - diff

namespace VoteState

variable (s : VoteState)

def tower : TowerVoteState := ⟨s.votes.map (·.toLockout), s.rootSlot⟩

def lastVotedSlot : Option ℕ := s.votes.getLast?.map (·.slot)

def containsSlot (slot : ℕ) : Bool := s.votes.any (·.slot = slot)

def creditsForVoteAtIndex (index : ℕ) : ℕ :=
  creditsForLatency ((s.votes[index]?.map (·.latency)).getD 0)

def openEpoch (epoch : ℕ) (epochCredits : List EpochCredits) : List EpochCredits :=
  match epochCredits.getLast? with
  | none => [⟨epoch, 0, 0⟩]
  | some last =>
    if epoch = last.epoch then epochCredits
    else
      let moved := if last.credits ≠ last.prevCredits then
          epochCredits ++ [⟨epoch, last.credits, last.credits⟩]
        else epochCredits.dropLast ++ [{ last with epoch }]
      if maxEpochCreditsHistory < moved.length then moved.tail else moved

def incrementCredits (epoch credits : ℕ) : VoteState :=
  { s with
    epochCredits := (openEpoch epoch s.epochCredits).modifyLast fun last =>
      { last with credits := saturatingAdd last.credits credits } }

def processTimestamp (slot : ℕ) (timestamp : ℤ) : Except VoteFailure VoteState :=
  if (slot < s.lastTimestamp.1 ∨ timestamp < s.lastTimestamp.2)
      ∨ slot = s.lastTimestamp.1 ∧ (slot, timestamp) ≠ s.lastTimestamp ∧ s.lastTimestamp.1 ≠ 0 then
    .error (.error .timestampTooOld)
  else .ok { s with lastTimestamp := (slot, timestamp) }

def stamp (slot : ℕ) : Option ℤ → Except VoteFailure VoteState
  | none => .ok s
  | some timestamp => s.processTimestamp slot timestamp

def processNextVoteSlot (epoch currentSlot nextVoteSlot : ℕ) : VoteState :=
  if s.lastVotedSlot.any (nextVoteSlot ≤ ·) then s
  else
    let popped := { s with votes := popExpiredVotes (·.toLockout) nextVoteSlot s.votes }
    let landedVote : LandedVote :=
      ⟨Lockout.new nextVoteSlot, computeVoteLatency nextVoteSlot currentSlot⟩
    let (rooted, votes) := popRooted popped.votes
    let paid := match rooted with
      | none => popped
      | some v => { popped with rootSlot := some v.slot }.incrementCredits epoch
          (popped.creditsForVoteAtIndex 0)
    { paid with votes := doubleLockouts (·.toLockout) LandedVote.confirm (votes ++ [landedVote]) }

/-- The loop of `check_and_filter_proposed_vote_state`. `index` and `previous` are the index of the
next proposed lockout and the slot before it; `passed` is the newest slot hash that was passed, and
none while the loop is at the oldest. It gives the indices to filter, what is left of the proposal
and the last slot hash passed. -/
def checkProposed (s : VoteState) (earliestSlotHashInHistory : ℕ) (rootToCheck : Option ℕ)
    (index : ℕ) (previous : Option ℕ) (passed : Option SlotHash) (toFilter : List ℕ)
    (proposed : List Lockout) (slotHashes : List SlotHash) :
    Except VoteFailure (List ℕ × List Lockout × Option SlotHash) :=
  match proposed, slotHashes with
  | [], _ | _, [] => .ok (toFilter, proposed, passed)
  | vote :: proposed', ancestor :: slotHashes' =>
    let proposedVoteSlot := rootToCheck.getD vote.slot
    if rootToCheck.isNone && previous.any (proposedVoteSlot ≤ ·) then
      .error (.error .slotsNotOrdered)
    else if proposedVoteSlot < ancestor.1 then
      if passed.isNone then
        -- too old to be in the history
        if earliestSlotHashInHistory ≤ proposedVoteSlot then .error (.error .assertionFailed)
        else
          match rootToCheck with
          | some _ => checkProposed s earliestSlotHashInHistory none index previous passed toFilter
              (vote :: proposed') (ancestor :: slotHashes')
          | none =>
            let toFilter := if s.containsSlot proposedVoteSlot then toFilter else toFilter ++ [index]
            checkProposed s earliestSlotHashInHistory none (index + 1) (some vote.slot) passed
              toFilter proposed' (ancestor :: slotHashes')
      else if rootToCheck.isSome then .error (.error .rootOnDifferentFork)
      else .error (.error .slotsMismatch)
    else if ancestor.1 < proposedVoteSlot then
      checkProposed s earliestSlotHashInHistory rootToCheck index previous (some ancestor) toFilter
        (vote :: proposed') slotHashes'
    else
      match rootToCheck with
      | some _ => checkProposed s earliestSlotHashInHistory none index previous passed toFilter
          (vote :: proposed') (ancestor :: slotHashes')
      | none => checkProposed s earliestSlotHashInHistory none (index + 1) (some vote.slot)
          (some ancestor) toFilter proposed' slotHashes'
termination_by proposed.length + slotHashes.length + rootToCheck.isSome.toNat

def retainUnfiltered : ℕ → List ℕ → List Lockout → List Lockout
  | _, _, [] => []
  | index, [], vote :: votes => vote :: retainUnfiltered (index + 1) [] votes
  | index, i :: toFilter, vote :: votes =>
    if index = i then retainUnfiltered (index + 1) toFilter votes
    else vote :: retainUnfiltered (index + 1) (i :: toFilter) votes

/-- A root that is too old to be in the history is replaced by the latest vote that is not newer, or
else by the root of the state. -/
def proposedRootInHistory (earliestSlotHashInHistory : ℕ) :
    Option ℕ → Option ℕ
  | none => none
  | some root =>
    if root < earliestSlotHashInHistory then
      match s.votes.reverse.find? (·.slot ≤ root) with
      | some vote => some vote.slot
      | none => s.rootSlot
    else some root

/-- Checks the proposed vote state with the current and slot hashes, making adjustments to the root /
filtering votes as needed. Slot hashes are newest first. -/
def checkAndFilterProposedVoteState (proposedLockouts : List Lockout)
    (proposedRoot : Option ℕ) (proposedHash : Hash) (slotHashes : List SlotHash) :
    Except VoteFailure (List Lockout × Option ℕ) :=
  match proposedLockouts.getLast?, slotHashes.getLast? with
  | none, _ => .error (.error .emptySlots)
  | some lastProposed, earliest =>
    if s.lastVotedSlot.any (lastProposed.slot ≤ ·) then .error (.error .voteTooOld)
    else
      match earliest with
      | none => .error (.error .slotsMismatch)
      | some (earliestSlotHashInHistory, _) =>
        if lastProposed.slot < earliestSlotHashInHistory then .error (.error .voteTooOld)
        else do
          let root := s.proposedRootInHistory earliestSlotHashInHistory proposedRoot
          let (toFilter, left, passed) ← s.checkProposed earliestSlotHashInHistory root 0 none none []
            proposedLockouts slotHashes.reverse
          if left ≠ [] then .error (.error .slotsMismatch)
          else
            match passed with
            | none => .error .panicked
            | some (slot, hash) =>
              if lastProposed.slot ≠ slot then .error .panicked
              else if hash ≠ proposedHash then .error (.error .slotHashMismatch)
              else .ok (retainUnfiltered 0 toFilter proposedLockouts, root)

/-- The order and the range of the proposed votes, each with the one before it. -/
def checkNewVotes (newRoot : Option ℕ) :
    Option LandedVote → List LandedVote → Except VoteFailure Unit
  | _, [] => .ok ()
  | previous, vote :: votes =>
    if vote.confirmationCount = 0 then .error (.error .zeroConfirmations)
    else if maxLockoutHistory < vote.confirmationCount then .error (.error .confirmationTooLarge)
    else if newRoot.any (fun root => vote.slot ≤ root && root ≠ 0) then
      .error (.error .slotSmallerThanRoot)
    else
      match previous with
      | none => checkNewVotes newRoot (some vote) votes
      | some previous =>
        if vote.slot ≤ previous.slot then .error (.error .slotsNotOrdered)
        else if previous.confirmationCount ≤ vote.confirmationCount then
          .error (.error .confirmationsNotOrdered)
        else if previous.lastLockedOutSlot < vote.slot then
          .error (.error .newVoteStateLockoutMismatch)
        else checkNewVotes newRoot (some vote) votes

/-- The current votes that are left and the new ones: what is missing must be expired, what is kept
must not lose confirmations and keeps its latency. -/
def mergeVotes (current new : List LandedVote) : Except VoteFailure (List LandedVote) :=
  match current, new with
  | [], new => .ok new
  | _ :: _, [] => .ok []
  | vote :: current', newVote :: new' =>
    if vote.slot < newVote.slot then
      if newVote.slot ≤ vote.lastLockedOutSlot then .error (.error .lockoutConflict)
      else mergeVotes current' (newVote :: new')
    else if vote.slot = newVote.slot then
      if newVote.confirmationCount < vote.confirmationCount then
        .error (.error .confirmationRollBack)
      else (mergeVotes current' new').map ({ newVote with latency := vote.latency } :: ·)
    else (mergeVotes (vote :: current') new').map (newVote :: ·)
termination_by current.length + new.length

def rootedVotes : Option ℕ → List LandedVote
  | none => []
  | some newRoot => s.votes.takeWhile (·.slot ≤ newRoot)

def fillLatency (currentSlot : ℕ) (v : LandedVote) : LandedVote :=
  if v.latency = 0 then { v with latency := computeVoteLatency v.slot currentSlot } else v

def processNewVoteState (newState : List LandedVote) (newRoot : Option ℕ)
    (timestamp : Option ℤ) (epoch currentSlot : ℕ) : Except VoteFailure VoteState :=
  match newState.getLast? with
  | none => .error .panicked
  | some last =>
    if maxLockoutHistory < newState.length then .error (.error .tooManyVotes)
    else if s.rootSlot.any (fun root => newRoot.all (· < root)) then .error (.error .rootRollBack)
    else do
      checkNewVotes newRoot none newState
      let rooted := (s.rootedVotes newRoot).length
      let earnedCredits := ((List.range rooted).map s.creditsForVoteAtIndex).sum
      let merged ← mergeVotes (s.votes.drop rooted) newState
      let landed := merged.map (fillLatency currentSlot)
      let paid := if s.rootSlot ≠ newRoot then s.incrementCredits epoch earnedCredits else s
      let stamped ← paid.stamp last.slot timestamp
      .ok { stamped with rootSlot := newRoot, votes := landed }

/-- `process_new_vote_state` on the state it changes, with what an error leaves of it. -/
def processNewVoteStateInPlace (newState : List LandedVote) (newRoot : Option ℕ)
    (timestamp : Option ℤ) (epoch currentSlot : ℕ) : EStateM VoteFailure VoteState Unit := do
  let s ← get
  let some last := newState.getLast? | throw .panicked
  if maxLockoutHistory < newState.length then throw (.error .tooManyVotes)
  if s.rootSlot.any (fun root => newRoot.all (· < root)) then throw (.error .rootRollBack)
  ofExcept (checkNewVotes newRoot none newState)
  let rooted := (s.rootedVotes newRoot).length
  let earnedCredits := ((List.range rooted).map s.creditsForVoteAtIndex).sum
  let merged ← ofExcept (mergeVotes (s.votes.drop rooted) newState)
  let landed := merged.map (fillLatency currentSlot)
  set (if s.rootSlot ≠ newRoot then s.incrementCredits epoch earnedCredits else s)
  set (← ofExcept ((← get).stamp last.slot timestamp))
  modify ({ · with rootSlot := newRoot, votes := landed })

/-- The loop of `check_slots_are_valid`, with what is left of the vote and the last slot hash
passed. -/
def checkSlots (s : VoteState) (passed : Option SlotHash) (voteSlots : List ℕ)
    (slotHashes : List SlotHash) : List ℕ × Option SlotHash :=
  match voteSlots, slotHashes with
  | [], _ | _, [] => (voteSlots, passed)
  | slot :: voteSlots', ancestor :: slotHashes' =>
    if s.lastVotedSlot.any (slot ≤ ·) then
      checkSlots s passed voteSlots' (ancestor :: slotHashes')
    else if slot ≠ ancestor.1 then checkSlots s (some ancestor) (slot :: voteSlots') slotHashes'
    else checkSlots s (some ancestor) voteSlots' slotHashes'
termination_by voteSlots.length + slotHashes.length

def checkSlotsAreValid (voteSlots : List ℕ) (voteHash : Hash)
    (slotHashes : List SlotHash) : Except VoteFailure Unit :=
  match s.checkSlots none voteSlots slotHashes.reverse with
  | (_, none) => .error (.error .voteTooOld)
  | (_ :: _, some _) => .error (.error .slotsMismatch)
  | ([], some (_, hash)) =>
    if hash ≠ voteHash then .error (.error .slotHashMismatch) else .ok ()

def processVote (slots : List ℕ) (hash : Hash) (slotHashes : List SlotHash)
    (epoch currentSlot : ℕ) : Except VoteFailure VoteState :=
  if slots = [] then .error (.error .emptySlots)
  else
    let earliestSlotInHistory := (slotHashes.getLast?.map (·.1)).getD 0
    let voteSlots := slots.filter (earliestSlotInHistory ≤ ·)
    if voteSlots = [] then .error (.error .votesTooOldAllFiltered)
    else do
      s.checkSlotsAreValid voteSlots hash slotHashes
      .ok (voteSlots.foldl (fun s slot => s.processNextVoteSlot epoch currentSlot slot) s)

end VoteState

inductive VoteInstruction
  | vote (slots : List ℕ) (hash : Hash)
  | towerSync (lockouts : List Lockout) (root : Option ℕ) (hash : Hash) (timestamp : Option ℤ)
  deriving DecidableEq, Repr

/-- The sysvars an instruction reads; slot hashes are newest first. -/
structure VoteClock where
  slotHashes : List SlotHash
  epoch : ℕ
  slot : ℕ
  deriving DecidableEq, Repr

namespace VoteState

def doProcessTowerSync (s : VoteState) (clock : VoteClock) (lockouts : List Lockout)
    (root : Option ℕ) (hash : Hash) (timestamp : Option ℤ) : Except VoteFailure VoteState := do
  let (lockouts, root) ← s.checkAndFilterProposedVoteState lockouts root hash clock.slotHashes
  s.processNewVoteState (lockouts.map LandedVote.ofLockout) root timestamp clock.epoch clock.slot

def execute (s : VoteState) (clock : VoteClock) : VoteInstruction → Except VoteFailure VoteState
  | .vote slots hash => s.processVote slots hash clock.slotHashes clock.epoch clock.slot
  | .towerSync lockouts root hash timestamp =>
    s.doProcessTowerSync clock lockouts root hash timestamp

/-- What a transaction leaves of the account: a failed one changes nothing. -/
def commit (s : VoteState) (p : VoteClock × VoteInstruction) : VoteState :=
  match s.execute p.1 p.2 with
  | .ok s' => s'
  | .error _ => s

end VoteState

end BlackBull
