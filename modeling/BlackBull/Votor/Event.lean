import BlackBull.Votor.Messages

/-!
# Votor events

The events the votor threads exchange (`votor/src/event.rs`).
-/

namespace BlackBull

structure ReplayBank where
  slot : ℕ
  blockId : Option Hash
  parentSlot : ℕ
  parentBlockId : Option Hash
  isFrozen : Bool
  /-- The parent bank, if it is still held: its slot and block id. -/
  parent : Option (ℕ × Option Hash)
  deriving DecidableEq, Repr

inductive VotorEvent
  | block (slot : ℕ) (bank : ReplayBank)
  | blockNotarized (block : Block)
  | blockNotarFallback (block : Block)
  | firstShred (slot : ℕ)
  | parentReady (slot : ℕ) (parentBlock : Block)
  | timeoutCrashedLeader (slot : ℕ)
  | timeout (slot : ℕ)
  | safeToNotar (block : Block)
  | safeToSkip (slot : ℕ)
  | produceWindow (startSlot : ℕ)
  | finalized (block : Block) (isFastFinalization : Bool)
  | standstill (highestFinalizedSlot : ℕ)
  | setIdentity
  deriving DecidableEq, Repr

def VotorEvent.shouldIgnore (root : ℕ) : VotorEvent → Bool
  | .block s _ | .timeout s | .safeToSkip s | .timeoutCrashedLeader s | .firstShred s
  | .safeToNotar (s, _) | .finalized (s, _) _ | .blockNotarized (s, _) | .blockNotarFallback (s, _)
  | .parentReady s _ | .produceWindow s => s ≤ root
  | .standstill s => s < root
  | .setIdentity => false

def VotorEvent.isFallback : VotorEvent → Bool
  | .safeToNotar _ | .safeToSkip _ => true
  | _ => false

inductive VotorPanic
  /-- `status.notar_fallbacks.len() <= MAX_NOTAR_FALLBACK_BLOCKS` -/
  | notarFallbackBlocks
  /-- A vote without a block id met a pool that counts for each block. -/
  | blockId
  | zeroStake
  /-- `NonZeroU64::new(total_stake).unwrap()` -/
  | zeroTotalStake
  | stakeOverflow
  /-- `cert_builder.aggregate(..).unwrap()` -/
  | aggregate
  /-- `extract_signers(..).expect("Certificate should have been validated")` -/
  | extractSigners
  | standstill
  /-- `slot >= self.root` in the accessors of the vote history. -/
  | voteHistoryRoot
  /-- One of the assertions of `VoteHistory::add_vote`. -/
  | addVote
  /-- `bank.block_id().expect("Block id must be set upstream")` -/
  | bankBlockId
  /-- `leader_window_info_sender.send(window_info).unwrap()` -/
  | leaderWindow
  deriving DecidableEq, Repr

end BlackBull
