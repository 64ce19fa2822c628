import BlackBull.Lib.OrdMap
import BlackBull.Votor.Event

/-!
# Stakes and vote pools

What the consensus pool reads of a bank (`runtime/src/epoch_stakes.rs`), and the two kinds of pool
of `votor/src/consensus_pool/vote_pool.rs`: one that counts all votes of a slot together, and one
that counts them for each block.
-/

namespace BlackBull

structure VoteMessage where
  vote : Vote
  rank : ℕ
  deriving DecidableEq, Repr

structure BLSPubkeyStakeEntry where
  voteAccountPubkey : Pubkey
  blsPubkey : ℕ
  stake : ℕ
  deriving DecidableEq, Repr

/-- The stakes of an epoch. Only vote accounts with stake have a rank, each has one, and the total
also counts the accounts without a rank. -/
structure EpochStakes where
  sortedPubkeys : List BLSPubkeyStakeEntry
  totalStake : ℕ
  stake_pos : ∀ e ∈ sortedPubkeys, 0 < e.stake
  nodup : (sortedPubkeys.map (·.voteAccountPubkey)).Nodup
  sum_le : (sortedPubkeys.map (·.stake)).sum ≤ totalStake
  total_le : totalStake ≤ u64Max

/-- The length of the rank map, which holds each BLS key once. -/
def EpochStakes.rankMapLen (e : EpochStakes) : ℕ := (e.sortedPubkeys.map (·.blsPubkey)).dedup.length

/-- What the pool reads of the root bank. The stakes of an epoch are fixed before it starts, so of
those the bank only says whether it holds them. -/
structure RootBank where
  slot : ℕ
  blockId : Option Hash
  hasEpochStakes : ℕ → Bool

def RootBank.epochStakesFromSlot (stakes : ℕ → EpochStakes) (bank : RootBank) (slot : ℕ) :
    Option EpochStakes :=
  if bank.hasEpochStakes slot then some (stakes slot) else none

/-- Tracks all votes of a specific vote type made by validators for some slot, one each. -/
structure SimpleVotePool where
  votes : List VoteMessage := []
  totalStake : ℕ := 0
  prevVotedValidators : List Pubkey := []
  deriving DecidableEq, Repr

namespace SimpleVotePool

def addVote (p : SimpleVotePool) (key : Pubkey) (stake : ℕ) (vote : VoteMessage) :
    SimpleVotePool × Option ℕ :=
  if key ∈ p.prevVotedValidators then (p, none)
  else
    let total := saturatingAdd p.totalStake stake
    (⟨p.votes ++ [vote], total, key :: p.prevVotedValidators⟩, some total)

def hasPrevValidatorVote (p : SimpleVotePool) (key : Pubkey) : Bool :=
  key ∈ p.prevVotedValidators

end SimpleVotePool

structure VoteEntry where
  votes : List VoteMessage := []
  totalStakeByKey : ℕ := 0
  deriving DecidableEq, Repr

/-- Tracks all votes of a specific vote type made by validators for some slot, but allows votes for
different blocks by the same validator. -/
structure DuplicateBlockVotePool where
  maxEntriesPerPubkey : ℕ
  voteEntries : OrdMap Hash VoteEntry := ∅
  prevVotedBlockIds : OrdMap Pubkey (List Hash) := ∅

namespace DuplicateBlockVotePool

variable (p : DuplicateBlockVotePool)

def addVote (key : Pubkey) (stake : ℕ) (vote : VoteMessage) :
    Except VotorPanic (DuplicateBlockVotePool × Option ℕ) :=
  match vote.vote.blockId with
  | none => .error .blockId
  | some blockId =>
    let prev := (p.prevVotedBlockIds.get? key).getD []
    if blockId ∈ prev ∨ p.maxEntriesPerPubkey ≤ prev.length then
      .ok ({ p with prevVotedBlockIds := p.prevVotedBlockIds.insert key prev }, none)
    else
      let entry := (p.voteEntries.get? blockId).getD {}
      let total := saturatingAdd entry.totalStakeByKey stake
      .ok ({ p with
        voteEntries := p.voteEntries.insert blockId ⟨entry.votes ++ [vote], total⟩
        prevVotedBlockIds := p.prevVotedBlockIds.insert key (blockId :: prev) }, some total)

def totalStakeByBlockId (blockId : Hash) : ℕ :=
  ((p.voteEntries.get? blockId).map (·.totalStakeByKey)).getD 0

def votes (blockId : Hash) : Option (List VoteMessage) :=
  (p.voteEntries.get? blockId).map (·.votes)

def hasPrevValidatorVoteForBlock (key : Pubkey) (blockId : Hash) : Bool :=
  ((p.prevVotedBlockIds.get? key).map fun vs => decide (blockId ∈ vs)).getD false

def hasPrevValidatorVote (key : Pubkey) : Bool :=
  p.prevVotedBlockIds.contains key

end DuplicateBlockVotePool

inductive VotePool
  | simple (pool : SimpleVotePool)
  | duplicateBlock (pool : DuplicateBlockVotePool)

def newVotePool : VoteType → VotePool
  | .notarizeFallback => .duplicateBlock { maxEntriesPerPubkey := maxEntriesPerPubkeyForNotarizeLite }
  | .notarize => .duplicateBlock { maxEntriesPerPubkey := maxEntriesPerPubkeyForOtherTypes }
  | .finalize | .skip | .skipFallback | .genesis => .simple {}

def VotePool.addVote (key : Pubkey) (stake : ℕ) (vote : VoteMessage) :
    VotePool → Except VotorPanic (VotePool × Option ℕ)
  | .simple p =>
    let (p, r) := p.addVote key stake vote
    .ok (.simple p, r)
  | .duplicateBlock p => do
    let (p, r) ← p.addVote key stake vote
    .ok (.duplicateBlock p, r)

end BlackBull
