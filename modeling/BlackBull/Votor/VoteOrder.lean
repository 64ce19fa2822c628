import BlackBull.Votor.Ballots

/-!
# Votes in any order

The votes of one slot that no validator contradicts, and what a pool has come to once it has received
them: the certificates it has completed, what it has told the event handler and the highest
finalized slot.
-/

namespace BlackBull

/-- Votes for one slot. No two of a validator conflict, and no validator has more of a type than a
vote pool counts. -/
structure Compatible (slot : ℕ) (votes : List VoteMessage) : Prop where
  slot_eq : ∀ m ∈ votes, m.vote.slot = slot
  not_conflicting : ∀ m ∈ votes, ∀ m' ∈ votes, m.rank = m'.rank →
    ¬ ConflictsWith m.vote.getType m.vote.blockId m'.vote
  maxEntries : ∀ m ∈ votes, (votes.filter fun m' => m'.rank = m.rank
    ∧ m'.vote.getType = m.vote.getType).dedup.length ≤ m.vote.getType.maxEntries

def receiveVotes (rootBank : RootBank) (me : Pubkey) (votes : List VoteMessage) : List PoolOp :=
  votes.map fun m => .addMessage rootBank me (.vote m)

def VotorEvent.ignoreFast : VotorEvent → VotorEvent
  | .finalized b _ => .finalized b false
  | e => e

def traceEvents (trace : List (PoolOp × PoolReply)) : List VotorEvent :=
  trace.flatMap (·.2.events)

structure SameOutcome (r r' : ConsensusPool × List (PoolOp × PoolReply)) : Prop where
  certificates : ∀ certType, r.1.completedCertificates.contains certType
    = r'.1.completedCertificates.contains certType
  events : ∀ e, e ∈ (traceEvents r.2).map (·.ignoreFast) ↔ e ∈ (traceEvents r'.2).map (·.ignoreFast)
  highest : r.1.highestFinalizedSlot = r'.1.highestFinalizedSlot

structure ToldOnce (trace : List (PoolOp × PoolReply)) : Prop where
  safeToNotar : ∀ block, (traceEvents trace).count (.safeToNotar block) ≤ 1
  safeToSkip : ∀ slot, (traceEvents trace).count (.safeToSkip slot) ≤ 1

section Stakes

variable [SignerStore] (stakes : ℕ → EpochStakes) (rootBank : RootBank)

/-- Any two orders of the votes bring a fresh pool to the same. -/
def OrderIndependent (me : Pubkey) (votes : List VoteMessage) : Prop :=
  ∀ order order', order.Perm votes → order'.Perm votes → ∃ r r',
    run (ConsensusPool.step stakes) (.newFromRootBank rootBank) (receiveVotes rootBank me order)
      = .ok r
    ∧ run (ConsensusPool.step stakes) (.newFromRootBank rootBank)
      (receiveVotes rootBank me order') = .ok r'
    ∧ SameOutcome r r' ∧ ToldOnce r.2

/-- A vote of a validator with a rank, for a slot from the root on whose stakes are known. -/
def Countable (m : VoteMessage) : Prop :=
  rootBank.hasEpochStakes m.vote.slot ∧ rootBank.slot ≤ m.vote.slot ∧ (m.entry stakes).isSome

instance (m : VoteMessage) : Decidable (Countable stakes rootBank m) :=
  inferInstanceAs (Decidable (_ ∧ _ ∧ _))

/-- The Genesis votes are for one block, or do not make a Genesis certificate. -/
def OneGenesisBlock (slot : ℕ) (votes : List VoteMessage) : Prop :=
  (∀ m ∈ ofType slot .genesis votes, ∀ m' ∈ ofType slot .genesis votes, m.vote = m'.vote)
    ∨ 100 * stakeOf stakes (ofType slot .genesis votes) < 82 * (stakes slot).totalStake

instance (slot : ℕ) (votes : List VoteMessage) : Decidable (OneGenesisBlock stakes slot votes) :=
  inferInstanceAs (Decidable (_ ∨ _))

def countable (votes : List VoteMessage) : List VoteMessage :=
  (votes.filter (Countable stakes rootBank ·)).dedup

end Stakes

end BlackBull
