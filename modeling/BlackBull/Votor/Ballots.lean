import BlackBull.Votor.ConsensusPool

/-!
# The ballots a pool has counted

What the vote pools are for: the votes that were counted, in the order they came in, of which every
pool is a view.
-/

namespace BlackBull

def VoteType.byBlock : VoteType → Bool
  | .notarize | .notarizeFallback => true
  | .finalize | .skip | .skipFallback | .genesis => false

def VoteType.maxEntries : VoteType → ℕ
  | .notarizeFallback => maxEntriesPerPubkeyForNotarizeLite
  | _ => maxEntriesPerPubkeyForOtherTypes

/-- A vote of the given type and block id conflicts with an earlier one of the validator. -/
def ConflictsWith (ty : VoteType) (blockId : Option Hash) (old : Vote) : Prop :=
  old.getType ∈ conflictingTypes ty
    ∧ (old.getType.byBlock = true → blockId = none ∨ old.blockId = blockId)

instance (ty : VoteType) (blockId : Option Hash) (old : Vote) :
    Decidable (ConflictsWith ty blockId old) := by
  unfold ConflictsWith
  infer_instance

def ofType (slot : ℕ) (ty : VoteType) (l : List VoteMessage) : List VoteMessage :=
  l.filter fun m => m.vote.slot = slot ∧ m.vote.getType = ty

/-- Of the votes of one type, those counted together for a block id. -/
def counted (ty : VoteType) (blockId : Option Hash) (l : List VoteMessage) : List VoteMessage :=
  if ty.byBlock then l.filter fun m => m.vote.blockId = blockId else l

def certVotes (certType : CertificateType) (blockId : Option Hash) (l : List VoteMessage) :
    List VoteMessage :=
  certType.limitsAndVoteTypes.2.flatMap fun ty => counted ty blockId (ofType certType.slot ty l)

def notarizeVotes (slot : ℕ) (blockId : Hash) (l : List VoteMessage) : List VoteMessage :=
  counted .notarize (some blockId) (ofType slot .notarize l)

/-- The stakes, of `total`, at which it is safe to notarize a block after another first vote: 40% for
the block, or 20% for it and 60% together with the skip votes. -/
def SafeStake (total skip stake : ℕ) : Prop :=
  40 * total ≤ 100 * stake ∨ 20 * total ≤ 100 * stake ∧ 60 * total ≤ 100 * (skip + stake)

section Stakes

variable (stakes : ℕ → EpochStakes)

namespace VoteMessage

def entry (m : VoteMessage) : Option BLSPubkeyStakeEntry :=
  (stakes m.vote.slot).sortedPubkeys[m.rank]?

def key (m : VoteMessage) : Pubkey := ((m.entry stakes).map (·.voteAccountPubkey)).getD 0

def stake (m : VoteMessage) : ℕ := ((m.entry stakes).map (·.stake)).getD 0

end VoteMessage

def stakeOf (l : List VoteMessage) : ℕ := (l.map (·.stake stakes)).sum

/-- A vote that none of the votes of its type stands in the way of. -/
def Fresh (l : List VoteMessage) (m : VoteMessage) : Prop :=
  m.key stakes ∉ (counted m.vote.getType m.vote.blockId l).map (·.key stakes)
    ∧ (m.vote.getType.byBlock = true →
      (l.filter fun m' => m'.key stakes = m.key stakes).length < m.vote.getType.maxEntries)

instance (l : List VoteMessage) (m : VoteMessage) : Decidable (Fresh stakes l m) := by
  unfold Fresh
  infer_instance

/-- The counted votes: of validators with a rank, no vote conflicts with an earlier one or repeats
it, and no validator has more votes of a type than it may. -/
structure Ballots (l : List VoteMessage) : Prop where
  entry : ∀ m ∈ l, (m.entry stakes).isSome
  pairwise : l.Pairwise fun old new => old.vote.slot = new.vote.slot →
    old.key stakes = new.key stakes →
      ¬ ConflictsWith new.vote.getType new.vote.blockId old.vote
        ∧ ¬ (old.vote.getType = new.vote.getType
          ∧ (old.vote.getType.byBlock = true → old.vote.blockId = new.vote.blockId))
  maxEntries : ∀ slot ty key, ty.byBlock = true →
    ((ofType slot ty l).filter fun m => m.key stakes = key).length ≤ ty.maxEntries

/-- A vote pool that holds the given votes of one type for one slot. -/
def Holds (ty : VoteType) (l : List VoteMessage) : VotePool → Prop
  | .simple pool => ty.byBlock = false
    ∧ pool = ⟨l, stakeOf stakes l, (l.map (·.key stakes)).reverse⟩
  | .duplicateBlock pool => ty.byBlock = true ∧ pool.maxEntriesPerPubkey = ty.maxEntries
    ∧ (∀ b, pool.voteEntries.get? b =
      let votes := l.filter fun m => m.vote.blockId = some b
      if votes = [] then none else some ⟨votes, stakeOf stakes votes⟩)
    ∧ ∀ k, pool.prevVotedBlockIds.get? k =
      let prev := (l.filter fun m => m.key stakes = k).filterMap (·.vote.blockId)
      if prev = [] then none else some prev.reverse

structure HoldsBallots (l : List VoteMessage) (p : ConsensusPool) : Prop where
  ballots : Ballots stakes l
  holds : ∀ slot ty, match p.votePool slot ty with
    | none => ofType slot ty l = []
    | some pool => Holds stakes ty (ofType slot ty l) pool

section Fallback

variable (me : Pubkey) (slot : ℕ)

def firstVote (l : List VoteMessage) : Option Vote :=
  (l.find? fun m => m.key stakes = me ∧ m.vote.slot = slot ∧ m.vote.IsFirst).map (·.vote)

/-- When the node may vote for a block other than the one of its first vote. -/
def SafeToNotar (blockId : Hash) (l : List VoteMessage) : Prop :=
  (∃ v, firstVote stakes me slot l = some v ∧ v ≠ .notarize slot blockId)
    ∧ notarizeVotes slot blockId l ≠ []
    ∧ SafeStake (stakes slot).totalStake (stakeOf stakes (ofType slot .skip l))
      (stakeOf stakes (notarizeVotes slot blockId l))

/-- When the node may vote to skip after it has voted for a block: 40% of the stake voted to skip
or for blocks other than any given one. -/
def SafeToSkip (l : List VoteMessage) : Prop :=
  (∃ blockId, firstVote stakes me slot l = some (.notarize slot blockId))
    ∧ ∀ blockId, 40 * (stakes slot).totalStake + 100 * stakeOf stakes (notarizeVotes slot blockId l)
      ≤ 100 * (stakeOf stakes (ofType slot .skip l) + stakeOf stakes (ofType slot .notarize l))

structure Tallies (l : List VoteMessage) (c : SlotStakeCounters) : Prop where
  totalStake : c.totalStake = (stakes slot).totalStake
  skipTotal : c.skipTotal = stakeOf stakes (ofType slot .skip l)
  notarizeTotal : c.notarizeTotal = stakeOf stakes (ofType slot .notarize l)
  notarizeEntryTotal : ∀ b, c.notarizeEntryTotal.get? b =
    if notarizeVotes slot b l = [] then none else some (stakeOf stakes (notarizeVotes slot b l))
  le_top : ∀ b, stakeOf stakes (notarizeVotes slot b l) ≤ c.topNotarizedStake
  top_eq : ∃ b, c.topNotarizedStake = stakeOf stakes (notarizeVotes slot b l)

structure Counts (l : List VoteMessage) (c : SlotStakeCounters) : Prop
    extends Tallies stakes slot l c where
  myFirstVote : c.myFirstVote = firstVote stakes me slot l
  nodup : c.safeToNotarSent.Nodup
  safeToNotarSent : ∀ b, b ∈ c.safeToNotarSent ↔ SafeToNotar stakes me slot b l
  safeToSkipSent : c.safeToSkipSent = true ↔ SafeToSkip stakes me slot l

end Fallback

def Certified (l : List VoteMessage) (certType : CertificateType) : Prop :=
  let limit := certType.limitsAndVoteTypes.1
  limit.numerator * (stakes certType.slot).totalStake
    ≤ limit.denominator * stakeOf stakes (certVotes certType (certType.toBlock.map (·.2)) l)

instance (l : List VoteMessage) (certType : CertificateType) :
    Decidable (Certified stakes l certType) :=
  inferInstanceAs (Decidable (_ ≤ _))

/-- What a certificate built from votes has to be: its votes are of distinct validators, of the
certificate's vote types, for its slot and its block if it has one, and their stake reaches the
limit. The bitmaps name the signers. -/
structure Certificate.Sound (c : Certificate) : Prop where
  entry : ∀ m ∈ c.signature, (m.entry stakes).isSome
  nodup : (c.signature.map (·.key stakes)).Nodup
  voteType : ∀ m ∈ c.signature, m.vote.getType ∈ c.certType.limitsAndVoteTypes.2
  slot : ∀ m ∈ c.signature, m.vote.slot = c.certType.slot
  block : ∀ m ∈ c.signature, ∀ b, c.certType.toBlock = some b → m.vote.blockId = some b.2
  stake : c.certType.limitsAndVoteTypes.1.toRat
    ≤ (stakeOf stakes c.signature : ℚ) / (stakes c.certType.slot).totalStake

end Stakes

end BlackBull
