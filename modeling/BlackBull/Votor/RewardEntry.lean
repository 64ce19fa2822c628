import BlackBull.Lib.Run
import BlackBull.Votor.VotePool

/-!
# Reward certificates in progress

`votor/src/consensus_rewards/entry.rs` and its modules.
-/

namespace BlackBull.Rewards

inductive AddVoteError
  | invalidRank
  | duplicate
  | bls
  deriving DecidableEq, Repr

/-- `maxValidators` is the length of the bit vector. -/
structure PartialCert (S : Type) where
  signature : List S := []
  maxValidators : ℕ
  bitvec : List ℕ := []
  cnt : ℕ := 0
  validators : List Pubkey := []

structure NotarEntry (S : Type) where
  voted : List ℕ := []
  partials : OrdMap Hash (PartialCert S) := ∅

structure Entry (S : Type) where
  skip : PartialCert S
  notar : NotarEntry S := {}
  maxValidators : ℕ

variable {S : Type}

def Entry.new (maxValidators : ℕ) : Entry S := { skip := { maxValidators }, maxValidators }

/-- `none` for no votes. -/
def PartialCert.buildSigBitmap (p : PartialCert S) : Option (List S × List ℕ × List Pubkey) :=
  if p.cnt = 0 then none else some (p.signature, p.bitvec, p.validators)

def PartialCert.votesSeen (p : PartialCert S) : ℕ := p.cnt

variable (rankMap : EpochStakes) (aggregates : S → Bool) (rank : ℕ) (signature : S)

/-- What the call leaves, and its result; an error outside of it is a panic. -/
def PartialCert.addVote (p : PartialCert S) :
    Except Unit (PartialCert S × Except AddVoteError Unit) :=
  if p.maxValidators ≤ rank then .ok (p, .error .invalidRank)
  else if rank ∈ p.bitvec then .ok (p, .error .duplicate)
  else
    match rankMap.sortedPubkeys[rank]? with
    | none => .error ()
    | some entry =>
      let p := { p with validators := p.validators ++ [entry.voteAccountPubkey] }
      if aggregates signature then
        .ok ({ p with
          signature := p.signature ++ [signature]
          bitvec := p.bitvec ++ [rank]
          cnt := p.cnt + 1 }, .ok ())
      else .ok (p, .error .bls)

/-- The partial certificate of a block: a new one where there is none. -/
def NotarEntry.partialCert (e : NotarEntry S) (maxValidators : ℕ) (blockId : Hash) :
    PartialCert S :=
  (e.partials.get? blockId).getD { maxValidators }

def NotarEntry.addVote (blockId : Hash) (maxValidators : ℕ) (e : NotarEntry S) :
    Except Unit (NotarEntry S × Except AddVoteError Unit) :=
  if rank ∈ e.voted then .ok (e, .error .duplicate)
  else do
    let (p, res) ← (e.partialCert maxValidators blockId).addVote rankMap aggregates rank signature
    .ok (⟨if res.isOk then rank :: e.voted else e.voted, e.partials.insert blockId p⟩, res)

def Entry.addVote (e : Entry S) (vote : VoteMessage) :
    Except Unit (Entry S × Except AddVoteError Unit) :=
  match vote.vote with
  | .notarize _ blockId => do
    let (notar, res) ←
      e.notar.addVote rankMap aggregates vote.rank signature blockId e.maxValidators
    .ok ({ e with notar }, res)
  | .skip _ => do
    let (skip, res) ← e.skip.addVote rankMap aggregates vote.rank signature
    .ok ({ e with skip }, res)
  | _ => .ok (e, .ok ())

def Entry.step (e : Entry S) (vote : VoteMessage × S) :
    Except Unit (Entry S × List (Except AddVoteError Unit)) :=
  (e.addVote rankMap aggregates vote.2 vote.1).map fun r => (r.1, [r.2])

end BlackBull.Rewards
