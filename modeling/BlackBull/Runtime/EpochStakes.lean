import BlackBull.Lib.OrdMap
import BlackBull.Votor.Messages

/-!
# Ranks of validators

`BLSPubkeyToRankMap` of `runtime/src/epoch_stakes.rs`.
-/

namespace BlackBull.RankMap

structure VoteAccount where
  nodePubkey : Pubkey
  blsPubkeyCompressed : Option ℕ
  deriving DecidableEq, Repr

/-- The vote accounts with their stakes, in the order they are iterated. -/
structure VoteAccounts where
  entries : List (Pubkey × ℕ × VoteAccount)
  nodup : (entries.map (·.1)).Nodup

structure BLSPubkeyStakeEntry (A : Type) where
  voteAccountPubkey : Pubkey
  nodePubkey : Pubkey
  blsPubkey : A
  stake : ℕ
  deriving DecidableEq, Repr

structure BLSPubkeyToRankMap (A : Type) where
  rankMap : OrdMap ℕ ℕ := ∅
  votePubkeyToRank : OrdMap Pubkey ℕ := ∅
  sortedPubkeys : List (BLSPubkeyStakeEntry A) := []

section New

variable {A : Type} (decompress : ℕ → Option A)

def stakeEntry : Pubkey × ℕ × VoteAccount → Option (BLSPubkeyStakeEntry A × ℕ)
  | (voteAccountPubkey, stake, account) =>
    if 0 < stake then do
      let blsPubkeyCompressed ← account.blsPubkeyCompressed
      let blsPubkey ← decompress blsPubkeyCompressed
      some (⟨voteAccountPubkey, account.nodePubkey, blsPubkey, stake⟩, blsPubkeyCompressed)
    else none

def rankLe (a b : BLSPubkeyStakeEntry A × ℕ) : Bool :=
  b.1.stake < a.1.stake ∨ b.1.stake = a.1.stake ∧ a.2 ≤ b.2

namespace BLSPubkeyToRankMap

def push (m : BLSPubkeyToRankMap A) (p : (BLSPubkeyStakeEntry A × ℕ) × ℕ) :
    BLSPubkeyToRankMap A where
  votePubkeyToRank := m.votePubkeyToRank.insert p.1.1.voteAccountPubkey (p.2 % 2 ^ 16)
  rankMap := m.rankMap.insert p.1.2 (p.2 % 2 ^ 16)
  sortedPubkeys := m.sortedPubkeys ++ [p.1.1]

/-- Ranks in the order of a list. They are 16 bits wide, and a greater one is cut off. -/
def ofSorted (l : List (BLSPubkeyStakeEntry A × ℕ)) : BLSPubkeyToRankMap A :=
  l.zipIdx.foldl push {}

def new (accounts : VoteAccounts) : BLSPubkeyToRankMap A :=
  ofSorted ((accounts.entries.filterMap (stakeEntry decompress)).mergeSort rankLe)

def len (m : BLSPubkeyToRankMap A) : ℕ := m.rankMap.entries.length

def getRankForVotePubkey (m : BLSPubkeyToRankMap A) (votePubkey : Pubkey) : Option ℕ :=
  m.votePubkeyToRank.get? votePubkey

def getPubkeyStakeEntry (m : BLSPubkeyToRankMap A) (index : ℕ) : Option (BLSPubkeyStakeEntry A) :=
  m.sortedPubkeys[index]?

end BLSPubkeyToRankMap

end New

end BlackBull.RankMap
