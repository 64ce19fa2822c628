import BlackBull.Lib.OrdMap

/-!
# Vote accounts

`vote/src/vote_account.rs`: the vote accounts of a bank with the stakes delegated to them, and who
of them is admitted to vote.
-/

namespace BlackBull.Vote

structure VoteAccount where
  nodePubkey : ℕ
  lamports : ℕ
  blsPubkeyCompressed : Option ℕ
  deriving DecidableEq, Repr

abbrev Entry := ℕ × ℕ × VoteAccount

abbrev VoteAccountsHashMap := OrdMap ℕ (ℕ × VoteAccount)

structure VoteAccounts where
  voteAccounts : VoteAccountsHashMap
  stakedNodes : Option (OrdMap ℕ ℕ) := none

def isValid (minimumVoteAccountBalance : ℕ) (e : Entry) : Bool :=
  e.2.2.blsPubkeyCompressed.isSome && e.2.1 ≠ 0 && minimumVoteAccountBalance ≤ e.2.2.lamports

def collect (entries : List Entry) : VoteAccountsHashMap :=
  entries.foldl (fun m e => m.insert e.1 e.2) ∅

/-- `none` for a panic. -/
def cloneAndFilterForVat (select : ℕ → List Entry → List Entry) (entries : List Entry)
    (maxVoteAccounts minimumVoteAccountBalance : ℕ) : Option VoteAccounts :=
  if maxVoteAccounts = 0 then none
  else
    let entriesToSort := entries.filter (isValid minimumVoteAccountBalance)
    if maxVoteAccounts < entriesToSort.length then
      let entriesToSort := select maxVoteAccounts entriesToSort
      entriesToSort[maxVoteAccounts]?.map fun cutoffEntry =>
        { voteAccounts := collect (entriesToSort.filter (cutoffEntry.2.1 < ·.2.1)) }
    else some { voteAccounts := collect entriesToSort }

end BlackBull.Vote
