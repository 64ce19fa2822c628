import Mathlib

/-!
# Lockouts and the tower

A vote for a slot locks the voter out of other forks for a number of slots that doubles with every
confirmation.
-/

namespace BlackBull

def maxLockoutHistory : ℕ := 31

def initialLockout : ℕ := 2

structure Lockout where
  slot : ℕ
  confirmationCount : ℕ
  deriving DecidableEq, Repr

namespace Lockout

def new (slot : ℕ) : Lockout := ⟨slot, 1⟩

def lockout (v : Lockout) : ℕ := initialLockout ^ min v.confirmationCount maxLockoutHistory

def lastLockedOutSlot (v : Lockout) : ℕ := v.slot + v.lockout

def isLockedOutAtSlot (v : Lockout) (slot : ℕ) : Bool := slot ≤ v.lastLockedOutSlot

def confirm (v : Lockout) : Lockout := { v with confirmationCount := v.confirmationCount + 1 }

end Lockout

section Stack

variable {α : Type} (lockout : α → Lockout)

def popExpiredVotes (nextVoteSlot : ℕ) (votes : List α) : List α :=
  votes.rdropWhile fun v => !(lockout v).isLockedOutAtSlot nextVoteSlot

/-- Once the stack is full, pop the oldest vote, which is rooted. -/
def popRooted (votes : List α) : Option α × List α :=
  if votes.length = maxLockoutHistory then (votes.head?, votes.tail) else (none, votes)

/-- A vote is confirmed once more when it gets more confirmations than it has seen. -/
def doubleLockouts (confirm : α → α) (votes : List α) : List α :=
  votes.mapIdx fun i v =>
    if i + (lockout v).confirmationCount < votes.length then confirm v else v

end Stack

structure TowerVoteState where
  votes : List Lockout := []
  rootSlot : Option ℕ := none
  deriving DecidableEq, Repr

namespace TowerVoteState

def lastVotedSlot (t : TowerVoteState) : Option ℕ := t.votes.getLast?.map (·.slot)

def processNextVoteSlot (t : TowerVoteState) (nextVoteSlot : ℕ) : TowerVoteState :=
  -- ignore votes for slots earlier than we already have votes for
  if t.lastVotedSlot.any (nextVoteSlot ≤ ·) then t
  else
    let (rooted, votes) := popRooted (popExpiredVotes id nextVoteSlot t.votes)
    { votes := doubleLockouts id Lockout.confirm (votes ++ [Lockout.new nextVoteSlot])
      rootSlot := (rooted.map (·.slot)).or t.rootSlot }

end TowerVoteState

end BlackBull
