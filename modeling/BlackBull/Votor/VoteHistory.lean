import BlackBull.Lib.OrdMap
import BlackBull.Votor.Event

/-!
# The vote history

`votor/src/vote_history.rs`: what this node has voted since its root.
-/

namespace BlackBull

structure VoteHistory where
  nodePubkey : Pubkey
  voted : List ℕ := []
  votedNotar : OrdMap ℕ Hash := ∅
  votedNotarFallback : OrdMap ℕ (List Hash) := ∅
  votedSkipFallback : List ℕ := []
  /-- The slots with a skip, skip fallback or notarize fallback vote. -/
  skipped : List ℕ := []
  itsOver : List ℕ := []
  votesCast : OrdMap ℕ (List Vote) := ∅
  notarizedBlocks : List Block := []
  parentReadySlots : OrdMap ℕ (List Block) := ∅
  root : ℕ

namespace VoteHistory

def new (nodePubkey : Pubkey) (root : ℕ) : VoteHistory := { nodePubkey, root }

def fromRoot {α : Type} (h : VoteHistory) (slot : ℕ) (a : α) : Except VotorPanic α :=
  if h.root ≤ slot then .ok a else .error .voteHistoryRoot

variable (h : VoteHistory)

def hasVoted (slot : ℕ) : Except VotorPanic Bool :=
  h.fromRoot slot (slot ∈ h.voted)

def getVotedNotar (slot : ℕ) : Except VotorPanic (Option Hash) :=
  h.fromRoot slot (h.votedNotar.get? slot)

def hasVotedNotarFallback (slot : ℕ) (blockId : Hash) : Except VotorPanic Bool :=
  h.fromRoot slot ((h.votedNotarFallback.get? slot).any (blockId ∈ ·))

def hasVotedSkipFallback (slot : ℕ) : Except VotorPanic Bool :=
  h.fromRoot slot (slot ∈ h.votedSkipFallback)

def isItsOver (slot : ℕ) : Except VotorPanic Bool :=
  h.fromRoot slot (slot ∈ h.itsOver)

/-- Have we cast a bad window vote: skip, notarize fallback or skip fallback. -/
def badWindow (slot : ℕ) : Except VotorPanic Bool :=
  h.fromRoot slot (slot ∈ h.skipped ∨ h.votedNotarFallback.contains slot
    ∨ slot ∈ h.votedSkipFallback)

def votesCastSince (slot : ℕ) : List Vote :=
  (h.votesCast.entries.filter (slot < ·.1)).flatMap (·.2)

def isBlockNotarized (block : Block) : Bool := block ∈ h.notarizedBlocks

def isParentReady (slot : ℕ) (parent : Block) : Bool :=
  (h.parentReadySlots.get? slot).any (parent ∈ ·)

def MayAdd : Vote → Prop
  | .notarize slot _ => h.root ≤ slot ∧ slot ∉ h.voted ∧ h.votedNotar.get? slot = none
  | .finalize slot => h.root ≤ slot ∧ slot ∉ h.skipped
  | .notarizeFallback slot _ | .skipFallback slot =>
    h.root ≤ slot ∧ slot ∈ h.voted ∧ slot ∉ h.itsOver
  | .skip slot | .genesis slot _ => h.root ≤ slot

instance (h : VoteHistory) (v : Vote) : Decidable (h.MayAdd v) := by
  cases v <;> unfold MayAdd <;> infer_instance

def insertVote : Vote → VoteHistory
  | .notarize slot blockId => { h with
      voted := slot :: h.voted
      votedNotar := h.votedNotar.insert slot blockId }
  | .finalize slot => { h with itsOver := slot :: h.itsOver }
  | .skip slot => { h with voted := slot :: h.voted, skipped := slot :: h.skipped }
  | .notarizeFallback slot blockId =>
    let blockIds := blockId :: (h.votedNotarFallback.get? slot).getD []
    { h with
      skipped := slot :: h.skipped
      votedNotarFallback := h.votedNotarFallback.insert slot blockIds }
  | .skipFallback slot => { h with
      skipped := slot :: h.skipped
      votedSkipFallback := slot :: h.votedSkipFallback }
  | .genesis _ _ => h

def addVote (vote : Vote) : Except VotorPanic VoteHistory :=
  if h.MayAdd vote then
    let votes := (h.votesCast.get? vote.slot).getD [] ++ [vote]
    .ok { h.insertVote vote with votesCast := h.votesCast.insert vote.slot votes }
  else .error .addVote

def addBlockNotarized (block : Block) : VoteHistory :=
  if block.1 < h.root then h else { h with notarizedBlocks := block :: h.notarizedBlocks }

def addParentReady (slot : ℕ) (parent : Block) : VoteHistory × Bool :=
  if slot < h.root then (h, false)
  else
    match h.parentReadySlots.get? slot with
    | some ps => ({ h with parentReadySlots := h.parentReadySlots.insert slot (parent :: ps) }, false)
    | none => ({ h with parentReadySlots := h.parentReadySlots.insert slot [parent] }, true)

def highestParentReadySlot : Option ℕ := h.parentReadySlots.keys.getLast?

def setRoot (root : ℕ) : VoteHistory where
  nodePubkey := h.nodePubkey
  root := root
  voted := h.voted.filter (root ≤ ·)
  votedNotar := h.votedNotar.retain fun s _ => root ≤ s
  votedNotarFallback := h.votedNotarFallback.retain fun s _ => root ≤ s
  votedSkipFallback := h.votedSkipFallback.filter (root ≤ ·)
  skipped := h.skipped.filter (root ≤ ·)
  itsOver := h.itsOver.filter (root ≤ ·)
  votesCast := h.votesCast.retain fun s _ => root ≤ s
  notarizedBlocks := h.notarizedBlocks.filter (root ≤ ·.1)
  parentReadySlots := h.parentReadySlots.retain fun s _ => root ≤ s

end VoteHistory

end BlackBull
