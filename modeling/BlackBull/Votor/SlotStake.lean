import BlackBull.Votor.VotePool

/-!
# Slot stake counters

`votor/src/consensus_pool/slot_stake_counters.rs`: the stake that voted to notarize each block of a
slot and the stake that voted to skip it, from which the pool tells the node when a fallback vote is
safe.
-/

namespace BlackBull

structure SlotStakeCounters where
  myFirstVote : Option Vote := none
  totalStake : ℕ
  skipTotal : ℕ := 0
  notarizeTotal : ℕ := 0
  notarizeEntryTotal : OrdMap Hash ℕ := ∅
  topNotarizedStake : ℕ := 0
  safeToNotarSent : List Hash := []
  safeToSkipSent : Bool := false

namespace SlotStakeCounters

def fractionOf (stake total : ℕ) : Except VotorPanic Fraction :=
  if h : 0 < total then .ok ⟨stake, total, h⟩ else .error .zeroTotalStake

def isSafeToNotar (c : SlotStakeCounters) (blockId : Hash) (stake : ℕ) : Except VotorPanic Bool :=
  if c.myFirstVote.any (fun v => v.getType = .notarize ∧ v.blockId = some blockId) then .ok false
  else do
    let notarizedRatio ← fractionOf stake c.totalStake
    if u64Max < c.skipTotal + stake then .error .stakeOverflow
    else
      let notarizedPlusSkipRatio ← fractionOf (c.skipTotal + stake) c.totalStake
      .ok (notarizedRatio.ge safeToNotarMinNotarizeOnly
        ∨ notarizedRatio.ge safeToNotarMinNotarizeForNotarizeOrSkip
          ∧ notarizedPlusSkipRatio.ge safeToNotarMinNotarizeAndSkip)

def isSafeToSkip (c : SlotStakeCounters) : Except VotorPanic Bool :=
  if c.myFirstVote.any (fun v => v.getType = .notarize) then do
    let ratio ← fractionOf
      (saturatingAdd c.skipTotal (c.notarizeTotal - c.topNotarizedStake)) c.totalStake
    .ok (ratio.ge safeToSkipThreshold)
  else .ok false

def checkSafeToNotar (slot : ℕ) (acc : SlotStakeCounters × List VotorEvent) (e : Hash × ℕ) :
    Except VotorPanic (SlotStakeCounters × List VotorEvent) :=
  let (c, ev) := acc
  if e.1 ∈ c.safeToNotarSent then .ok (c, ev)
  else do
    if ← c.isSafeToNotar e.1 e.2 then
      .ok ({ c with safeToNotarSent := c.safeToNotarSent ++ [e.1] },
        ev ++ [.safeToNotar (slot, e.1)])
    else .ok (c, ev)

def checkSafeToSkip (slot : ℕ) (c : SlotStakeCounters) :
    Except VotorPanic (SlotStakeCounters × List VotorEvent) :=
  if c.safeToSkipSent then .ok (c, [])
  else do
    if ← c.isSafeToSkip then .ok ({ c with safeToSkipSent := true }, [.safeToSkip slot])
    else .ok (c, [])

/-- The counters with the new total of the entry a vote was counted in; `none` for the vote types
that are of no interest. -/
def count (c : SlotStakeCounters) (vote : Vote) (entryStake : ℕ) : Option SlotStakeCounters :=
  match vote with
  | .skip _ => some { c with skipTotal := entryStake }
  | .notarize _ blockId =>
    let old := (c.notarizeEntryTotal.get? blockId).getD 0
    some { c with
      notarizeEntryTotal := c.notarizeEntryTotal.insert blockId entryStake
      notarizeTotal := saturatingAdd (c.notarizeTotal - old) entryStake
      topNotarizedStake := max c.topNotarizedStake entryStake }
  | _ => none

def addVote (c : SlotStakeCounters) (vote : Vote) (entryStake : ℕ) (isMyOwnVote : Bool) :
    Except VotorPanic (SlotStakeCounters × List VotorEvent) :=
  match c.count vote entryStake with
  | none => .ok (c, [])
  | some c =>
    let c := if c.myFirstVote.isNone && isMyOwnVote then { c with myFirstVote := some vote } else c
    if c.myFirstVote.isNone then .ok (c, [])
    else do
      let (c, ev) ← c.notarizeEntryTotal.entries.foldlM (checkSafeToNotar vote.slot) (c, [])
      let (c, ev') ← c.checkSafeToSkip vote.slot
      .ok (c, ev ++ ev')

end SlotStakeCounters

end BlackBull
