import BlackBull.Runtime.Bank

/-!
# Inflation rewards

`runtime/src/inflation_rewards`: the points that a stake has earned since it was last paid, and what
these are worth to the staker and to the voter.
-/

namespace BlackBull.Runtime

open Svm

structure Delegation where
  voterPubkey : Pubkey
  stake : UInt64
  activationEpoch : UInt64
  deactivationEpoch : UInt64
  deriving DecidableEq

structure Stake where
  delegation : Delegation
  creditsObserved : UInt64
  deriving DecidableEq

structure Meta where
  rentExemptReserve : UInt64
  staker : Pubkey
  withdrawer : Pubkey
  deriving DecidableEq

structure StakeFlags where
  bits : UInt8
  deriving DecidableEq

inductive StakeStateV2
  | uninitialized
  | initialized («meta» : Meta)
  | stake («meta» : Meta) (stake : Stake) (flags : StakeFlags)
  | rewardsPool
  deriving DecidableEq

def StakeStateV2.stakeRef : StakeStateV2 → Option Stake
  | .stake _ s _ => some s
  | _ => none

/-- `StakeAccount<Delegation>`: an account with the stake state in its data, which is delegated. -/
structure StakeAccount where
  lamports : UInt64
  stakeState : StakeStateV2
  delegated : stakeState.stakeRef.isSome
  deriving DecidableEq

namespace StakeAccount

def stake (a : StakeAccount) : Stake := a.stakeState.stakeRef.get a.delegated

def delegation (a : StakeAccount) : Delegation := a.stake.delegation

end StakeAccount

/-- The credits of an epoch: its number, the credits at its end, and those at its start. -/
structure EpochCreditsItem where
  epoch : UInt64
  credits : UInt64
  prevCredits : UInt64
  deriving DecidableEq

structure VoteStateView where
  epochCredits : List EpochCreditsItem
  /-- a percentage -/
  commission : UInt8
  /-- in basis points -/
  inflationRewardsCommission : UInt16
  deriving DecidableEq

def VoteStateView.credits (v : VoteStateView) : UInt64 :=
  (v.epochCredits.getLast?.map EpochCreditsItem.credits).getD 0

structure PointValue where
  rewards : UInt64
  points : ℕ
  deriving DecidableEq

structure CalculatedStakePoints where
  points : ℕ
  newCreditsObserved : UInt64
  forceCreditsUpdateWithSkippedReward : Bool
  deriving DecidableEq

section Points

-- the stake of a delegation in an epoch, by the stake history and the rates of warmup and cooldown
variable (stakeAt : Delegation → UInt64 → UInt64)

/-- One turn of the loop over the epochs: the points and the credits observed so far. The product of
two `u64` fits a `u128`. -/
def addEpochCredits (stake : Stake) (acc : ℕ × UInt64) (item : EpochCreditsItem) : ℕ × UInt64 :=
  let stakeAmount := (stakeAt stake.delegation item.epoch).toNat
  let earnedCredits :=
    if stake.creditsObserved < item.prevCredits then item.credits - item.prevCredits
    else if stake.creditsObserved < item.credits then item.credits - acc.2
    else 0
  ((acc.1 + stakeAmount * earnedCredits.toNat) % 2 ^ 128, max acc.2 item.credits)

def calculateStakePointsAndCredits (stake : Stake) (voteState : VoteStateView) :
    CalculatedStakePoints :=
  let creditsInStake := stake.creditsObserved
  let creditsInVote := voteState.credits
  if creditsInVote < creditsInStake then
    -- the vote account was made anew
    { points := 0
      newCreditsObserved := creditsInVote
      forceCreditsUpdateWithSkippedReward := true }
  else if creditsInVote = creditsInStake then
    { points := 0
      newCreditsObserved := creditsInStake
      forceCreditsUpdateWithSkippedReward := false }
  else
    let acc := voteState.epochCredits.foldl (addEpochCredits stakeAt stake) (0, creditsInStake)
    { points := acc.1
      newCreditsObserved := acc.2
      forceCreditsUpdateWithSkippedReward := false }

inductive RedeemError
  | invalidAccountData
  | noCreditsToRedeem
  deriving DecidableEq, Repr

def calculatePoints (stakeState : StakeStateV2) (voteState : VoteStateView) :
    Except RedeemError ℕ :=
  match stakeState with
  | .stake _ stake _ => .ok (calculateStakePointsAndCredits stakeAt stake voteState).points
  | _ => .error .invalidAccountData

end Points

/-- What the calculation and the distribution of rewards panic on. -/
inductive RewardsPanic
  | rewardsIntermediateShouldFitWithinU128
  | rewardsShouldFitWithinU64
  | multiplicationShouldNotOverflow
  | commissionCannotBeGreaterThanMaxBps
  | paidMoreThanExpected
  | partitionOutOfBound
  | partitionRewardIsEmpty
  | tooManyPartitions
  | stakesCacheEntryNotDelegated
  | stakeMismatch
  | rewardShouldFitWithinI64
  | epochRewardsInactive
  | distributedMoreThanTotal
  deriving DecidableEq, Repr

def mulOrPanic (panic : RewardsPanic) (a b : ℕ) : Except RewardsPanic ℕ :=
  if a * b < 2 ^ 128 then .ok (a * b) else .error panic

def MAX_BPS : UInt16 := 10000

/-- The voter's part, the staker's part, and whether there was something to split. -/
def commissionSplit (commissionBps : UInt16) (on : UInt64) :
    Except RewardsPanic (UInt64 × UInt64 × Bool) :=
  let split := min commissionBps MAX_BPS
  if split = 0 then .ok (0, on, false)
  else if split = MAX_BPS then .ok (on, 0, false)
  else do
    let mine ← mulOrPanic .multiplicationShouldNotOverflow on.toNat split.toNat
    if MAX_BPS < split then .error .commissionCannotBeGreaterThanMaxBps
    let theirs ← mulOrPanic .multiplicationShouldNotOverflow on.toNat (MAX_BPS - split).toNat
    .ok (.ofNat (mine / MAX_BPS.toNat), .ofNat (theirs / MAX_BPS.toNat), true)

structure CalculatedStakeRewards where
  stakerRewards : UInt64
  voterRewards : UInt64
  newCreditsObserved : UInt64
  deriving DecidableEq

structure CalculationEnvironment where
  rewardedEpoch : UInt64
  pointValue : PointValue
  /-- the effective stake of a delegation in an epoch -/
  stakeAt : Delegation → UInt64 → UInt64

namespace CalculationEnvironment

variable (env : CalculationEnvironment)

def rewardsOfPoints (points : ℕ) : Except RewardsPanic UInt64 := do
  let product ← mulOrPanic .rewardsIntermediateShouldFitWithinU128 points
    env.pointValue.rewards.toNat
  let rewards := product / env.pointValue.points
  if rewards < 2 ^ 64 then .ok (.ofNat rewards) else .error .rewardsShouldFitWithinU64

/-- The parts of a reward, which is withheld if one of the sides would get nothing. -/
def splitRewards (voterCommissionBps : UInt16) (newCreditsObserved rewards : UInt64) :
    Except RewardsPanic (Option CalculatedStakeRewards) :=
  if rewards = 0 then .ok none
  else do
    let (voterRewards, stakerRewards, isSplit) ← commissionSplit voterCommissionBps rewards
    if (voterRewards = 0 ∨ stakerRewards = 0) ∧ isSplit then .ok none
    else .ok (some { stakerRewards, voterRewards, newCreditsObserved })

/-- Whether only the credits are to be moved on: there is no inflation, the stake was activated in
the rewarded epoch, or its vote account was made anew. -/
def skipsReward (stake : Stake) (calculated : CalculatedStakePoints) : Bool :=
  env.pointValue.rewards = 0 || stake.delegation.activationEpoch = env.rewardedEpoch
    || calculated.forceCreditsUpdateWithSkippedReward

def calculateStakeRewards (stake : Stake) (voterCommissionBps : UInt16) (voteState : VoteStateView) :
    Except RewardsPanic (Option CalculatedStakeRewards) :=
  let calculated := calculateStakePointsAndCredits env.stakeAt stake voteState
  if env.skipsReward stake calculated then
    .ok (some
      { stakerRewards := 0, voterRewards := 0
        newCreditsObserved := calculated.newCreditsObserved })
  else if calculated.points = 0 then .ok none
  else if env.pointValue.points = 0 then .ok none
  else do
    let rewards ← env.rewardsOfPoints calculated.points
    splitRewards voterCommissionBps calculated.newCreditsObserved rewards

def paidStake (stake : Stake) (calculated : CalculatedStakeRewards) : Stake where
  delegation := { stake.delegation with stake := stake.delegation.stake + calculated.stakerRewards }
  creditsObserved := calculated.newCreditsObserved

def redeemRewards (stakeState : StakeStateV2) (voterCommissionBps : UInt16)
    (voteState : VoteStateView) :
    Except RewardsPanic (Except RedeemError (UInt64 × UInt64 × Stake)) :=
  match stakeState with
  | .stake _ stake _ => do
    match ← env.calculateStakeRewards stake voterCommissionBps voteState with
    | some calculated =>
      .ok (.ok (calculated.stakerRewards, calculated.voterRewards, paidStake stake calculated))
    | none => .ok (.error .noCreditsToRedeem)
  | _ => .ok (.error .invalidAccountData)

end CalculationEnvironment

end BlackBull.Runtime
