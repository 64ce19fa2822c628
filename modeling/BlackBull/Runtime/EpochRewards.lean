import BlackBull.Lib.OrdMap
import BlackBull.Lib.ParFold
import BlackBull.Runtime.InflationRewards

/-!
# Partitioned epoch rewards

`runtime/src/bank/partitioned_epoch_rewards`: the calculation of the rewards of an epoch in its
first block, and the payment of the commissions.
-/

namespace BlackBull.Runtime

open Svm

instance : LinearOrder Pubkey :=
  LinearOrder.lift' (fun key : Pubkey => key.bytes.map UInt8.toNat) fun key key' h => by
    have hbytes : key.bytes = key'.bytes :=
      List.map_injective_iff.2 (fun _ _ => UInt8.toNat_inj.1) h
    cases key
    cases key'
    simpa using hbytes

def voteProgramId : Pubkey :=
  ⟨[7, 97, 72, 29, 53, 116, 116, 187, 124, 77, 118, 36, 235, 211, 189, 179,
    216, 53, 94, 115, 209, 16, 67, 252, 13, 163, 83, 128, 0, 0, 0, 0], rfl⟩

/-- A vote account is only made from an account that the vote program owns. -/
structure VoteAccount where
  owner : Pubkey
  voteStateView : VoteStateView
  owned : owner = voteProgramId
  deriving DecidableEq

abbrev VoteAccounts := Pubkey → Option VoteAccount

structure CachedVoteAccounts where
  snapshotEpochVoteAccounts : Option VoteAccounts
  rewardedEpochVoteAccounts : Option VoteAccounts
  distributionEpochVoteAccounts : VoteAccounts

/-- What the calculation reads beside the delegations: the effective stake of a delegation in an
epoch, the vote accounts, and what depends on features. -/
structure CalculationParams where
  stakeAt : Delegation → UInt64 → UInt64
  cachedVoteAccounts : CachedVoteAccounts
  minStakeDelegation : Option UInt64
  delayCommissionUpdates : Bool
  commissionRateInBasisPoints : Bool

structure RewardCommission where
  commissionBps : UInt16
  commissionLamports : UInt64
  deriving DecidableEq

abbrev RewardCommissions := OrdMap Pubkey RewardCommission

structure PartitionedStakeReward where
  stakePubkey : Pubkey
  stake : Stake
  stakeReward : UInt64
  commissionBps : UInt16
  deriving DecidableEq

structure PartitionedStakeRewards where
  rewards : List (Option PartitionedStakeReward) := []
  numRewards : ℕ := 0
  deriving DecidableEq

structure DelegationRewards where
  stakeReward : PartitionedStakeReward
  commissionPubkey : Pubkey
  rewardCommission : RewardCommission
  deriving DecidableEq

structure RewardsAccumulator where
  rewardCommissions : RewardCommissions := ∅
  numStakeRewards : ℕ := 0
  totalStakeRewardsLamports : UInt64 := 0

structure StakeRewardCalculation where
  stakeRewards : PartitionedStakeRewards := {}
  totalStakeRewardsLamports : UInt64 := 0

structure PartitionedRewardsCalculation where
  rewardCommissions : RewardCommissions := ∅
  stakeRewards : StakeRewardCalculation := {}
  pointValue : PointValue := ⟨0, 0⟩

def addCommission (commissions : RewardCommissions) (commissionPubkey : Pubkey)
    (rewardCommission : RewardCommission) : RewardCommissions :=
  match commissions.get? commissionPubkey with
  | some dst => commissions.insert commissionPubkey
      { dst with
        commissionLamports := saturatingAdd dst.commissionLamports rewardCommission.commissionLamports }
  | none => commissions.insert commissionPubkey rewardCommission

namespace RewardsAccumulator

def addReward (acc : RewardsAccumulator) (r : DelegationRewards) : RewardsAccumulator where
  rewardCommissions := addCommission acc.rewardCommissions r.commissionPubkey r.rewardCommission
  numStakeRewards := saturateUsize (acc.numStakeRewards + 1)
  totalStakeRewardsLamports :=
    saturatingAdd acc.totalStakeRewardsLamports r.stakeReward.stakeReward

def mergeInto (dst src : RewardsAccumulator) : RewardsAccumulator where
  rewardCommissions := src.rewardCommissions.entries.foldl
    (fun commissions entry => addCommission commissions entry.1 entry.2) dst.rewardCommissions
  numStakeRewards := saturateUsize (dst.numStakeRewards + src.numStakeRewards)
  totalStakeRewardsLamports :=
    saturatingAdd dst.totalStakeRewardsLamports src.totalStakeRewardsLamports

def accumulateIntoLarger (acc rhs : RewardsAccumulator) : RewardsAccumulator :=
  if rhs.rewardCommissions.entries.length ≤ acc.rewardCommissions.entries.length then
    mergeInto acc rhs
  else mergeInto rhs acc

end RewardsAccumulator

namespace CalculationParams

variable (p : CalculationParams)

def filtered (d : Pubkey × StakeAccount) : Option (Pubkey × StakeAccount) :=
  match p.minStakeDelegation with
  | some minStakeDelegation => if d.2.delegation.stake < minStakeDelegation then none else some d
  | none => some d

def pointsOfDelegation (d : Pubkey × StakeAccount) : ℕ :=
  match p.cachedVoteAccounts.distributionEpochVoteAccounts d.2.delegation.voterPubkey with
  | none => 0
  | some voteAccount =>
    if voteAccount.owner ≠ voteProgramId then 0
    else match calculatePoints p.stakeAt d.2.stakeState voteAccount.voteStateView with
      | .ok points => points
      | .error _ => 0

def pointsOfItem (d : Pubkey × StakeAccount) : ℕ := (p.filtered d).elim 0 p.pointsOfDelegation

def calculateRewardPointsPartitioned (split : Cut (Pubkey × StakeAccount)) (rewards : UInt64) :
    Option PointValue :=
  let points := split.fold 0 (fun sum d => (sum + p.pointsOfItem d) % 2 ^ 128)
    (fun sum sum' => (sum + sum') % 2 ^ 128)
  if 0 < points then some { rewards, points } else none

def voteStateForCommission (votePubkey : Pubkey) (voteState : VoteStateView) : VoteStateView :=
  let get (accounts : Option VoteAccounts) := accounts.bind fun accounts => accounts votePubkey
  (((get p.cachedVoteAccounts.snapshotEpochVoteAccounts).or
    (get p.cachedVoteAccounts.rewardedEpochVoteAccounts)).map VoteAccount.voteStateView).getD voteState

def commissionBps (votePubkey : Pubkey) (voteState : VoteStateView) : UInt16 :=
  let source := if p.delayCommissionUpdates then p.voteStateForCommission votePubkey voteState
    else voteState
  if p.commissionRateInBasisPoints then source.inflationRewardsCommission
  else source.commission.toUInt16 * 100

section Rewards

variable (rewardedEpoch : UInt64) (pointValue : PointValue)

def environment : CalculationEnvironment where
  rewardedEpoch := rewardedEpoch
  pointValue := pointValue
  stakeAt := p.stakeAt

/-- `none` where there is no vote account, or nothing to redeem. -/
def redeemDelegationRewards (d : Pubkey × StakeAccount) :
    Except RewardsPanic (Option DelegationRewards) :=
  let votePubkey := d.2.delegation.voterPubkey
  match p.cachedVoteAccounts.distributionEpochVoteAccounts votePubkey with
  | none => .ok none
  | some voteAccount =>
    let voteState := voteAccount.voteStateView
    let commissionBps := p.commissionBps votePubkey voteState
    do match ← (p.environment rewardedEpoch pointValue).redeemRewards d.2.stakeState commissionBps
        voteState with
      | .ok (stakeReward, commissionLamports, stake) =>
        .ok (some
          { stakeReward := { stakePubkey := d.1, stake, stakeReward, commissionBps }
            commissionPubkey := votePubkey
            rewardCommission := { commissionBps, commissionLamports } })
      | .error _ => .ok none

def redeemItem (d : Pubkey × StakeAccount) : Except RewardsPanic (Option DelegationRewards) :=
  match p.filtered d with
  | none => .ok none
  | some d => p.redeemDelegationRewards rewardedEpoch pointValue d

def accumulateItem (acc : Except RewardsPanic RewardsAccumulator) (d : Pubkey × StakeAccount) :
    Except RewardsPanic RewardsAccumulator := do
  let acc ← acc
  match ← p.redeemItem rewardedEpoch pointValue d with
  | none => .ok acc
  | some r => .ok (acc.addReward r)

def joinAccumulators (a b : Except RewardsPanic RewardsAccumulator) :
    Except RewardsPanic RewardsAccumulator := do
  let a ← a
  let b ← b
  .ok (a.accumulateIntoLarger b)

/-- The cells of the stake rewards are written in the order of the delegations, whatever the
split. -/
def calculateStakeRewardsAndCommissions (split : Cut (Pubkey × StakeAccount)) :
    Except RewardsPanic (RewardCommissions × StakeRewardCalculation) := do
  let cells ← split.items.mapM (p.redeemItem rewardedEpoch pointValue)
  let acc ← split.fold (.ok {}) (p.accumulateItem rewardedEpoch pointValue) joinAccumulators
  .ok (acc.rewardCommissions,
    { stakeRewards :=
        { rewards := cells.map fun cell => cell.map DelegationRewards.stakeReward
          numRewards := acc.numStakeRewards }
      totalStakeRewardsLamports := acc.totalStakeRewardsLamports })

end Rewards

/-- The two passes over the delegations, each split in its own way. -/
def calculateRewardsForPartitioning (rewardedEpoch rewards : UInt64)
    (pointsSplit split : Cut (Pubkey × StakeAccount)) :
    Except RewardsPanic PartitionedRewardsCalculation :=
  match p.calculateRewardPointsPartitioned pointsSplit rewards with
  | none => .ok {}
  | some pointValue => do
    let (rewardCommissions, stakeRewards) ←
      p.calculateStakeRewardsAndCommissions rewardedEpoch pointValue split
    .ok { rewardCommissions, stakeRewards, pointValue }

end CalculationParams

structure EpochBank where
  slot : ℕ
  accounts : Accounts
  capitalization : UInt64

structure EpochRewardInfo where
  lamports : Int64
  postBalance : UInt64
  commissionBps : UInt16
  deriving DecidableEq

namespace EpochBank

variable (b : EpochBank)

def rewardCommissionAccount (entry : Pubkey × RewardCommission) :
    Option (Pubkey × EpochRewardInfo × AccountSharedData) := do
  let (account, _) ← getAccountSharedData b.accounts entry.1
  let lamports ← checkedAdd account.lamports entry.2.commissionLamports
  some (entry.1,
    { lamports := entry.2.commissionLamports.toInt64
      postBalance := lamports
      commissionBps := entry.2.commissionBps },
    { account with lamports })

def loadAndRewardCommissionAccounts (rewardCommissions : RewardCommissions) :
    List (Pubkey × EpochRewardInfo × AccountSharedData) × UInt64 :=
  let accountsWithRewards := rewardCommissions.entries.filterMap b.rewardCommissionAccount
  (accountsWithRewards, (accountsWithRewards.map fun entry => entry.2.1.lamports.toUInt64).sum)

def distributeRewardCommissions (calculation : PartitionedRewardsCalculation) :
    Except RewardsPanic (EpochBank × UInt64) :=
  let (accountsWithRewards, totalRewardCommissions) :=
    b.loadAndRewardCommissionAccounts calculation.rewardCommissions
  if totalRewardCommissions + calculation.stakeRewards.totalStakeRewardsLamports
      ≤ calculation.pointValue.rewards then
    .ok ({ b with
      accounts := storeAccounts b.accounts b.slot
        (accountsWithRewards.map fun entry => (entry.1, entry.2.2))
      capitalization := b.capitalization + totalRewardCommissions }, totalRewardCommissions)
  else .error .paidMoreThanExpected

end EpochBank

end BlackBull.Runtime
