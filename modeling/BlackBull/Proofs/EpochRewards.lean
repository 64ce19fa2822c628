import BlackBull.Lib.Weight
import BlackBull.Runtime.EpochRewards

/-!
# The rewards of an epoch

Both passes find the same points, and each share is rounded down, so the shares add up to the
rewards at most.
-/

namespace BlackBull.Runtime

open Svm CalculationEnvironment CalculationParams List DelegationRewards OrdMap

/-! ### Sums -/

variable {r : DelegationRewards} {α : Type}

lemma sum_map_div_le (f : α → ℕ) (n : ℕ) (as : List α) :
    (as.map fun a => f a / n).sum ≤ (as.map f).sum / n := by
  induction as with
  | nil => exact Nat.zero_le _
  | cons a as ih =>
    exact (Nat.add_le_add_left ih _).trans Nat.div_add_div_le_add_div

lemma toNat_sum {xs : List UInt64} (h : (xs.map UInt64.toNat).sum < 2 ^ 64) :
    xs.sum.toNat = (xs.map UInt64.toNat).sum := by
  induction xs with
  | nil => rfl
  | cons x xs ih =>
    rw [map_cons, sum_cons] at h ⊢
    rw [sum_cons, UInt64.toNat_add, ih (by omega), Nat.mod_eq_of_lt h]

lemma sum_filterMap_le {β : Type} {f : α → Option β} {g : β → ℕ} {h : α → ℕ} {as : List α}
    (hle : ∀ a ∈ as, ∀ b ∈ f a, g b ≤ h a) : ((as.filterMap f).map g).sum ≤ (as.map h).sum := by
  induction as with
  | nil => exact Nat.le_refl _
  | cons a as ih =>
    obtain ⟨ha, has⟩ := forall_mem_cons.1 hle
    rcases hfa : f a with _ | b
    · rw [filterMap_cons_none hfa]
      exact (ih has).trans (Nat.le_add_left _ _)
    · rw [filterMap_cons_some hfa]
      exact Nat.add_le_add (ha b hfa) (ih has)

lemma eq_error_of_evaluates {ε : Type} [DecidableEq ε] {x : Except ε α} {e : ε}
    (h : (match x with | .error e' => decide (e' = e) | .ok _ => false) = true) : x = .error e := by
  cases x with
  | error e' => rw [of_decide_eq_true h]
  | ok a => cases h

def saturateU64 (n : ℕ) : UInt64 := .ofNat (min n (2 ^ 64 - 1))

lemma toNat_saturateU64 (n : ℕ) : (saturateU64 n).toNat = min n (2 ^ 64 - 1) :=
  UInt64.toNat_ofNat_of_lt' (lt_of_le_of_lt (Nat.min_le_right _ _) (by decide))

lemma saturateU64_toNat (x : UInt64) : saturateU64 x.toNat = x := by
  have hx := x.toNat_lt
  rw [← UInt64.toNat_inj, toNat_saturateU64]
  omega

lemma saturatingAdd_saturateU64 (n m : ℕ) :
    saturatingAdd (saturateU64 n) (saturateU64 m) = saturateU64 (n + m) := by
  unfold saturatingAdd
  rw [toNat_saturateU64, toNat_saturateU64]
  congr 1
  omega

lemma saturatingAdd_toNat (n : ℕ) (x : UInt64) :
    saturatingAdd (saturateU64 n) x = saturateU64 (n + x.toNat) := by
  rw [← saturatingAdd_saturateU64, saturateU64_toNat]

lemma saturateUsize_add (n m : ℕ) :
    saturateUsize (saturateUsize n + saturateUsize m) = saturateUsize (n + m) := by
  unfold saturateUsize
  omega

/-! ### The reward of a delegation -/

lemma mulOrPanic_ok {panic : RewardsPanic} {a b : ℕ} (h : a * b < 2 ^ 128) :
    mulOrPanic panic a b = .ok (a * b) := if_pos h

/-- The two parts of a whole: what is lost is a lamport at most, and nothing if there is nothing to
split. -/
structure Parts (whole : ℕ) (commissionBps : UInt16) (voter staker : UInt64) : Prop where
  le : voter.toNat + staker.toNat ≤ whole
  loss : whole ≤ voter.toNat + staker.toNat + 1
  exact : commissionBps = 0 ∨ MAX_BPS ≤ commissionBps → voter.toNat + staker.toNat = whole

lemma parts_of_shares {on : UInt64} {split : ℕ} (hsplit : split ≤ 10000) :
    on.toNat * split / 10000 + on.toNat * (10000 - split) / 10000 ≤ on.toNat
      ∧ on.toNat ≤ on.toNat * split / 10000 + on.toNat * (10000 - split) / 10000 + 1 := by
  have hsum : on.toNat * split + on.toNat * (10000 - split) = on.toNat * 10000 := by
    rw [← Nat.mul_add, Nat.add_sub_cancel' hsplit]
  omega

lemma toNat_min_MAX_BPS (commissionBps : UInt16) :
    (min commissionBps MAX_BPS).toNat = min commissionBps.toNat 10000 := by
  rw [UInt16.min_def]
  split_ifs with h
  · exact (Nat.min_eq_left (UInt16.le_iff_toNat_le.1 h)).symm
  · exact (Nat.min_eq_right (Nat.le_of_lt (UInt16.not_le.1 h))).symm

lemma commissionSplit_of_ne {commissionBps : UInt16} (hzero : min commissionBps MAX_BPS ≠ 0)
    (hmax : min commissionBps MAX_BPS ≠ MAX_BPS) (on : UInt64) :
    commissionSplit commissionBps on
      = .ok (.ofNat (on.toNat * (min commissionBps MAX_BPS).toNat / 10000),
          .ofNat (on.toNat * (10000 - (min commissionBps MAX_BPS).toNat) / 10000), true) := by
  have hmin := toNat_min_MAX_BPS commissionBps
  have hle : ¬ MAX_BPS < min commissionBps MAX_BPS := by
    rw [UInt16.lt_iff_toNat_lt, hmin]
    show ¬ 10000 < min commissionBps.toNat 10000
    omega
  have hsub : (MAX_BPS - min commissionBps MAX_BPS).toNat
      = 10000 - (min commissionBps MAX_BPS).toNat :=
    UInt16.toNat_sub_of_le _ _ (UInt16.not_lt.1 hle)
  have hfits (n : ℕ) (hn : n ≤ 10000) : on.toNat * n < 2 ^ 128 :=
    lt_of_le_of_lt (Nat.mul_le_mul on.toNat_lt.le hn) (by decide)
  unfold commissionSplit
  rw [if_neg hzero, if_neg hmax, mulOrPanic_ok (hfits _ (by omega)), hsub,
    mulOrPanic_ok (hfits _ (by omega))]
  simp only [if_neg hle]
  rfl

lemma commissionSplit_spec (commissionBps : UInt16) (on : UInt64) :
    ∃ voter staker isSplit, commissionSplit commissionBps on = .ok (voter, staker, isSplit)
      ∧ Parts on.toNat commissionBps voter staker := by
  by_cases hzero : min commissionBps MAX_BPS = 0
  · refine ⟨0, on, false, ?_, by simp, by simp, by simp⟩
    rw [commissionSplit, if_pos hzero]
  by_cases hmax : min commissionBps MAX_BPS = MAX_BPS
  · refine ⟨on, 0, false, ?_, by simp, by simp, by simp⟩
    rw [commissionSplit, if_neg hzero, if_pos hmax]
  have hmin := toNat_min_MAX_BPS commissionBps
  have hparts := @parts_of_shares on (min commissionBps MAX_BPS).toNat (by omega)
  have hon := on.toNat_lt
  refine ⟨_, _, _, commissionSplit_of_ne hzero hmax on, ?_⟩
  have hvoter := UInt64.toNat_ofNat_of_lt'
    (n := on.toNat * (min commissionBps MAX_BPS).toNat / 10000) (by show _ < 2 ^ 64; omega)
  have hstaker := UInt64.toNat_ofNat_of_lt'
    (n := on.toNat * (10000 - (min commissionBps MAX_BPS).toNat) / 10000) (by show _ < 2 ^ 64; omega)
  refine ⟨?_, ?_, ?_⟩
  · rw [hvoter, hstaker]
    exact hparts.1
  · rw [hvoter, hstaker]
    exact hparts.2
  · rintro (hbps | hbps)
    · exact absurd (by rw [hbps]; rfl) hzero
    · have hle : 10000 ≤ commissionBps.toNat := UInt16.le_iff_toNat_le.1 hbps
      refine absurd (UInt16.toNat_inj.1 ?_) hmax
      rw [hmin]
      exact Nat.min_eq_right hle

section Delegation

variable {env : CalculationEnvironment} {stake : Stake} {commissionBps : UInt16}
  {voteState : VoteStateView}

lemma splitRewards_spec (commissionBps : UInt16) (newCreditsObserved rewards : UInt64) :
    ∃ r, splitRewards commissionBps newCreditsObserved rewards = .ok r
      ∧ ∀ c ∈ r, c.newCreditsObserved = newCreditsObserved
        ∧ Parts rewards.toNat commissionBps c.voterRewards c.stakerRewards := by
  obtain ⟨voter, staker, isSplit, hsplit, hparts⟩ := commissionSplit_spec commissionBps rewards
  unfold splitRewards
  split_ifs with hzero
  · exact ⟨none, rfl, by simp⟩
  · rw [hsplit]
    by_cases hlost : (voter = 0 ∨ staker = 0) ∧ isSplit
    · refine ⟨none, if_pos hlost, by simp⟩
    · refine ⟨some ⟨staker, voter, newCreditsObserved⟩, if_neg hlost, ?_⟩
      intro c hc
      cases Option.mem_some_iff.1 hc
      exact ⟨rfl, hparts⟩

/-- What points are worth, before the split. -/
def wholeReward (pointValue : PointValue) (points : ℕ) : ℕ :=
  points * pointValue.rewards.toNat / pointValue.points

lemma rewardsOfPoints_ok {points : ℕ} (hle : points ≤ env.pointValue.points)
    (hfits : points * env.pointValue.rewards.toNat < 2 ^ 128) :
    ∃ rewards : UInt64, env.rewardsOfPoints points = .ok rewards
      ∧ rewards.toNat = wholeReward env.pointValue points := by
  have hwhole : wholeReward env.pointValue points < 2 ^ 64 :=
    lt_of_le_of_lt (Nat.div_le_of_le_mul (Nat.mul_le_mul_right _ hle)) (UInt64.toNat_lt _)
  refine ⟨.ofNat (wholeReward env.pointValue points), ?_, UInt64.toNat_ofNat_of_lt' hwhole⟩
  unfold rewardsOfPoints
  rw [mulOrPanic_ok hfits]
  exact if_pos hwhole

def pointsOf (env : CalculationEnvironment) (stake : Stake) (voteState : VoteStateView) : ℕ :=
  (calculateStakePointsAndCredits env.stakeAt stake voteState).points

lemma calculateStakeRewards_spec (hle : pointsOf env stake voteState ≤ env.pointValue.points)
    (hfits : stake.delegation.activationEpoch ≠ env.rewardedEpoch →
      pointsOf env stake voteState * env.pointValue.rewards.toNat < 2 ^ 128) :
    ∃ r, env.calculateStakeRewards stake commissionBps voteState = .ok r
      ∧ ∀ c ∈ r, (c.voterRewards = 0 ∧ c.stakerRewards = 0)
        ∨ Parts (wholeReward env.pointValue (pointsOf env stake voteState)) commissionBps
            c.voterRewards c.stakerRewards := by
  unfold calculateStakeRewards
  dsimp only
  split_ifs with hskip hnone hzero
  · refine ⟨_, rfl, fun c hc => ?_⟩
    cases Option.mem_some_iff.1 hc
    exact .inl ⟨rfl, rfl⟩
  · exact ⟨none, rfl, by simp⟩
  · exact ⟨none, rfl, by simp⟩
  · have hactive : stake.delegation.activationEpoch ≠ env.rewardedEpoch := by
      intro hactivated
      rw [skipsReward, hactivated] at hskip
      simp at hskip
    obtain ⟨rewards, hrewards, hwhole⟩ := rewardsOfPoints_ok hle (hfits hactive)
    unfold pointsOf at hrewards hwhole
    rw [hrewards]
    obtain ⟨r, hr, hparts⟩ := splitRewards_spec commissionBps
      (calculateStakePointsAndCredits env.stakeAt stake voteState).newCreditsObserved rewards
    refine ⟨r, hr, fun c hc => .inr ?_⟩
    rw [pointsOf, ← hwhole]
    exact (hparts c hc).2

end Delegation

lemma StakeAccount.stakeState_eq (a : StakeAccount) :
    ∃ m flags, a.stakeState = .stake m a.stake flags := by
  obtain ⟨lamports, stakeState, hdelegated⟩ := a
  cases stakeState with
  | stake m stake flags => exact ⟨m, flags, rfl⟩
  | uninitialized | initialized m | rewardsPool => cases hdelegated

section Items

variable {p : CalculationParams} {rewardedEpoch : UInt64} {pointValue : PointValue}
  {d : Pubkey × StakeAccount}

lemma filtered_cases (p : CalculationParams) (d : Pubkey × StakeAccount) :
    p.filtered d = none ∨ p.filtered d = some d := by
  unfold filtered
  split
  · split_ifs
    · exact .inl rfl
    · exact .inr rfl
  · exact .inr rfl

def recordOf (d : Pubkey × StakeAccount) (commissionBps : UInt16) (c : CalculatedStakeRewards) :
    DelegationRewards where
  stakeReward :=
    { stakePubkey := d.1
      stake := paidStake d.2.stake c
      stakeReward := c.stakerRewards
      commissionBps }
  commissionPubkey := d.2.delegation.voterPubkey
  rewardCommission := { commissionBps, commissionLamports := c.voterRewards }

lemma redeemItem_cases (p : CalculationParams) (rewardedEpoch : UInt64) (pointValue : PointValue)
    (d : Pubkey × StakeAccount) :
    (p.redeemItem rewardedEpoch pointValue d = .ok none ∧ p.pointsOfItem d = 0)
      ∨ ∃ voteAccount : VoteAccount,
        p.cachedVoteAccounts.distributionEpochVoteAccounts d.2.delegation.voterPubkey
            = some voteAccount
          ∧ p.redeemItem rewardedEpoch pointValue d
            = ((p.environment rewardedEpoch pointValue).calculateStakeRewards d.2.stake
                (p.commissionBps d.2.delegation.voterPubkey voteAccount.voteStateView)
                voteAccount.voteStateView).map
              (Option.map (recordOf d
                (p.commissionBps d.2.delegation.voterPubkey voteAccount.voteStateView)))
          ∧ p.pointsOfItem d
            = pointsOf (p.environment rewardedEpoch pointValue) d.2.stake
              voteAccount.voteStateView := by
  unfold redeemItem pointsOfItem
  rcases filtered_cases p d with hnone | hsome
  · rw [hnone]
    exact .inl ⟨rfl, rfl⟩
  rw [hsome]
  dsimp only [Option.elim]
  unfold redeemDelegationRewards pointsOfDelegation
  dsimp only
  rcases hvote : p.cachedVoteAccounts.distributionEpochVoteAccounts d.2.delegation.voterPubkey with
    _ | voteAccount
  · exact .inl ⟨rfl, rfl⟩
  obtain ⟨m, flags, hstate⟩ := d.2.stakeState_eq
  refine .inr ⟨voteAccount, rfl, ?_, ?_⟩
  · simp only [hstate, redeemRewards]
    rcases (p.environment rewardedEpoch pointValue).calculateStakeRewards d.2.stake
      (p.commissionBps d.2.delegation.voterPubkey voteAccount.voteStateView)
      voteAccount.voteStateView with e | _ | c
    · rfl
    · rfl
    · rfl
  · dsimp only
    rw [if_neg (not_not_intro voteAccount.owned), hstate]
    rfl

/-- The commission of a vote account. -/
def bpsAt (p : CalculationParams) (votePubkey : Pubkey) : UInt16 :=
  (p.cachedVoteAccounts.distributionEpochVoteAccounts votePubkey).elim 0 fun voteAccount =>
    p.commissionBps votePubkey voteAccount.voteStateView

/-- The record of a delegation splits what its points are worth, or pays nothing. -/
structure RecordFor (p : CalculationParams) (pointValue : PointValue) (d : Pubkey × StakeAccount)
    (r : DelegationRewards) : Prop where
  stakePubkey : r.stakeReward.stakePubkey = d.1
  bps : r.rewardCommission.commissionBps = bpsAt p r.commissionPubkey
  parts : (r.rewardCommission.commissionLamports = 0 ∧ r.stakeReward.stakeReward = 0)
    ∨ Parts (wholeReward pointValue (p.pointsOfItem d)) r.rewardCommission.commissionBps
        r.rewardCommission.commissionLamports r.stakeReward.stakeReward

lemma redeemItem_spec (hle : p.pointsOfItem d ≤ pointValue.points)
    (hfits : d.2.delegation.activationEpoch ≠ rewardedEpoch →
      p.pointsOfItem d * pointValue.rewards.toNat < 2 ^ 128) :
    ∃ r, p.redeemItem rewardedEpoch pointValue d = .ok r ∧ ∀ x ∈ r, RecordFor p pointValue d x := by
  rcases redeemItem_cases p rewardedEpoch pointValue d with ⟨hnone, -⟩ | ⟨v, hvote, hredeem, hpoints⟩
  · exact ⟨none, hnone, by simp⟩
  rw [hpoints] at hle hfits
  obtain ⟨r, hr, hparts⟩ := @calculateStakeRewards_spec (p.environment rewardedEpoch pointValue)
    d.2.stake (p.commissionBps d.2.delegation.voterPubkey v.voteStateView) v.voteStateView hle hfits
  rw [hr] at hredeem
  refine ⟨_, hredeem, fun x hx => ?_⟩
  obtain ⟨c, hc, rfl⟩ := Option.mem_map.1 hx
  refine ⟨rfl, ?_, ?_⟩
  · show _ = bpsAt p d.2.delegation.voterPubkey
    rw [bpsAt, hvote]
    rfl
  · rw [hpoints]
    exact hparts c hc

lemma RecordFor.paid_le (h : RecordFor p pointValue d r) :
    r.stakeReward.stakeReward.toNat + r.rewardCommission.commissionLamports.toNat
      ≤ wholeReward pointValue (p.pointsOfItem d) := by
  rcases h.parts with ⟨hvoter, hstaker⟩ | hparts
  · rw [hvoter, hstaker]
    exact Nat.zero_le _
  · rw [Nat.add_comm]
    exact hparts.le

end Items

/-! ### The points of all delegations -/

lemma fold_points (f : Pubkey × StakeAccount → ℕ) (split : Cut (Pubkey × StakeAccount)) :
    split.fold 0 (fun sum d => (sum + f d) % 2 ^ 128) (fun sum sum' => (sum + sum') % 2 ^ 128)
      = (split.items.map f).sum % 2 ^ 128 := by
  refine split.fold_induction (P := fun ds sum => sum = (ds.map f).sum % 2 ^ 128) rfl ?_ ?_
  · intro ds sum d _ hsum
    rw [hsum, map_append, sum_append, map_singleton, sum_singleton,
      Nat.mod_add_mod]
  · intro ds sum ds' sum' hsum hsum'
    rw [hsum, hsum', map_append, sum_append, ← Nat.add_mod]

/-! ### What the threads accumulate -/

/-- The commissions of an account, summed over the records. -/
def commissionOf (bps : Pubkey → UInt16) (rs : List DelegationRewards) (key : Pubkey) :
    Option RewardCommission :=
  if rs.any fun r => r.commissionPubkey = key then
    some
      { commissionBps := bps key
        commissionLamports := saturateU64 (((rs.filter fun r => r.commissionPubkey = key).map
          fun r => r.rewardCommission.commissionLamports.toNat).sum) }
  else none

/-- The accumulator has the sums over the records. -/
structure Gathers (bps : Pubkey → UInt16) (acc : RewardsAccumulator)
    (rs : List DelegationRewards) : Prop where
  commissions : ∀ key, acc.rewardCommissions.get? key = commissionOf bps rs key
  num : acc.numStakeRewards = saturateUsize rs.length
  total : acc.totalStakeRewardsLamports
    = saturateU64 (rs.map fun r => r.stakeReward.stakeReward.toNat).sum

def joinCommission : Option RewardCommission → Option RewardCommission → Option RewardCommission
  | some dst, some src => some
      { dst with commissionLamports := saturatingAdd dst.commissionLamports src.commissionLamports }
  | none, src => src
  | dst, none => dst

lemma joinCommission_none (c : Option RewardCommission) : joinCommission c none = c := by
  cases c <;> rfl

lemma get?_addCommission (commissions : RewardCommissions) (k : Pubkey) (r : RewardCommission)
    (key : Pubkey) :
    (addCommission commissions k r).get? key
      = if k = key then joinCommission (commissions.get? key) (some r)
        else commissions.get? key := by
  unfold addCommission
  cases hget : commissions.get? k with
  | none | some dst =>
    rw [get?_insert]
    split_ifs with hkey
    · rw [← hkey, hget]
      rfl
    · rfl

lemma get?_foldl_addCommission {entries : List (Pubkey × RewardCommission)}
    (hsorted : entries.Pairwise (·.1 < ·.1)) (commissions : RewardCommissions) (key : Pubkey) :
    (entries.foldl (fun commissions entry => addCommission commissions entry.1 entry.2)
        commissions).get? key
      = joinCommission (commissions.get? key) (OrdMap.lookup key entries) := by
  induction entries generalizing commissions with
  | nil => exact (joinCommission_none _).symm
  | cons entry entries ih =>
    obtain ⟨hfirst, hrest⟩ := pairwise_cons.1 hsorted
    rw [foldl_cons, ih hrest, get?_addCommission, OrdMap.lookup]
    split_ifs with hkey
    · have hlater : OrdMap.lookup key entries = none :=
        OrdMap.lookup_eq_none.2 fun e he => by
          rw [← hkey]
          exact (hfirst e he).ne'
      rw [hlater, joinCommission_none]
    · rfl

section Gather

variable {bps : Pubkey → UInt16} {acc acc' : RewardsAccumulator} {rs rs' : List DelegationRewards}

lemma commissionOf_append (bps : Pubkey → UInt16) (rs rs' : List DelegationRewards)
    (key : Pubkey) :
    commissionOf bps (rs ++ rs') key
      = joinCommission (commissionOf bps rs key) (commissionOf bps rs' key) := by
  -- a part without a record of the key adds nothing to the sum
  have hnone {rs : List DelegationRewards} (h : ¬ rs.any fun r => r.commissionPubkey = key) :
      rs.filter (fun r => r.commissionPubkey = key) = [] := by
    refine filter_eq_nil_iff.2 fun r hr hkey => h ?_
    exact any_eq_true.2 ⟨r, hr, hkey⟩
  unfold commissionOf
  rw [any_append, filter_append, map_append, sum_append]
  by_cases h : rs.any fun r => r.commissionPubkey = key
  · by_cases h' : rs'.any fun r => r.commissionPubkey = key
    · rw [if_pos h, if_pos h', if_pos (by rw [h]; rfl), joinCommission,
        saturatingAdd_saturateU64]
    · rw [if_pos h, if_neg h', if_pos (by rw [h]; rfl), hnone h']
      rfl
  · by_cases h' : rs'.any fun r => r.commissionPubkey = key
    · rw [if_neg h, if_pos h', if_pos (by rw [h', Bool.or_true]), hnone h, map_nil,
        sum_nil, Nat.zero_add]
      rfl
    · rw [if_neg h, if_neg h', if_neg (by simpa using ⟨by simpa using h, by simpa using h'⟩)]
      rfl

lemma commissionOf_append_comm (bps : Pubkey → UInt16) (rs rs' : List DelegationRewards)
    (key : Pubkey) : commissionOf bps (rs ++ rs') key = commissionOf bps (rs' ++ rs) key := by
  unfold commissionOf
  rw [any_append, any_append, Bool.or_comm, filter_append, filter_append,
    map_append, map_append, sum_append, sum_append, Nat.add_comm]

lemma commissionOf_singleton (hbps : r.rewardCommission.commissionBps = bps r.commissionPubkey)
    (key : Pubkey) :
    commissionOf bps [r] key
      = if r.commissionPubkey = key then some r.rewardCommission else none := by
  unfold commissionOf
  by_cases hkey : r.commissionPubkey = key
  · have hfilter : [r].filter (fun r => r.commissionPubkey = key) = [r] :=
      filter_cons_of_pos (by simpa using hkey)
    rw [if_pos (by simpa using hkey), if_pos hkey, hfilter, map_singleton, sum_singleton,
      saturateU64_toNat, ← hkey, ← hbps]
  · rw [if_neg (by simpa using hkey), if_neg hkey]

lemma Gathers.addReward (h : Gathers bps acc rs)
    (hbps : r.rewardCommission.commissionBps = bps r.commissionPubkey) :
    Gathers bps (acc.addReward r) (rs ++ [r]) where
  commissions key := by
    rw [commissionOf_append, commissionOf_singleton hbps, ← h.commissions]
    refine (get?_addCommission _ _ _ _).trans ?_
    split_ifs
    · rfl
    · exact (joinCommission_none _).symm
  num := by
    show saturateUsize (acc.numStakeRewards + 1) = _
    rw [h.num, length_append]
    exact saturateUsize_add rs.length 1
  total := by
    show saturatingAdd acc.totalStakeRewardsLamports r.stakeReward.stakeReward = _
    rw [h.total, saturatingAdd_toNat, map_append, sum_append, map_singleton,
      sum_singleton]

lemma Gathers.mergeInto (h : Gathers bps acc rs) (h' : Gathers bps acc' rs') :
    Gathers bps (acc.mergeInto acc') (rs ++ rs') where
  commissions key := by
    rw [commissionOf_append, ← h.commissions, ← h'.commissions]
    exact get?_foldl_addCommission acc'.rewardCommissions.sorted acc.rewardCommissions key
  num := by
    show saturateUsize (acc.numStakeRewards + acc'.numStakeRewards) = _
    rw [h.num, h'.num, length_append, saturateUsize_add]
  total := by
    show saturatingAdd acc.totalStakeRewardsLamports acc'.totalStakeRewardsLamports = _
    rw [h.total, h'.total, saturatingAdd_saturateU64, map_append, sum_append]

lemma Gathers.append_comm (h : Gathers bps acc (rs ++ rs')) : Gathers bps acc (rs' ++ rs) where
  commissions key := (h.commissions key).trans (commissionOf_append_comm bps rs rs' key)
  num := by rw [h.num, length_append, length_append, Nat.add_comm]
  total := by
    rw [h.total, map_append, map_append, sum_append, sum_append, Nat.add_comm]

lemma Gathers.accumulateIntoLarger (h : Gathers bps acc rs) (h' : Gathers bps acc' rs') :
    Gathers bps (acc.accumulateIntoLarger acc') (rs ++ rs') := by
  unfold RewardsAccumulator.accumulateIntoLarger
  split_ifs
  · exact h.mergeInto h'
  · exact (h'.mergeInto h).append_comm

lemma Gathers.unique (h : Gathers bps acc rs) (h' : Gathers bps acc' rs) : acc = acc' := by
  obtain ⟨commissions, num, total⟩ := acc
  obtain ⟨commissions', num', total'⟩ := acc'
  have hcommissions : commissions = commissions' :=
    ext_get? fun key => (h.commissions key).trans (h'.commissions key).symm
  have hnum : num = num' := h.num.trans h'.num.symm
  have htotal : total = total' := h.total.trans h'.total.symm
  rw [hcommissions, hnum, htotal]

end Gather

/-! ### All delegations -/

section Calculation

variable {p : CalculationParams} {rewardedEpoch : UInt64} {pointValue : PointValue}
  {split : Cut (Pubkey × StakeAccount)} {records : Pubkey × StakeAccount → Option DelegationRewards}

/-- Each delegation is redeemed with its record. -/
def Records (p : CalculationParams) (rewardedEpoch : UInt64) (pointValue : PointValue)
    (ds : List (Pubkey × StakeAccount)) (records : Pubkey × StakeAccount → Option DelegationRewards) :
    Prop :=
  ∀ d ∈ ds, p.redeemItem rewardedEpoch pointValue d = .ok (records d)
    ∧ ∀ r ∈ records d, RecordFor p pointValue d r

lemma exists_records {ds : List (Pubkey × StakeAccount)}
    (h : ∀ d ∈ ds, ∃ r, p.redeemItem rewardedEpoch pointValue d = .ok r
      ∧ ∀ x ∈ r, RecordFor p pointValue d x) :
    ∃ records, Records p rewardedEpoch pointValue ds records := by
  refine ⟨fun d => (p.redeemItem rewardedEpoch pointValue d).toOption.join, fun d hd => ?_⟩
  obtain ⟨r, hr, hrecord⟩ := h d hd
  dsimp only
  rw [hr]
  exact ⟨rfl, hrecord⟩

lemma fold_accumulateItem (h : Records p rewardedEpoch pointValue split.items records) :
    ∃ acc, split.fold (.ok {}) (p.accumulateItem rewardedEpoch pointValue) joinAccumulators = .ok acc
      ∧ Gathers (bpsAt p) acc (split.items.filterMap records) := by
  refine split.fold_induction
    (P := fun ds m => ∃ acc, m = Except.ok acc ∧ Gathers (bpsAt p) acc (ds.filterMap records))
    ⟨{}, rfl, fun _ => rfl, rfl, rfl⟩ ?_ ?_
  · rintro ds _ d hd ⟨acc, rfl, hacc⟩
    obtain ⟨hredeem, hrecord⟩ := h d hd
    rw [filterMap_append]
    unfold accumulateItem
    rw [hredeem]
    rcases hr : records d with _ | r
    · refine ⟨acc, rfl, ?_⟩
      rwa [filterMap_cons_none hr, filterMap_nil, append_nil]
    · refine ⟨acc.addReward r, rfl, ?_⟩
      rw [filterMap_cons_some hr]
      exact hacc.addReward (hrecord r hr).bps
  · rintro ds _ ds' _ ⟨acc, rfl, hacc⟩ ⟨acc', rfl, hacc'⟩
    rw [filterMap_append]
    exact ⟨acc.accumulateIntoLarger acc', rfl, hacc.accumulateIntoLarger hacc'⟩

lemma calculateStakeRewardsAndCommissions_ok
    (h : Records p rewardedEpoch pointValue split.items records) :
    ∃ acc, Gathers (bpsAt p) acc (split.items.filterMap records)
      ∧ p.calculateStakeRewardsAndCommissions rewardedEpoch pointValue split
        = .ok (acc.rewardCommissions,
          { stakeRewards :=
              { rewards := split.items.map fun d => (records d).map stakeReward
                numRewards := acc.numStakeRewards }
            totalStakeRewardsLamports := acc.totalStakeRewardsLamports }) := by
  obtain ⟨acc, hfold, hacc⟩ := fold_accumulateItem h
  refine ⟨acc, hacc, ?_⟩
  unfold calculateStakeRewardsAndCommissions
  rw [mapM_eq_map fun d hd => (h d hd).1, hfold]
  show Except.ok (_, _) = Except.ok (_, _)
  rw [map_map]
  rfl

/-- The commissions, summed. -/
def commissionLamports (commissions : RewardCommissions) : ℕ :=
  (commissions.entries.map fun entry => entry.2.commissionLamports.toNat).sum

/-- The rewards of the stakes, summed. -/
def stakeRewardLamports (rewards : PartitionedStakeRewards) : ℕ :=
  ((rewards.rewards.filterMap id).map fun reward => reward.stakeReward.toNat).sum

lemma Gathers.commissionLamports_eq {bps : Pubkey → UInt16} {acc : RewardsAccumulator}
    {rs : List DelegationRewards} (h : Gathers bps acc rs)
    (hfits : (rs.map fun r => r.rewardCommission.commissionLamports.toNat).sum < 2 ^ 64) :
    commissionLamports acc.rewardCommissions
      = (rs.map fun r => r.rewardCommission.commissionLamports.toNat).sum := by
  have hmem : ∀ r ∈ rs, r.commissionPubkey ∈ acc.rewardCommissions.keys := by
    intro r hr
    refine mem_keys.2 ?_
    rw [h.commissions, commissionOf, if_pos (any_eq_true.2 ⟨r, hr, by simp⟩)]
    exact ⟨_, rfl⟩
  have hall : rs.filter (·.commissionPubkey ∈ acc.rewardCommissions.keys) = rs :=
    filter_eq_self.2 fun r hr => decide_eq_true (hmem r hr)
  have hsum := sum_classes commissionPubkey
    (fun r => r.rewardCommission.commissionLamports.toNat) acc.rewardCommissions.keys_nodup rs
  rw [hall] at hsum
  rw [← hsum, OrdMap.keys, map_map]
  refine congrArg sum (map_congr_left fun entry hentry => ?_)
  have hget := mem_entries.1 (show (entry.1, entry.2) ∈ _ from hentry)
  rw [h.commissions, commissionOf] at hget
  split_ifs at hget
  have hlamports := congrArg RewardCommission.commissionLamports (Option.some.inj hget)
  have hle := List.Sublist.sum_le_sum ((filter_sublist
    (p := fun r : DelegationRewards => r.commissionPubkey = entry.1) (l := rs)).map
      fun r => r.rewardCommission.commissionLamports.toNat) (fun _ _ => Nat.zero_le _)
  rw [← hlamports, toNat_saturateU64]
  exact Nat.min_eq_left (by omega)

lemma paid_le_rewards {ds : List (Pubkey × StakeAccount)}
    (h : Records p rewardedEpoch pointValue ds records) (hpos : 0 < pointValue.points)
    (hpoints : pointValue.points = (ds.map p.pointsOfItem).sum) :
    ((ds.filterMap records).map fun r => r.stakeReward.stakeReward.toNat).sum
        + ((ds.filterMap records).map fun r => r.rewardCommission.commissionLamports.toNat).sum
      ≤ pointValue.rewards.toNat := by
  rw [← sum_map_add]
  calc ((ds.filterMap records).map fun r =>
        r.stakeReward.stakeReward.toNat + r.rewardCommission.commissionLamports.toNat).sum
      ≤ (ds.map fun d => wholeReward pointValue (p.pointsOfItem d)).sum :=
        sum_filterMap_le fun d hd r hr => ((h d hd).2 r hr).paid_le
    _ ≤ (ds.map fun d => p.pointsOfItem d * pointValue.rewards.toNat).sum / pointValue.points :=
        sum_map_div_le _ _ _
    _ = pointValue.points * pointValue.rewards.toNat / pointValue.points := by
        rw [sum_map_mul_right, hpoints]
    _ = pointValue.rewards.toNat := Nat.mul_div_cancel_left _ hpos

lemma stakeRewardLamports_map (ds : List (Pubkey × StakeAccount)) (n : ℕ) :
    stakeRewardLamports
        { rewards := ds.map fun d => (records d).map stakeReward, numRewards := n }
      = ((ds.filterMap records).map fun r => r.stakeReward.stakeReward.toNat).sum := by
  have hcells : (ds.map fun d => (records d).map stakeReward).filterMap id
      = (ds.filterMap records).map stakeReward := by
    rw [filterMap_map, map_filterMap]
    rfl
  unfold stakeRewardLamports
  rw [hcells, map_map]
  rfl

lemma totalRewardCommissions_le {commissions : RewardCommissions} (b : EpochBank)
    (hfits : commissionLamports commissions < 2 ^ 64) :
    (b.loadAndRewardCommissionAccounts commissions).2.toNat ≤ commissionLamports commissions := by
  have hle : ((commissions.entries.filterMap b.rewardCommissionAccount).map fun entry =>
      entry.2.1.lamports.toUInt64.toNat).sum ≤ commissionLamports commissions := by
    refine sum_filterMap_le fun entry _ rewarded hrewarded => ?_
    obtain ⟨account, -, hrewarded⟩ := Option.bind_eq_some_iff.1 hrewarded
    obtain ⟨lamports, -, hrewarded⟩ := Option.bind_eq_some_iff.1 hrewarded
    cases hrewarded
    rw [UInt64.toUInt64_toInt64]
  unfold EpochBank.loadAndRewardCommissionAccounts
  rw [toNat_sum (by rw [map_map]; exact lt_of_le_of_lt hle hfits), map_map]
  exact hle

lemma distributeRewardCommissions_ok (b : EpochBank) {calculation : PartitionedRewardsCalculation}
    (hle : calculation.stakeRewards.totalStakeRewardsLamports.toNat
      + commissionLamports calculation.rewardCommissions ≤ calculation.pointValue.rewards.toNat) :
    ∃ r, b.distributeRewardCommissions calculation = .ok r := by
  have hrewards := calculation.pointValue.rewards.toNat_lt
  have htotal := @totalRewardCommissions_le calculation.rewardCommissions b (by omega)
  refine ⟨_, if_pos ?_⟩
  show (b.loadAndRewardCommissionAccounts _).2 + _ ≤ _
  rw [UInt64.le_iff_toNat_le, UInt64.toNat_add]
  omega

/-- The rewards of an epoch: nothing panics, the stake rewards and the commissions are within the
rewards of the epoch, every delegation gets the parts of its share or nothing, and the split does not
matter. -/
theorem rewards_withinBudget {rewards : UInt64} {pointsSplit : Cut (Pubkey × StakeAccount)}
    (hitems : pointsSplit.items = split.items)
    (hpoints : p.calculateRewardPointsPartitioned pointsSplit rewards = some pointValue)
    (hsum : (split.items.map p.pointsOfItem).sum < 2 ^ 128)
    (hproducts : ∀ d ∈ split.items, d.2.delegation.activationEpoch ≠ rewardedEpoch →
      p.pointsOfItem d * rewards.toNat < 2 ^ 128) :
    ∃ commissions calculation,
      p.calculateStakeRewardsAndCommissions rewardedEpoch pointValue split
          = .ok (commissions, calculation)
        ∧ p.calculateRewardsForPartitioning rewardedEpoch rewards pointsSplit split
          = .ok { rewardCommissions := commissions, stakeRewards := calculation, pointValue }
        ∧ calculation.totalStakeRewardsLamports.toNat = stakeRewardLamports calculation.stakeRewards
        ∧ stakeRewardLamports calculation.stakeRewards + commissionLamports commissions
          ≤ pointValue.rewards.toNat
        ∧ (∀ b : EpochBank, ∃ r, b.distributeRewardCommissions
            { rewardCommissions := commissions, stakeRewards := calculation, pointValue } = .ok r)
        ∧ (∀ d ∈ split.items, ∃ r, p.redeemItem rewardedEpoch pointValue d = .ok r
            ∧ ∀ x ∈ r, RecordFor p pointValue d x)
        ∧ ∀ split' : Cut (Pubkey × StakeAccount), split'.items = split.items →
            p.calculateStakeRewardsAndCommissions rewardedEpoch pointValue split'
              = .ok (commissions, calculation) := by
  have hpoints' := hpoints
  unfold calculateRewardPointsPartitioned at hpoints
  rw [fold_points, hitems, Nat.mod_eq_of_lt hsum] at hpoints
  dsimp only at hpoints
  split_ifs at hpoints with hpos
  cases hpoints
  set pointValue : PointValue := { rewards, points := (split.items.map p.pointsOfItem).sum }
  have hredeem : ∀ d ∈ split.items, ∃ r, p.redeemItem rewardedEpoch pointValue d = .ok r
      ∧ ∀ x ∈ r, RecordFor p pointValue d x := by
    intro d hd
    exact redeemItem_spec (le_sum_of_mem (mem_map_of_mem hd)) (hproducts d hd)
  obtain ⟨records, hrecords⟩ := exists_records hredeem
  obtain ⟨acc, hacc, hcalculate⟩ := calculateStakeRewardsAndCommissions_ok hrecords
  have hpaid := paid_le_rewards hrecords hpos rfl
  have hrewards := pointValue.rewards.toNat_lt
  have hcommissions := hacc.commissionLamports_eq (by omega)
  have hstakes : acc.totalStakeRewardsLamports.toNat
      = ((split.items.filterMap records).map fun r => r.stakeReward.stakeReward.toNat).sum := by
    rw [hacc.total, toNat_saturateU64]
    exact Nat.min_eq_left (by omega)
  refine ⟨_, _, hcalculate, ?_, ?_, ?_, fun b => ?_, hredeem, fun split' hsplit' => ?_⟩
  · rw [calculateRewardsForPartitioning, hpoints']
    exact Except.bind_of_ok hcalculate
  · rw [stakeRewardLamports_map]
    exact hstakes
  · rw [stakeRewardLamports_map, hcommissions]
    exact hpaid
  · refine distributeRewardCommissions_ok b ?_
    rw [hstakes, hcommissions]
    exact hpaid
  · have hrecords' : Records p rewardedEpoch pointValue split'.items records := by
      rwa [hsplit']
    obtain ⟨acc', hacc', hcalculate'⟩ := calculateStakeRewardsAndCommissions_ok hrecords'
    rw [hsplit'] at hacc' hcalculate'
    rw [hcalculate', hacc'.unique hacc]

end Calculation

/-! ### A split that loses a lamport -/

def sampleParams (credits : UInt64) (commissionBps : UInt16) : CalculationParams where
  stakeAt delegation _ := delegation.stake
  cachedVoteAccounts :=
    { snapshotEpochVoteAccounts := none
      rewardedEpochVoteAccounts := none
      distributionEpochVoteAccounts := fun _ => some
        { owner := voteProgramId
          voteStateView :=
            { epochCredits := [⟨0, credits, 0⟩], commission := 0
              inflationRewardsCommission := commissionBps }
          owned := rfl } }
  minStakeDelegation := none
  delayCommissionUpdates := false
  commissionRateInBasisPoints := true

def sampleKey (n : UInt8) : Pubkey := ⟨n :: List.replicate 31 0, rfl⟩

def sampleStake (n : UInt8) (stake creditsObserved : UInt64) : Pubkey × StakeAccount :=
  (sampleKey n,
    { lamports := stake
      stakeState := .stake ⟨0, sampleKey 0, sampleKey 0⟩ ⟨⟨sampleKey 0, stake, 0, 0⟩, creditsObserved⟩ ⟨0⟩
      delegated := rfl })

theorem rewards_withinBudget_evenSplit : ∃ commissions calculation,
    (sampleParams 1 5000).calculateStakeRewardsAndCommissions 1 ⟨11, 7⟩
        (.join (.chunk [sampleStake 1 4 0]) (.chunk [sampleStake 2 3 0]))
      = .ok (commissions, calculation)
    ∧ stakeRewardLamports calculation.stakeRewards + commissionLamports commissions ≤ 11 := by
  obtain ⟨commissions, calculation, hcalculate, -, -, hle, -⟩ :=
    @rewards_withinBudget (sampleParams 1 5000) 1 ⟨11, 7⟩
      (.join (.chunk [sampleStake 1 4 0]) (.chunk [sampleStake 2 3 0])) 11
      (.chunk [sampleStake 1 4 0, sampleStake 2 3 0]) rfl rfl (by decide +kernel) (by decide +kernel)
  exact ⟨commissions, calculation, hcalculate, hle⟩

/-- Delegations whose points add up to more than a `u128` holds. -/
def hugeStakes : List (Pubkey × StakeAccount) :=
  [sampleStake 1 (2 ^ 63) 0, sampleStake 2 (2 ^ 63) 0, sampleStake 3 (2 ^ 63) 0,
    sampleStake 4 (2 ^ 63) 0, sampleStake 5 1 0]

/-- Of a reward of 11 lamports both sides of an even split get 5. And where the sum of all points
wraps, a share does not fit a `u64`, although every product fits. -/
theorem split_losesLamport :
    (∃ pointValue r,
      (sampleParams 1 5000).calculateRewardPointsPartitioned (.chunk [sampleStake 1 7 0]) 11
          = some pointValue
        ∧ (sampleParams 1 5000).redeemItem 1 pointValue (sampleStake 1 7 0) = .ok (some r)
        ∧ wholeReward pointValue ((sampleParams 1 5000).pointsOfItem (sampleStake 1 7 0)) = 11
        ∧ r.stakeReward.stakeReward = 5 ∧ r.rewardCommission.commissionLamports = 5)
      ∧ ∃ pointValue,
        (sampleParams (2 ^ 63) 0).calculateRewardPointsPartitioned (.chunk hugeStakes) 2
            = some pointValue
          ∧ (∀ d ∈ hugeStakes, (sampleParams (2 ^ 63) 0).pointsOfItem d * 2 < 2 ^ 128)
          ∧ (sampleParams (2 ^ 63) 0).calculateStakeRewardsAndCommissions 1 pointValue
              (.chunk hugeStakes) = .error .rewardsShouldFitWithinU64 := by
  refine ⟨⟨⟨11, 7⟩, recordOf (sampleStake 1 7 0) 5000 ⟨5, 5, 1⟩, rfl, rfl, rfl, rfl, rfl⟩,
    ⟨2, 2 ^ 63⟩, ?_, ?_, ?_⟩
  · decide +kernel
  · decide +kernel
  · exact eq_error_of_evaluates (by decide +kernel)

end BlackBull.Runtime
