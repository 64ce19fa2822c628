import BlackBull.Proofs.EpochCredits
import BlackBull.Proofs.EpochRewards
import BlackBull.Proofs.StakePoints

/-!
# Credits are paid once

The vote program and the rewards over one history.
-/

namespace BlackBull.Runtime

open List CalculationEnvironment VoteState

/-- What the rewards read of a vote account. Commissions are passed apart. -/
def view (s : VoteState) : VoteStateView where
  epochCredits := s.epochCredits.map fun e =>
    ⟨.ofNat e.epoch, .ofNat e.credits, .ofNat e.prevCredits⟩
  commission := 0
  inflationRewardsCommission := 0

/-- A vote account, a stake delegated to it, and the lamports paid so far. -/
structure Delegated where
  vote : VoteState
  stake : Stake
  paid : ℕ

/-- An instruction on the vote account, or a redemption of the stake. -/
inductive DelegatedOp
  | vote (clock : VoteClock) (instruction : VoteInstruction)
  | redeem (env : CalculationEnvironment) (commissionBps : UInt16)

namespace DelegatedOp

def epoch : DelegatedOp → ℕ
  | .vote clock _ => clock.epoch
  | .redeem env _ => env.rewardedEpoch.toNat

/-- A credit of the stake that is redeemed is worth at most `a / b` lamports. -/
def Pays (a b : ℕ) (d : Delegated) : DelegatedOp → Prop
  | .vote .. => True
  | .redeem env _ => ∀ epoch, b * env.pointValue.rewards.toNat
      * (env.stakeAt d.stake.delegation epoch).toNat ≤ a * env.pointValue.points

end DelegatedOp

def Delegated.step (d : Delegated) : DelegatedOp → Delegated
  | .vote clock instruction => { d with vote := d.vote.commit (clock, instruction) }
  | .redeem env commissionBps =>
    match env.calculateStakeRewards d.stake commissionBps (view d.vote) with
    | .ok (some c) => { d with
        stake := paidStake d.stake c
        paid := d.paid + (c.voterRewards.toNat + c.stakerRewards.toNat) }
    -- nothing is redeemed, or the node stops
    | _ => d

variable {s t : VoteState} {epoch : ℕ} {calls : List (ℕ × ℕ)}

/-! ### Vote instructions -/

/-- The epoch credits stay or are incremented once. -/
def Earned (epoch : ℕ) (s t : VoteState) : Prop :=
  t.epochCredits = s.epochCredits
    ∨ ∃ credits, t.epochCredits = (s.incrementCredits epoch credits).epochCredits

lemma earned_processNextVoteSlot (s : VoteState) (epoch currentSlot slot : ℕ) :
    Earned epoch s (s.processNextVoteSlot epoch currentSlot slot) := by
  unfold processNextVoteSlot
  split_ifs with hold
  · exact .inl rfl
  · dsimp only
    split
    · exact .inl rfl
    · exact .inr ⟨_, rfl⟩

lemma epochCredits_stamp {slot : ℕ} {timestamp : Option ℤ} (h : s.stamp slot timestamp = .ok t) :
    t.epochCredits = s.epochCredits := by
  cases timestamp with
  | none => cases h; rfl
  | some timestamp =>
    simp only [stamp, processTimestamp, ite_error_eq_ok] at h
    obtain ⟨-, h⟩ := h
    cases h
    rfl

lemma earned_processNewVoteState {new : List LandedVote} {newRoot : Option ℕ}
    {timestamp : Option ℤ} {currentSlot : ℕ}
    (h : s.processNewVoteState new newRoot timestamp epoch currentSlot = .ok t) :
    Earned epoch s t := by
  unfold processNewVoteState at h
  split at h
  · cases h
  · simp only [ite_error_eq_ok, Except.bind_eq_ok] at h
    obtain ⟨-, -, -, -, merged, -, stamped, hstamp, h⟩ := h
    cases h
    rw [epochCredits_stamp hstamp]
    split_ifs
    · exact .inr ⟨_, rfl⟩
    · exact .inl rfl

/-- The entries are those of the calls, in epochs up to this one. -/
structure Credited (epoch : ℕ) (calls : List (ℕ × ℕ)) (s : VoteState) : Prop where
  sorted : calls.Pairwise fun call next => call.1 ≤ next.1
  le : ∀ call ∈ calls, call.1 ≤ epoch
  eq : s.epochCredits = (incrementAll {} calls).epochCredits

namespace Credited

lemma earned (h : Credited epoch calls s) (ht : Earned epoch s t) :
    ∃ more, Credited epoch (calls ++ more) t := by
  obtain heq | ⟨credits, heq⟩ := ht
  · refine ⟨[], ?_⟩
    rw [append_nil]
    exact ⟨h.sorted, h.le, heq.trans h.eq⟩
  · refine ⟨[(epoch, credits)], pairwise_append.2 ⟨h.sorted, pairwise_singleton .., ?_⟩,
      forall_mem_append.2 ⟨h.le, by simp⟩, heq.trans ?_⟩
    · simpa using h.le
    · rw [incrementAll, foldl_append, incrementCredits, h.eq]
      rfl

lemma processVotes (h : Credited epoch calls s) (currentSlot : ℕ) (slots : List ℕ) :
    ∃ more, Credited epoch (calls ++ more)
      (slots.foldl (fun s slot => s.processNextVoteSlot epoch currentSlot slot) s) := by
  induction slots generalizing s calls with
  | nil => exact h.earned (.inl rfl)
  | cons slot slots ih =>
    obtain ⟨more, h⟩ := h.earned (earned_processNextVoteSlot s epoch currentSlot slot)
    obtain ⟨rest, h⟩ := ih h
    exact ⟨more ++ rest, append_assoc calls more rest ▸ h⟩

lemma mono {later : ℕ} (h : Credited epoch calls s) (hle : epoch ≤ later) :
    Credited later calls s :=
  ⟨h.sorted, fun call hcall => (h.le call hcall).trans hle, h.eq⟩

lemma commit (h : Credited epoch calls s) {clock : VoteClock} (hepoch : epoch ≤ clock.epoch)
    (instruction : VoteInstruction) :
    ∃ more, Credited clock.epoch (calls ++ more) (s.commit (clock, instruction)) := by
  have h := h.mono hepoch
  rw [VoteState.commit]
  rcases hs : s.execute clock instruction with e | t
  · exact h.earned (.inl rfl)
  · cases instruction with
    | towerSync lockouts root hash timestamp =>
      obtain ⟨r, -, hs⟩ := Except.bind_eq_ok.1 hs
      exact h.earned (earned_processNewVoteState hs)
    | vote slots hash =>
      simp only [execute, processVote, ite_error_eq_ok, Except.bind_eq_ok] at hs
      obtain ⟨-, -, -, -, hs⟩ := hs
      cases hs
      exact h.processVotes _ _

end Credited

/-! ### Redemptions -/

lemma le_last {l : List EpochCredits} {last : EpochCredits}
    (h : (l ++ [last]).IsChain fun e next => e.epoch < next.epoch ∧ next.prevCredits = e.credits)
    (hle : ∀ e ∈ l ++ [last], e.prevCredits ≤ e.credits) :
    ∀ e ∈ l ++ [last], e.epoch ≤ last.epoch ∧ e.credits ≤ last.credits := by
  induction l with
  | nil => simp
  | cons e l ih =>
    obtain ⟨hhead, hchain⟩ := isChain_cons.1 h
    have ih := ih hchain fun e he => hle e (mem_cons_of_mem _ he)
    refine forall_mem_cons.2 ⟨?_, ih⟩
    have hne : l ++ [last] ≠ [] := by simp
    have hnext := hhead _ (head?_eq_some_head hne)
    have hlast := ih _ (head_mem hne)
    have hgrows := hle _ (mem_cons_of_mem _ (head_mem hne))
    omega

lemma Credited.view (h : Credited epoch calls s) (hepoch : epoch < 2 ^ 64) :
    Contiguous (view s).epochCredits
      ∧ (lastCredits (view s).epochCredits).toNat = min (calls.map Prod.snd).sum u64Max := by
  rcases eq_or_ne calls [] with rfl | hne
  · have hempty : (Runtime.view s).epochCredits = [] := congrArg (map _) h.eq
    rw [hempty]
    exact ⟨⟨by simp, .nil⟩, rfl⟩
  · obtain ⟨l, last, heq, hl, call, hcall, hlast⟩ := @chained_incrementAll {} rfl _ hne h.sorted
    have hle : ∀ e ∈ l ++ [last], e.prevCredits ≤ e.credits :=
      forall_mem_append.2 ⟨fun e he => (hl.earned e he).le, forall_mem_singleton.2 hl.le⟩
    have hbound (e) (he : e ∈ l ++ [last]) :
        e.epoch < 2 ^ 64 ∧ e.credits < 2 ^ 64 ∧ e.prevCredits < 2 ^ 64 := by
      have hcredits := hl.credits_eq
      have hepochs := h.le call hcall
      have hgrows := hle e he
      have hlast' := le_last hl.chain hle e he
      simp only [u64Max] at hcredits
      omega
    simp only [Runtime.view, h.eq, heq]
    refine ⟨⟨forall_mem_map.2 fun e he => ?_, (isChain_map _).2 ?_⟩, ?_⟩
    · obtain ⟨-, hcredits, hprev⟩ := hbound e he
      exact (UInt64.ofNat_le_iff_le hprev hcredits).2 (hle e he)
    · refine hl.chain.imp_of_mem_imp fun e next he hnext hr => ⟨?_, congrArg UInt64.ofNat hr.2⟩
      exact (UInt64.ofNat_lt_iff_lt (hbound e he).1 (hbound next hnext).1).2 hr.1
    · rw [map_append, map_singleton, lastCredits_concat, ← hl.credits_eq]
      exact UInt64.toNat_ofNat_of_lt' (hbound last mem_concat_self).2.1

section Redeem

variable {stake : Stake} {history : List EpochCreditsItem} {commissionBps : UInt16} {a b m n : ℕ}

lemma pointsAbove_le {stakeAt : Delegation → UInt64 → UInt64}
    (hstake : ∀ epoch, n * (stakeAt stake.delegation epoch).toNat ≤ m)
    (h : Contiguous history) : n * pointsAbove stakeAt stake history
      ≤ m * ((lastCredits history).toNat - stake.creditsObserved.toNat) := by
  induction history using reverseRecOn with
  | nil => exact Nat.zero_le _
  | append_singleton history item ih =>
    have hlast := UInt64.le_iff_toNat_le.1 (h.le_prevCredits mem_cons_self)
    have hgrows := UInt64.le_iff_toNat_le.1 (h.grows item mem_concat_self)
    have hin : n * pointsAbove stakeAt stake [item] ≤ m * (item.credits.toNat
        - max stake.creditsObserved.toNat item.prevCredits.toNat) := by
      simpa [pointsAbove, pointsIn, Nat.mul_assoc]
        using Nat.mul_le_mul_right _ (hstake item.epoch)
    rw [pointsAbove_append, lastCredits_concat, Nat.mul_add]
    refine (Nat.add_le_add (ih h.of_append) hin).trans ?_
    rw [← Nat.mul_add]
    exact Nat.mul_le_mul_left m (by omega)

lemma calculateStakeRewards_le {env : CalculationEnvironment} {voteState : VoteStateView}
    {c : CalculatedStakeRewards}
    (hworth : b * env.pointValue.rewards.toNat
      * (calculateStakePointsAndCredits env.stakeAt stake voteState).points
        ≤ n * env.pointValue.points)
    (h : env.calculateStakeRewards stake commissionBps voteState = .ok (some c)) :
    c.newCreditsObserved
        = (calculateStakePointsAndCredits env.stakeAt stake voteState).newCreditsObserved
      ∧ b * (c.voterRewards.toNat + c.stakerRewards.toNat) ≤ n := by
  unfold calculateStakeRewards at h
  generalize calculateStakePointsAndCredits env.stakeAt stake voteState = calculated at h hworth ⊢
  dsimp only at h
  split_ifs at h with hskip hnone hzero
  · cases h
    exact ⟨rfl, Nat.zero_le _⟩
  · cases h
  · cases h
  · obtain ⟨rewards, hrewards, h⟩ := Except.bind_eq_ok.1 h
    obtain ⟨r, hr, hparts⟩ := splitRewards_spec commissionBps calculated.newCreditsObserved rewards
    cases hr.symm.trans h
    obtain ⟨hnew, hle, -⟩ := hparts c rfl
    obtain ⟨product, hproduct, hrewards⟩ := Except.bind_eq_ok.1 hrewards
    unfold mulOrPanic at hproduct
    split_ifs at hproduct
    cases hproduct
    dsimp only at hrewards
    split_ifs at hrewards with hfits
    cases hrewards
    have hpos := Nat.pos_of_ne_zero hzero
    rw [UInt64.toNat_ofNat_of_lt' hfits, Nat.le_div_iff_mul_le hpos] at hle
    refine ⟨hnew, Nat.le_of_mul_le_mul_right (le_trans ?_ hworth) hpos⟩
    rw [Nat.mul_assoc, Nat.mul_assoc, Nat.mul_comm env.pointValue.rewards.toNat]
    exact Nat.mul_le_mul_left b hle

/-- The credits up to those observed have been paid for once at most. -/
structure PaidOnce (a b epoch : ℕ) (d : Delegated) : Prop where
  epoch_lt : epoch < 2 ^ 64
  credited : ∃ calls, Credited epoch calls d.vote
    ∧ d.stake.creditsObserved.toNat ≤ min (calls.map Prod.snd).sum u64Max
  paid_le : b * d.paid ≤ a * d.stake.creditsObserved.toNat

namespace PaidOnce

variable {d : Delegated}

lemma redeem {env : CalculationEnvironment} (h : PaidOnce a b epoch d)
    (hpays : DelegatedOp.Pays a b d (.redeem env commissionBps)) :
    PaidOnce a b epoch (d.step (.redeem env commissionBps)) := by
  rw [Delegated.step]
  split
  · rename_i c hc
    obtain ⟨calls, hcalls, hobserved⟩ := h.credited
    obtain ⟨hhistory, hlast⟩ := hcalls.view h.epoch_lt
    obtain ⟨hpoints, hcredits⟩ := @Contiguous.calculate env.stakeAt d.stake _ hhistory
    have hworth := @pointsAbove_le d.stake _ _ _ _ hpays hhistory
    rw [← hpoints, Nat.mul_right_comm a] at hworth
    obtain ⟨hnew, hpaid⟩ := calculateStakeRewards_le hworth hc
    rw [← hlast] at hobserved
    refine ⟨h.epoch_lt, ⟨calls, hcalls, ?_⟩, ?_⟩
    · rw [paidStake, hnew, hcredits, hlast]
    · have hsum := Nat.add_le_add h.paid_le hpaid
      rw [← Nat.mul_add, ← Nat.mul_add, Nat.add_sub_of_le hobserved] at hsum
      rwa [paidStake, hnew, hcredits]
  · exact h

lemma step {op : DelegatedOp} (h : PaidOnce a b epoch d) (hepoch : epoch ≤ op.epoch)
    (hlt : op.epoch < 2 ^ 64) (hpays : op.Pays a b d) : PaidOnce a b op.epoch (d.step op) := by
  obtain ⟨calls, hcalls, hobserved⟩ := h.credited
  cases op with
  | vote clock instruction =>
    obtain ⟨more, hmore⟩ := hcalls.commit hepoch instruction
    refine ⟨hlt, ⟨_, hmore, hobserved.trans ?_⟩, h.paid_le⟩
    rw [map_append, sum_append]
    exact min_le_min_right _ (Nat.le_add_right ..)
  | redeem env commissionBps =>
    exact redeem ⟨hlt, ⟨calls, hcalls.mono hepoch, hobserved⟩, h.paid_le⟩ hpays

lemma foldl {ops : List DelegatedOp} (h : PaidOnce a b epoch d)
    (hepochs : ops.Pairwise fun op next => op.epoch ≤ next.epoch)
    (hops : ∀ op ∈ ops, epoch ≤ op.epoch ∧ op.epoch < 2 ^ 64)
    (hpays : ∀ done op, done ++ [op] <+: ops → op.Pays a b (done.foldl Delegated.step d)) :
    ∃ last, PaidOnce a b last (ops.foldl Delegated.step d) := by
  induction ops generalizing d epoch with
  | nil => exact ⟨epoch, h⟩
  | cons op ops ih =>
    obtain ⟨hle, hepochs⟩ := pairwise_cons.1 hepochs
    obtain ⟨⟨hop, hlt⟩, hops⟩ := forall_mem_cons.1 hops
    refine ih (h.step hop hlt (hpays [] op (prefix_append [op] ops))) hepochs
      (fun next hnext => ⟨hle next hnext, (hops next hnext).2⟩) fun done next hdone => ?_
    exact hpays (op :: done) next ((prefix_cons_inj op).2 hdone)

end PaidOnce

end Redeem

/-- Whatever instructions a new vote account takes, and whenever a stake is redeemed between them,
the history that the rewards read is contiguous, and no more is paid than each observed credit is
worth once. -/
theorem credits_paid_once (a b : ℕ) (vote : VoteState) (stake : Stake) (ops : List DelegatedOp)
    (hvote : vote.epochCredits = []) (hstake : stake.creditsObserved = 0)
    (hepochs : ops.Pairwise fun op next => op.epoch ≤ next.epoch)
    (hops : ∀ op ∈ ops, op.epoch < 2 ^ 64)
    (hpays : ∀ done op, done ++ [op] <+: ops →
      op.Pays a b (done.foldl Delegated.step ⟨vote, stake, 0⟩)) :
    let d := ops.foldl Delegated.step ⟨vote, stake, 0⟩
    Contiguous (view d.vote).epochCredits
      ∧ d.stake.creditsObserved ≤ (view d.vote).credits
      ∧ b * d.paid ≤ a * d.stake.creditsObserved.toNat := by
  have hstart : PaidOnce a b 0 ⟨vote, stake, 0⟩ :=
    ⟨by decide, ⟨[], ⟨.nil, by simp, hvote⟩, by simp [hstake]⟩, by simp⟩
  obtain ⟨last, h⟩ := hstart.foldl hepochs
    (fun op hop => ⟨Nat.zero_le _, hops op hop⟩) hpays
  obtain ⟨calls, hcalls, hobserved⟩ := h.credited
  obtain ⟨hhistory, hlast⟩ := hcalls.view h.epoch_lt
  exact ⟨hhistory, UInt64.le_iff_toNat_le.2 (hlast ▸ hobserved), h.paid_le⟩

def rootedOps : List DelegatedOp :=
  [.vote ⟨[(6, 1), (5, 0)], 0, 7⟩ (.towerSync [⟨6, 1⟩] (some 5) 1 none),
    .redeem ⟨1, ⟨50, 48⟩, fun _ _ => 3⟩ 0, .redeem ⟨2, ⟨50, 48⟩, fun _ _ => 3⟩ 0]

def rootedRun : Delegated := rootedOps.foldl Delegated.step
  ⟨{ votes := [⟨⟨5, 1⟩, 1⟩] }, ⟨⟨systemProgramId, 3, 0, 9⟩, 0⟩, 0⟩

/-- Slot 5 is rooted, and its 16 credits are redeemed twice. -/
theorem credits_paid_once_rooted :
    rootedRun.paid = 50 ∧ 48 * rootedRun.paid ≤ 50 * 3 * rootedRun.stake.creditsObserved.toNat := by
  refine ⟨by decide +kernel, (credits_paid_once _ _ _ _ rootedOps rfl rfl (by decide) (by decide)
    fun done op hdone => ?_).2.2⟩
  have hop : op ∈ rootedOps := hdone.subset mem_concat_self
  fin_cases hop <;> simp [DelegatedOp.Pays]

end BlackBull.Runtime
