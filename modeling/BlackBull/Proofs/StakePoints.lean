import BlackBull.Runtime.InflationRewards

/-!
# The points of a delegation

In a history that leaves no credits out, the loop over the epochs has the points of all credits
above those observed (`Contiguous.foldl`).
-/

namespace BlackBull.Runtime

open List

/-- Epoch follows epoch, and each starts with the credits that the one before it ended with. -/
structure Contiguous (history : List EpochCreditsItem) : Prop where
  grows : ∀ item ∈ history, item.prevCredits ≤ item.credits
  chain : history.IsChain fun item next => item.epoch < next.epoch ∧ next.prevCredits = item.credits

def lastCredits (history : List EpochCreditsItem) : UInt64 :=
  (history.getLast?.map EpochCreditsItem.credits).getD 0

variable (stakeAt : Delegation → UInt64 → UInt64) (stake : Stake)

def pointsIn (item : EpochCreditsItem) : ℕ :=
  (stakeAt stake.delegation item.epoch).toNat
    * (item.credits.toNat - max stake.creditsObserved.toNat item.prevCredits.toNat)

def pointsAbove (history : List EpochCreditsItem) : ℕ :=
  (history.map (pointsIn stakeAt stake)).sum

variable {stakeAt stake} {history l rest : List EpochCreditsItem} {item : EpochCreditsItem}

lemma pointsAbove_append : pointsAbove stakeAt stake (l ++ rest)
    = pointsAbove stakeAt stake l + pointsAbove stakeAt stake rest := by
  simp [pointsAbove]

lemma lastCredits_concat : lastCredits (l ++ [item]) = item.credits := by
  simp [lastCredits]

lemma pointsAbove_eq_zero (h : ∀ item ∈ history, item.credits ≤ stake.creditsObserved) :
    pointsAbove stakeAt stake history = 0 := by
  refine sum_eq_zero (forall_mem_map.2 fun item hitem => ?_)
  have hle : item.credits.toNat ≤ stake.creditsObserved.toNat := h item hitem
  rw [pointsIn, Nat.sub_eq_zero_of_le (le_max_of_le_left hle), Nat.mul_zero]

lemma pointsAbove_congr {x : UInt64} (h : ∀ item ∈ history,
      item.credits.toNat - max stake.creditsObserved.toNat item.prevCredits.toNat
        = item.credits.toNat - max x.toNat item.prevCredits.toNat) :
    pointsAbove stakeAt stake history
      = pointsAbove stakeAt { stake with creditsObserved := x } history :=
  congrArg sum (map_congr_left fun item hitem => congrArg (_ * ·) (h item hitem))

namespace Contiguous

lemma of_append (h : Contiguous (l ++ rest)) : Contiguous l where
  grows item hitem := h.grows item (mem_append_left _ hitem)
  chain := (isChain_append.1 h.chain).1

lemma pairwise (h : Contiguous history) :
    history.Pairwise fun item next => item.credits ≤ next.prevCredits := by
  induction history with
  | nil => exact .nil
  | cons item history ih =>
    obtain ⟨hhead, hchain⟩ := isChain_cons.1 h.chain
    have ih := ih ⟨fun x hx => h.grows x (mem_cons_of_mem _ hx), hchain⟩
    refine pairwise_cons.2 ⟨?_, ih⟩
    rcases history with _ | ⟨next, history⟩
    · exact nofun
    · have heq : next.prevCredits = item.credits := (hhead next rfl).2
      have hgrows := h.grows next (by simp)
      rw [heq] at hgrows
      refine forall_mem_cons.2 ⟨heq ▸ UInt64.le_refl _, fun x hx => ?_⟩
      exact UInt64.le_trans hgrows ((pairwise_cons.1 ih).1 x hx)

lemma le_prevCredits (h : Contiguous (l ++ rest)) (hitem : item ∈ rest) :
    lastCredits l ≤ item.prevCredits := by
  rcases eq_nil_or_concat' l with rfl | ⟨l, last, rfl⟩
  · exact UInt64.zero_le
  · rw [lastCredits_concat]
    exact (pairwise_append.1 h.pairwise).2.2 last mem_concat_self item hitem

lemma credits_le (h : Contiguous history) : ∀ item ∈ history, item.credits ≤ lastCredits history := by
  rcases eq_nil_or_concat' history with rfl | ⟨l, last, rfl⟩
  · exact nofun
  · rw [lastCredits_concat]
    refine forall_mem_append.2 ⟨fun item hitem => ?_, forall_mem_singleton.2 (UInt64.le_refl _)⟩
    have hle := (pairwise_append.1 h.pairwise).2.2 item hitem last mem_cons_self
    exact UInt64.le_trans hle (h.grows last mem_concat_self)

end Contiguous

lemma addEpochCredits_eq {points : ℕ} {last : UInt64} (hlast : last ≤ item.prevCredits)
    (hgrows : item.prevCredits ≤ item.credits)
    (hlt : points + pointsIn stakeAt stake item < 2 ^ 128) :
    addEpochCredits stakeAt stake (points, max stake.creditsObserved last) item
      = (points + pointsIn stakeAt stake item,
        max stake.creditsObserved item.credits) := by
  have hlast' : last.toNat ≤ item.prevCredits.toNat := hlast
  have hgrows' : item.prevCredits.toNat ≤ item.credits.toNat := hgrows
  refine Prod.ext (.trans ?_ (Nat.mod_eq_of_lt hlt)) (UInt64.toNat_inj.1 ?_)
  · refine congrArg (fun earned => (points + _ * earned) % _) ?_
    simp only [UInt64.lt_iff_toNat_lt]
    split_ifs with hentire hpart
    · rw [UInt64.toNat_sub_of_le _ _ hgrows]
      omega
    · rw [UInt64.toNat_sub_of_le, UInt64.toNat_max]
      · omega
      · rw [UInt64.le_iff_toNat_le, UInt64.toNat_max]
        omega
    · rw [UInt64.toNat_zero]
      omega
  · simp only [addEpochCredits, UInt64.toNat_max]
    omega

namespace Contiguous

/-- The loop has the points and the greatest credits. The points fit a `u128`. -/
lemma foldl (h : Contiguous history) :
    pointsAbove stakeAt stake history
      ≤ (2 ^ 64 - 1) * (lastCredits history).toNat
    ∧ history.foldl (addEpochCredits stakeAt stake) (0, stake.creditsObserved)
      = (pointsAbove stakeAt stake history,
        max stake.creditsObserved (lastCredits history)) := by
  induction history using reverseRecOn with
  | nil =>
    refine ⟨Nat.zero_le _, Prod.ext rfl (UInt64.toNat_inj.1 ?_)⟩
    rw [UInt64.toNat_max]
    exact (Nat.max_zero _).symm
  | append_singleton history item ih =>
    obtain ⟨hbound, hfold⟩ := ih h.of_append
    have hlast := h.le_prevCredits mem_cons_self
    have hgrows := h.grows item mem_concat_self
    have hlast' := UInt64.le_iff_toNat_le.1 hlast
    have hgrows' := UInt64.le_iff_toNat_le.1 hgrows
    have hin : pointsIn stakeAt stake item
        ≤ (2 ^ 64 - 1) * (item.credits.toNat - item.prevCredits.toNat) :=
      Nat.mul_le_mul (Nat.le_sub_one_of_lt (UInt64.toNat_lt _)) (by omega)
    have hlt := UInt64.toNat_lt item.credits
    rw [lastCredits_concat, pointsAbove_append, foldl_append, hfold]
    have hone : pointsAbove stakeAt stake [item]
        = pointsIn stakeAt stake item := by
      simp [pointsAbove]
    exact ⟨by omega, addEpochCredits_eq hlast hgrows (by omega)⟩

lemma calculate {voteState : VoteStateView} (h : Contiguous voteState.epochCredits) :
    (calculateStakePointsAndCredits stakeAt stake voteState).points
      = pointsAbove stakeAt stake voteState.epochCredits
    ∧ (calculateStakePointsAndCredits stakeAt stake voteState).newCreditsObserved
      = lastCredits voteState.epochCredits := by
  have hzero (hseen : lastCredits voteState.epochCredits ≤ stake.creditsObserved) :
      0 = pointsAbove stakeAt stake voteState.epochCredits :=
    (pointsAbove_eq_zero fun item hitem => UInt64.le_trans (h.credits_le item hitem) hseen).symm
  have hcredits : voteState.credits = lastCredits voteState.epochCredits := rfl
  simp only [calculateStakePointsAndCredits, hcredits, (@foldl stakeAt stake _ h).2]
  split_ifs with hrewound hsame
  · exact ⟨hzero (UInt64.le_of_lt hrewound), rfl⟩
  · exact ⟨hzero (hsame ▸ UInt64.le_refl _), hsame.symm⟩
  · refine ⟨rfl, UInt64.toNat_inj.1 ?_⟩
    rw [UInt64.lt_iff_toNat_lt] at hrewound
    rw [UInt64.toNat_max]
    omega

/-- To redeem a part of a history and then all of it is to redeem it once, from the credits that were
observed, or from those of the part if these are fewer. -/
lemma twice (h : Contiguous (l ++ rest)) :
    pointsAbove stakeAt stake l
        + pointsAbove stakeAt { stake with creditsObserved := lastCredits l } (l ++ rest)
      = pointsAbove stakeAt { stake with
        creditsObserved := min stake.creditsObserved (lastCredits l) } (l ++ rest) := by
  have hle := h.of_append.credits_le
  have hzero : pointsAbove stakeAt { stake with creditsObserved := lastCredits l } l = 0 :=
    pointsAbove_eq_zero hle
  rw [pointsAbove_append, pointsAbove_append, hzero, Nat.zero_add]
  congr 1
  · refine pointsAbove_congr fun item hitem => ?_
    have hseen : item.credits.toNat ≤ (lastCredits l).toNat := hle item hitem
    rw [UInt64.toNat_min]
    omega
  · refine pointsAbove_congr fun item hitem => ?_
    have hafter : (lastCredits l).toNat ≤ item.prevCredits.toNat := h.le_prevCredits hitem
    simp only [UInt64.toNat_min]
    omega

end Contiguous

/-- The points are those of all credits above the observed ones, no subtraction underflows, and all
credits are observed then. To redeem a part of the history and then all of it earns the same, unless
the vote account had fewer credits in that part than were observed: these are then observed anew. -/
theorem stakePoints_exact (stakeAt : Delegation → UInt64 → UInt64) (stake : Stake)
    (voteState : VoteStateView) (h : Contiguous voteState.epochCredits) :
    (calculateStakePointsAndCredits stakeAt stake voteState).points
        = pointsAbove stakeAt stake voteState.epochCredits
      ∧ (∀ l item rest, voteState.epochCredits = l ++ item :: rest →
        item.prevCredits ≤ item.credits
          ∧ (item.prevCredits ≤ stake.creditsObserved → stake.creditsObserved < item.credits →
            (l.foldl (addEpochCredits stakeAt stake) (0, stake.creditsObserved)).2 ≤ item.credits))
      ∧ (∀ item ∈ voteState.epochCredits, item.credits
        ≤ (calculateStakePointsAndCredits stakeAt stake voteState).newCreditsObserved)
      ∧ (calculateStakePointsAndCredits stakeAt stake voteState).newCreditsObserved
        = voteState.credits
      ∧ ∀ l rest, voteState.epochCredits = l ++ rest →
        (calculateStakePointsAndCredits stakeAt stake { voteState with epochCredits := l }).points
          + (calculateStakePointsAndCredits stakeAt { stake with
              creditsObserved := (calculateStakePointsAndCredits stakeAt stake
                { voteState with epochCredits := l }).newCreditsObserved } voteState).points
        = pointsAbove stakeAt { stake with
          creditsObserved := min stake.creditsObserved (lastCredits l) } voteState.epochCredits := by
  obtain ⟨hpoints, hcredits⟩ := @Contiguous.calculate stakeAt stake _ h
  refine ⟨hpoints, fun l item rest heq => ?_, hcredits ▸ h.credits_le, hcredits,
    fun l rest heq => ?_⟩
  · rw [heq] at h
    refine ⟨h.grows item (by simp), fun _ hlt => ?_⟩
    have hlast := h.le_prevCredits mem_cons_self
    have hle := UInt64.le_trans hlast (h.grows item (by simp))
    rw [UInt64.le_iff_toNat_le] at hle
    rw [UInt64.lt_iff_toNat_lt] at hlt
    rw [(@Contiguous.foldl stakeAt stake _ h.of_append).2, UInt64.le_iff_toNat_le, UInt64.toNat_max]
    omega
  · have h' : Contiguous (l ++ rest) := heq ▸ h
    obtain ⟨hpoints', hcredits'⟩ := @Contiguous.calculate stakeAt stake
      { voteState with epochCredits := l } h'.of_append
    rw [hpoints', hcredits', h.calculate.1, heq]
    exact h'.twice

theorem stakePoints_exact_two : (calculateStakePointsAndCredits (fun _ _ => 1)
    ⟨⟨⟨replicate 32 0, length_replicate⟩, 1, 0, 9⟩, 2⟩ ⟨[⟨1, 4, 0⟩, ⟨2, 10, 4⟩], 0, 0⟩).points = 8 :=
  (stakePoints_exact _ _ _ ⟨by decide, by decide⟩).1.trans (by decide +kernel)

/-- Five credits were observed, and a history that ends with four is redeemed before it has grown to
ten. The fifth credit is paid again. -/
theorem rewound_credits_paid_twice : ∃ (l rest : List EpochCreditsItem) (stake : Stake),
    Contiguous (l ++ rest)
      ∧ (calculateStakePointsAndCredits (fun _ _ => 1) stake ⟨l ++ rest, 0, 0⟩).points = 5
      ∧ (calculateStakePointsAndCredits (fun _ _ => 1) stake ⟨l, 0, 0⟩).points
        + (calculateStakePointsAndCredits (fun _ _ => 1) { stake with
          creditsObserved := (calculateStakePointsAndCredits (fun _ _ => 1) stake
            ⟨l, 0, 0⟩).newCreditsObserved } ⟨l ++ rest, 0, 0⟩).points = 6 :=
  ⟨[⟨1, 4, 0⟩], [⟨2, 10, 4⟩], ⟨⟨⟨replicate 32 0, length_replicate⟩, 1, 0, 9⟩, 5⟩,
    ⟨by decide, by decide⟩, by decide +kernel, by decide +kernel⟩

end BlackBull.Runtime
