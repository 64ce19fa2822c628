import BlackBull.Tower.VoteState

/-!
# The credits of the epochs

An epoch without credits is moved up and old ones are dropped from the front, so the entries stay a
chain (`Chained`), each beginning with the credits that the one before it ended with.
-/

namespace BlackBull.VoteState

open List

/-- The entries `l` and `last`, where `given` credits were given. -/
structure Chained (given : ℕ) (l : List EpochCredits) (last : EpochCredits) : Prop where
  length_lt : l.length < maxEpochCreditsHistory
  chain : (l ++ [last]).IsChain fun e next => e.epoch < next.epoch ∧ next.prevCredits = e.credits
  earned : ∀ e ∈ l, e.prevCredits < e.credits
  le : last.prevCredits ≤ last.credits
  credits_eq : last.credits = min given u64Max

variable {given epoch : ℕ} {l : List EpochCredits} {last : EpochCredits} {s : VoteState}

lemma Chained.replace {total : ℕ} {e : EpochCredits} (h : Chained given l last)
    (hepoch : last.epoch ≤ e.epoch) (hprev : e.prevCredits = last.prevCredits)
    (hle : last.credits ≤ e.credits) (heq : e.credits = min total u64Max) : Chained total l e := by
  obtain ⟨hl, -, hlast⟩ := isChain_append.1 h.chain
  refine ⟨h.length_lt, isChain_append.2 ⟨hl, isChain_singleton _, fun x hx y hy => ?_⟩, h.earned,
    hprev.trans_le (h.le.trans hle), heq⟩
  cases hy
  obtain ⟨hlt, hx⟩ := hlast x hx last rfl
  exact ⟨hlt.trans_le hepoch, hprev.trans hx⟩

lemma Chained.push {l' : List EpochCredits} (h : Chained given l last) (hepoch : last.epoch < epoch)
    (hearned : last.credits ≠ last.prevCredits) (hsuffix : l' <:+ l ++ [last])
    (hlen : l'.length < maxEpochCreditsHistory) :
    Chained given l' ⟨epoch, last.credits, last.credits⟩ := by
  have hchain := isChain_append.2 ⟨h.chain, isChain_singleton ⟨epoch, last.credits, last.credits⟩,
    by simp [hepoch]⟩
  have hall : ∀ e ∈ l ++ [last], e.prevCredits < e.credits :=
    forall_mem_append.2 ⟨h.earned, forall_mem_singleton.2 (lt_of_le_of_ne h.le hearned.symm)⟩
  obtain ⟨k, hk⟩ := hsuffix
  refine ⟨hlen, hchain.suffix ⟨k, ?_⟩, fun e he => hall e ?_, le_rfl, h.credits_eq⟩
  · rw [← append_assoc, hk]
  · rw [← hk]
    exact mem_append_right k he

lemma Chained.openEpoch (h : Chained given l last) (hepoch : last.epoch ≤ epoch) :
    ∃ l' last', openEpoch epoch (l ++ [last]) = l' ++ [last'] ∧ Chained given l' last'
      ∧ last'.epoch = epoch := by
  have hlen := h.length_lt
  unfold VoteState.openEpoch
  simp only [getLast?_concat, dropLast_concat]
  split_ifs with heq hearned hlong hlong
  · exact ⟨l, last, rfl, h, heq.symm⟩
  · refine ⟨_, _, tail_append_of_ne_nil (by simp), h.push (lt_of_le_of_ne hepoch (Ne.symm heq)) hearned
      (tail_suffix _) ?_, rfl⟩
    simpa using hlen
  · rw [length_append] at hlong
    exact ⟨_, _, rfl, h.push (lt_of_le_of_ne hepoch (Ne.symm heq)) hearned suffix_rfl (not_lt.1 hlong), rfl⟩
  · rw [length_append] at hlong
    exact absurd hlong (not_lt.2 hlen)
  · exact ⟨l, _, rfl, h.replace hepoch rfl le_rfl h.credits_eq, rfl⟩

lemma Chained.incrementCredits (h : Chained given l last)
    (hopen : VoteState.openEpoch epoch s.epochCredits = l ++ [last]) (credits : ℕ) :
    ∃ e, (s.incrementCredits epoch credits).epochCredits = l ++ [e] ∧ Chained (given + credits) l e
      ∧ e.epoch = last.epoch := by
  have hgiven := h.credits_eq
  refine ⟨{ last with credits := saturatingAdd last.credits credits }, ?_,
    h.replace le_rfl rfl ?_ ?_, rfl⟩
  · rw [VoteState.incrementCredits, hopen]
    exact modifyLast_concat ..
  · simp only [saturatingAdd]
    omega
  · simp only [saturatingAdd]
    omega

/-- Calls of `increment_credits`, with epochs and credits. -/
def incrementAll (s : VoteState) (calls : List (ℕ × ℕ)) : VoteState :=
  calls.foldl (fun s call => s.incrementCredits call.1 call.2) s

lemma chained_incrementAll (hempty : s.epochCredits = []) {calls : List (ℕ × ℕ)} (hne : calls ≠ [])
    (hepochs : calls.Pairwise fun call next => call.1 ≤ next.1) :
    ∃ l last, (s.incrementAll calls).epochCredits = l ++ [last]
      ∧ Chained (calls.map Prod.snd).sum l last ∧ ∃ call ∈ calls, call.1 = last.epoch := by
  induction calls using reverseRecOn with
  | nil => exact absurd rfl hne
  | append_singleton calls call ih =>
    obtain ⟨hcalls, -, hle⟩ := pairwise_append.1 hepochs
    obtain ⟨l, last, hopen, h, hlast⟩ : ∃ l last,
        VoteState.openEpoch call.1 (s.incrementAll calls).epochCredits = l ++ [last]
        ∧ Chained (calls.map Prod.snd).sum l last ∧ last.epoch = call.1 := by
      rcases eq_or_ne calls [] with rfl | hne
      · refine ⟨[], ⟨call.1, 0, 0⟩, ?_, ⟨by decide, isChain_singleton _, nofun, le_rfl, rfl⟩, rfl⟩
        rw [incrementAll, foldl_nil, hempty]
        rfl
      · obtain ⟨l, last, heq, h, c, hc, hlast⟩ := ih hne hcalls
        rw [heq]
        exact h.openEpoch (hlast ▸ hle c hc call mem_cons_self)
    obtain ⟨e, heq, h', he⟩ := h.incrementCredits hopen call.2
    refine ⟨l, e, ?_, ?_, call, mem_concat_self, (he.trans hlast).symm⟩
    · rw [incrementAll, foldl_append]
      exact heq
    · simpa using h'

/-- However credits are given, in epochs that do not decrease, the entries are a chain of at most 64
epochs. All but the last have earned credits, and the last has the credits of all calls. -/
theorem epochCredits_chain (s : VoteState) (hempty : s.epochCredits = []) (calls : List (ℕ × ℕ))
    (hepochs : calls.Pairwise fun call next => call.1 ≤ next.1) :
    (s.incrementAll calls).epochCredits.length ≤ maxEpochCreditsHistory
      ∧ (s.incrementAll calls).epochCredits.IsChain
        (fun e next => e.epoch < next.epoch ∧ next.prevCredits = e.credits)
      ∧ (∀ e ∈ (s.incrementAll calls).epochCredits, e.prevCredits ≤ e.credits)
      ∧ (∀ e ∈ (s.incrementAll calls).epochCredits.dropLast, e.prevCredits < e.credits)
      ∧ (s.incrementAll calls).epochCredits.getLast?.map (·.credits)
        = if calls = [] then none else some (min (calls.map Prod.snd).sum u64Max) := by
  rcases eq_or_ne calls [] with rfl | hne
  · simp [incrementAll, hempty]
  · obtain ⟨l, last, heq, h, -⟩ := chained_incrementAll hempty hne hepochs
    rw [heq, dropLast_concat, getLast?_concat, if_neg hne, length_append]
    refine ⟨h.length_lt, h.chain, forall_mem_append.2 ⟨fun e he => (h.earned e he).le,
      forall_mem_singleton.2 h.le⟩, h.earned, congrArg some h.credits_eq⟩

/-- The epoch without credits is moved up. -/
theorem epochCredits_chain_three : (incrementAll {} [(1, 5), (2, 0), (4, 3)]).epochCredits
      = [⟨1, 5, 0⟩, ⟨4, 8, 5⟩]
    ∧ ∀ e ∈ (incrementAll {} [(1, 5), (2, 0), (4, 3)]).epochCredits, e.prevCredits ≤ e.credits :=
  ⟨by decide, (epochCredits_chain {} rfl _ (by decide)).2.2.1⟩

end BlackBull.VoteState
