import BlackBull.Tower.Lockout

/-!
# Towers

In a tower the slots ascend, the confirmations descend and every vote was cast within the lockout of
the one below it.
-/

namespace BlackBull

open List Lockout

namespace Lockout

/-- `v` comes after `u` in a tower. -/
structure Below (u v : Lockout) : Prop where
  slot : u.slot < v.slot
  confirmationCount : v.confirmationCount < u.confirmationCount
  locked : v.slot ≤ u.lastLockedOutSlot

lemma lockout_mono {u v : Lockout} (h : u.confirmationCount ≤ v.confirmationCount) :
    u.lockout ≤ v.lockout :=
  Nat.pow_le_pow_right (by decide) (by omega)

lemma lastLockedOutSlot_mono {u v : Lockout} (hslot : u.slot = v.slot)
    (h : u.confirmationCount ≤ v.confirmationCount) :
    u.lastLockedOutSlot ≤ v.lastLockedOutSlot := by
  rw [lastLockedOutSlot, hslot]
  exact Nat.add_le_add_left (lockout_mono h) _

end Lockout

/-- The tower invariant. -/
structure IsTower (votes : List Lockout) : Prop where
  length_le : votes.length ≤ maxLockoutHistory
  chain : votes.IsChain Lockout.Below
  pos : ∀ v ∈ votes, 0 < v.confirmationCount
  le : ∀ v ∈ votes, v.confirmationCount ≤ maxLockoutHistory

def Ascending (votes : List Lockout) : Prop := votes.Pairwise (·.slot < ·.slot)

instance (votes : List Lockout) : Decidable (Ascending votes) :=
  inferInstanceAs (Decidable (votes.Pairwise _))

variable {votes : List Lockout} {slot : ℕ} {w : Lockout}

lemma IsTower.ascending (h : IsTower votes) : Ascending votes := by
  have hslots : votes.IsChain (fun u v => u.slot < v.slot) := h.chain.imp fun _ _ h => h.slot
  exact isChain_iff_pairwise.1 hslots

lemma IsTower.of_infix {votes' : List Lockout} (h : IsTower votes) (hsub : votes' <:+: votes) :
    IsTower votes' :=
  ⟨hsub.length_le.trans h.length_le, h.chain.infix hsub, fun v hv => h.pos v (hsub.subset hv),
    fun v hv => h.le v (hsub.subset hv)⟩

lemma Ascending.lt_getLast? {v : Lockout} (h : Ascending votes) (hlast : votes.getLast? = some w)
    (hv : v ∈ votes) : v = w ∨ v.slot < w.slot := by
  obtain ⟨l, rfl⟩ := getLast?_eq_some_iff.1 hlast
  rcases mem_append.1 hv with hv | hv
  · exact .inr ((pairwise_append.1 h).2.2 v hv w mem_cons_self)
  · exact .inl (mem_singleton.1 hv)

section Stack

variable {α : Type}

lemma popExpiredVotes_initial (lockout : α → Lockout) (slot : ℕ) (votes : List α) :
    popExpiredVotes lockout slot votes <+: votes :=
  rdropWhile_prefix _ _

lemma popRooted_cases (votes : List α) :
    popRooted votes = (none, votes) ∧ votes.length ≠ maxLockoutHistory
      ∨ ∃ v rest, votes = v :: rest ∧ popRooted votes = (some v, rest) := by
  unfold popRooted
  split_ifs with hfull
  · cases votes with
    | nil => cases hfull
    | cons v rest => exact .inr ⟨v, rest, rfl, rfl⟩
  · exact .inl ⟨rfl, hfull⟩

lemma popRooted_snd_suffix (votes : List α) : (popRooted votes).2 <:+ votes := by
  rcases popRooted_cases votes with ⟨heq, -⟩ | ⟨v, rest, rfl, heq⟩
  · simp only [heq, suffix_rfl]
  · simp only [heq, suffix_cons]

lemma popRooted_snd_length {votes : List α} (h : votes.length ≤ maxLockoutHistory) :
    (popRooted votes).2.length < maxLockoutHistory := by
  rcases popRooted_cases votes with ⟨heq, hne⟩ | ⟨v, rest, rfl, heq⟩ <;> rw [heq]
  · exact lt_of_le_of_ne h hne
  · exact h

lemma locked_of_popExpiredVotes {v : Lockout}
    (h : (popExpiredVotes id slot votes).getLast? = some v) : slot ≤ v.lastLockedOutSlot := by
  have hne : popExpiredVotes id slot votes ≠ [] := by
    intro hnil
    rw [hnil] at h
    cases h
  have hlast := rdropWhile_last_not (fun v : Lockout => !v.isLockedOutAtSlot slot) votes hne
  obtain rfl : (popExpiredVotes id slot votes).getLast hne = v :=
    Option.some.inj ((getLast?_eq_some_getLast hne).symm.trans h)
  rw [Bool.not_eq_true', Bool.not_eq_false] at hlast
  exact of_decide_eq_true hlast

lemma expired_of_popExpiredVotes {v : Lockout} (hv : v ∈ votes)
    (hnot : v ∉ popExpiredVotes id slot votes) : v.lastLockedOutSlot < slot := by
  rw [← @rdropWhile_append_rtakeWhile _ (fun v => !(id v).isLockedOutAtSlot slot) votes,
    mem_append] at hv
  have hexpired := mem_rtakeWhile_imp (hv.resolve_left hnot)
  simpa [isLockedOutAtSlot] using hexpired

lemma getElem_doubleLockouts {i : ℕ} (hi : i < votes.length)
    (hi' : i < (doubleLockouts id confirm votes).length) :
    (doubleLockouts id confirm votes)[i].slot = votes[i].slot
      ∧ (doubleLockouts id confirm votes)[i].confirmationCount
        = if i + votes[i].confirmationCount < votes.length then votes[i].confirmationCount + 1
          else votes[i].confirmationCount := by
  simp only [doubleLockouts, getElem_mapIdx, id]
  split_ifs <;> exact ⟨rfl, rfl⟩

@[simp] lemma length_doubleLockouts (lockout : α → Lockout) (confirm : α → α)
    (votes : List α) : (doubleLockouts lockout confirm votes).length = votes.length :=
  length_mapIdx

lemma map_slot_doubleLockouts (votes : List Lockout) :
    (doubleLockouts id confirm votes).map (·.slot) = votes.map (·.slot) := by
  refine ext_getElem (by simp) fun i hi hi' => ?_
  rw [getElem_map, getElem_map]
  exact (getElem_doubleLockouts (by simpa using hi') (by simpa using hi)).1

lemma exists_mem_doubleLockouts {v : Lockout} (hv : v ∈ votes) :
    ∃ w ∈ doubleLockouts id confirm votes, w.slot = v.slot
      ∧ v.confirmationCount ≤ w.confirmationCount := by
  obtain ⟨i, hi, rfl⟩ := mem_iff_getElem.1 hv
  have hi' : i < (doubleLockouts id confirm votes).length := by simpa using hi
  obtain ⟨hslot, hconf⟩ := getElem_doubleLockouts hi hi'
  refine ⟨_, getElem_mem hi', hslot, ?_⟩
  rw [hconf]
  split_ifs <;> omega

lemma exists_mem_of_mem_doubleLockouts (hw : w ∈ doubleLockouts id confirm votes) :
    ∃ v ∈ votes, w.slot = v.slot := by
  have hmem := mem_map_of_mem (f := Lockout.slot) hw
  rw [map_slot_doubleLockouts] at hmem
  obtain ⟨v, hv, heq⟩ := mem_map.1 hmem
  exact ⟨v, hv, heq.symm⟩

end Stack

section Push

variable (votes slot)

/-- The tower with a vote on top, once the lockouts are doubled. -/
def pushVote : List Lockout :=
  doubleLockouts id confirm (votes ++ [Lockout.new slot])

variable {votes slot}

lemma getElem_pushVote_old {i : ℕ} (hi : i < votes.length)
    (hi' : i < (pushVote votes slot).length) :
    (pushVote votes slot)[i].slot = votes[i].slot
      ∧ (pushVote votes slot)[i].confirmationCount
        = if i + votes[i].confirmationCount < votes.length + 1 then votes[i].confirmationCount + 1
          else votes[i].confirmationCount := by
  have h := @getElem_doubleLockouts (votes ++ [Lockout.new slot]) i (by simp; omega) hi'
  rw [getElem_append_left hi, length_append] at h
  exact h

lemma getElem_pushVote_new (hi' : votes.length < (pushVote votes slot).length) :
    (pushVote votes slot)[votes.length].slot = slot
      ∧ (pushVote votes slot)[votes.length].confirmationCount = 1 := by
  have h := @getElem_doubleLockouts (votes ++ [Lockout.new slot]) votes.length (by simp) hi'
  simpa [Lockout.new, pushVote] using h

lemma IsTower.push (h : IsTower votes) (hlen : votes.length < maxLockoutHistory)
    (hlast : ∀ v, votes.getLast? = some v → v.slot < slot ∧ slot ≤ v.lastLockedOutSlot) :
    IsTower (pushVote votes slot) := by
  have hlength : (pushVote votes slot).length = votes.length + 1 := by simp [pushVote]
  have hconf : ∀ v ∈ pushVote votes slot,
      0 < v.confirmationCount ∧ v.confirmationCount ≤ maxLockoutHistory := by
    intro v hv
    obtain ⟨i, hi, rfl⟩ := mem_iff_getElem.1 hv
    by_cases hold : i < votes.length
    · have hle := h.le _ (getElem_mem hold)
      rw [(getElem_pushVote_old hold hi).2]
      split_ifs <;> omega
    · obtain rfl : i = votes.length := by omega
      rw [(getElem_pushVote_new hi).2]
      decide
  refine ⟨by omega, ?_, fun v hv => (hconf v hv).1, fun v hv => (hconf v hv).2⟩
  rw [isChain_iff_getElem]
  intro i hi
  have hold : i < votes.length := by omega
  obtain ⟨hslot, hcount⟩ := @getElem_pushVote_old votes slot i hold (by omega)
  have hlocked : votes[i].lastLockedOutSlot
      ≤ (pushVote votes slot)[i].lastLockedOutSlot := by
    refine lastLockedOutSlot_mono hslot.symm ?_
    rw [hcount]
    split_ifs <;> omega
  by_cases hnext : i + 1 < votes.length
  · have hbelow := isChain_iff_getElem.1 h.chain i hnext
    obtain ⟨hslot', hcount'⟩ := getElem_pushVote_old hnext hi
    have hlt := hbelow.confirmationCount
    refine ⟨?_, ?_, ?_⟩
    · rw [hslot, hslot']
      exact hbelow.slot
    · rw [hcount, hcount']
      split_ifs <;> omega
    · rw [hslot']
      exact hbelow.locked.trans hlocked
  · -- the new vote has one confirmation, and the vote below it now has two or more
    obtain ⟨hslot', hcount'⟩ := @getElem_pushVote_new votes slot (by omega)
    have heq : i + 1 = votes.length := by omega
    have hpos := h.pos _ (getElem_mem hold)
    have htop := hlast votes[i] (by rw [getLast?_eq_getElem?, ← heq]; simp)
    simp only [heq]
    refine ⟨?_, ?_, ?_⟩
    · rw [hslot, hslot']
      exact htop.1
    · rw [hcount]
      split_ifs <;> omega
    · rw [hslot']
      exact htop.2.trans hlocked

end Push

namespace TowerVoteState

variable {t : TowerVoteState}

def AboveRoot (t : TowerVoteState) : Prop := ∀ root ∈ t.rootSlot, ∀ v ∈ t.votes, root < v.slot

def IsNew (t : TowerVoteState) (slot : ℕ) : Prop := ∀ v ∈ t.votes, v.slot < slot

/-- The votes left before the new one is pushed. -/
def remaining (t : TowerVoteState) (slot : ℕ) : List Lockout :=
  (popRooted (popExpiredVotes id slot t.votes)).2

lemma remaining_infix (t : TowerVoteState) (slot : ℕ) : t.remaining slot <:+: t.votes :=
  (popRooted_snd_suffix _).isInfix.trans (popExpiredVotes_initial id slot t.votes).isInfix

lemma not_any_of_isNew (h : t.IsNew slot) : ¬ t.lastVotedSlot.any (slot ≤ ·) = true := by
  rw [Option.any_eq_true]
  rintro ⟨last, hlast, hle⟩
  obtain ⟨v, hv, rfl⟩ := Option.map_eq_some_iff.1 hlast
  have hlt := h v (mem_of_getLast? hv)
  have hle := of_decide_eq_true hle
  omega

lemma isNew_of_lastVotedSlot (hasc : Ascending t.votes)
    (h : ∀ last ∈ t.lastVotedSlot, last < slot) : t.IsNew slot := by
  intro v hv
  obtain ⟨w, hw⟩ := Option.ne_none_iff_exists'.1 (mt getLast?_eq_none_iff.1
    (ne_nil_of_mem hv))
  have hlt := h w.slot (by rw [lastVotedSlot, hw]; rfl)
  rcases hasc.lt_getLast? hw hv with rfl | hvw
  · exact hlt
  · exact hvw.trans hlt

lemma processNextVoteSlot_eq (h : t.IsNew slot) :
    t.processNextVoteSlot slot = ⟨pushVote (t.remaining slot) slot,
      ((popRooted (popExpiredVotes id slot t.votes)).1.map (·.slot)).or t.rootSlot⟩ := by
  rw [processNextVoteSlot, if_neg (not_any_of_isNew h)]
  rfl

lemma mem_cases (slot : ℕ) {v : Lockout} (hv : v ∈ t.votes) :
    v ∉ popExpiredVotes id slot t.votes ∧ v.lastLockedOutSlot < slot
      ∨ (popRooted (popExpiredVotes id slot t.votes)).1 = some v ∨ v ∈ t.remaining slot := by
  by_cases hpopped : v ∈ popExpiredVotes id slot t.votes
  · refine .inr ?_
    rw [remaining]
    rcases popRooted_cases (popExpiredVotes id slot t.votes) with ⟨heq, -⟩ | ⟨u, rest, hl, heq⟩ <;>
      rw [heq]
    · exact .inr hpopped
    · rw [hl, mem_cons] at hpopped
      exact hpopped.imp (fun h => by rw [h]) id
  · exact .inl ⟨hpopped, expired_of_popExpiredVotes hv hpopped⟩

lemma rootSlot_cases (hasc : Ascending t.votes) (h : t.IsNew slot) :
    (popRooted (popExpiredVotes id slot t.votes)).1 = none
        ∧ (t.processNextVoteSlot slot).rootSlot = t.rootSlot
      ∨ ∃ v ∈ t.votes, (popRooted (popExpiredVotes id slot t.votes)).1 = some v
        ∧ (t.processNextVoteSlot slot).rootSlot = some v.slot
        ∧ ∀ w ∈ t.remaining slot, v.slot < w.slot := by
  rw [processNextVoteSlot_eq h, remaining]
  have hpre := popExpiredVotes_initial id slot t.votes
  rcases popRooted_cases (popExpiredVotes id slot t.votes) with ⟨heq, -⟩ | ⟨v, rest, hl, heq⟩ <;>
    rw [heq]
  · exact .inl ⟨rfl, rfl⟩
  · rw [hl] at hpre
    refine .inr ⟨v, hpre.subset mem_cons_self, rfl, rfl, ?_⟩
    exact (pairwise_cons.1 (hasc.sublist hpre.sublist)).1

lemma mem_votes_processNextVoteSlot (h : t.IsNew slot)
    (hw : w ∈ (t.processNextVoteSlot slot).votes) :
    w.slot = slot ∨ ∃ v ∈ t.remaining slot, w.slot = v.slot := by
  rw [processNextVoteSlot_eq h] at hw
  obtain ⟨v, hv, heq⟩ := exists_mem_of_mem_doubleLockouts hw
  rcases mem_append.1 hv with hv | hv
  · exact .inr ⟨v, hv, heq⟩
  · rw [mem_singleton.1 hv] at heq
    exact .inl heq

lemma lastVotedSlot_processNextVoteSlot (h : t.IsNew slot) :
    (t.processNextVoteSlot slot).lastVotedSlot = some slot := by
  rw [processNextVoteSlot_eq h, lastVotedSlot, ← getLast?_map, pushVote,
    map_slot_doubleLockouts, map_append, map_singleton, getLast?_concat]
  rfl

theorem isTower_processNextVoteSlot (h : IsTower t.votes) (hnew : t.IsNew slot) :
    IsTower (t.processNextVoteSlot slot).votes := by
  rw [processNextVoteSlot_eq hnew]
  refine (h.of_infix (t.remaining_infix slot)).push ?_ fun v hv => ⟨?_, ?_⟩
  · exact popRooted_snd_length ((popExpiredVotes_initial _ _ _).length_le.trans h.length_le)
  · exact hnew v ((t.remaining_infix slot).subset (mem_of_getLast? hv))
  · refine @locked_of_popExpiredVotes t.votes slot v ?_
    obtain ⟨l, hl⟩ := popRooted_snd_suffix (popExpiredVotes id slot t.votes)
    rw [← hl, getLast?_append]
    exact congrArg (·.or l.getLast?) hv

theorem aboveRoot_processNextVoteSlot (hasc : Ascending t.votes) (h : t.AboveRoot)
    (hnew : t.IsNew slot) (hroot : ∀ root ∈ t.rootSlot, root < slot) :
    (t.processNextVoteSlot slot).AboveRoot := by
  intro root hr w hw
  rcases mem_votes_processNextVoteSlot hnew hw with hslot | ⟨v, hv, hslot⟩ <;> rw [hslot]
  · rcases rootSlot_cases hasc hnew with ⟨-, heq⟩ | ⟨u, hu, -, heq, -⟩ <;> rw [heq] at hr
    · exact hroot root hr
    · cases hr
      exact hnew u hu
  · rcases rootSlot_cases hasc hnew with ⟨-, heq⟩ | ⟨u, -, -, heq, hlt⟩ <;> rw [heq] at hr
    · exact h root hr v ((t.remaining_infix slot).subset hv)
    · cases hr
      exact hlt v hv

/-- Between 1 and 31 votes that make a tower, above the root unless that is 0. -/
structure Valid (t : TowerVoteState) : Prop where
  nonempty : t.votes ≠ []
  isTower : IsTower t.votes
  root : ∀ root ∈ t.rootSlot, root = 0 ∨ ∀ v ∈ t.votes, root < v.slot

def FreshOrValid (t : TowerVoteState) : Prop := t.votes = [] ∧ t.rootSlot = none ∨ t.Valid

lemma processNextVoteSlot_of_not_isNew (h : IsTower t.votes) (hnew : ¬ t.IsNew slot) :
    t.processNextVoteSlot slot = t := by
  obtain ⟨v, hv, hle⟩ : ∃ v ∈ t.votes, slot ≤ v.slot := by simpa [IsNew] using hnew
  obtain ⟨w, hw⟩ := Option.ne_none_iff_exists'.1 (mt getLast?_eq_none_iff.1
    (ne_nil_of_mem hv))
  have hlast : t.lastVotedSlot.any (slot ≤ ·) = true := by
    rw [lastVotedSlot, hw]
    rcases h.ascending.lt_getLast? hw hv with rfl | hlt
    · exact decide_eq_true hle
    · exact decide_eq_true (hle.trans hlt.le)
  rw [processNextVoteSlot, if_pos hlast]

theorem FreshOrValid.processNextVoteSlot (h : t.FreshOrValid) (slot : ℕ) :
    (t.processNextVoteSlot slot).FreshOrValid := by
  have htower : IsTower t.votes := by
    rcases h with ⟨hnil, -⟩ | hvalid
    · rw [hnil]
      exact ⟨by decide, isChain_nil, nofun, nofun⟩
    · exact hvalid.isTower
  by_cases hnew : t.IsNew slot
  · have hlast := lastVotedSlot_processNextVoteSlot hnew
    refine .inr ⟨fun hnil => ?_, isTower_processNextVoteSlot htower hnew, fun root hr => ?_⟩
    · rw [lastVotedSlot, hnil] at hlast
      cases hlast
    · by_cases hzero : root = 0
      · exact .inl hzero
      refine .inr ?_
      rcases rootSlot_cases htower.ascending hnew with ⟨-, heq⟩ | ⟨u, hu, -, heq, hlt⟩
      · -- the root is that of before, which is below the votes and so below the slot
        rw [heq] at hr
        rcases h with ⟨-, hnone⟩ | hvalid
        · rw [hnone] at hr
          cases hr
        · have habove := (hvalid.root root hr).resolve_left hzero
          obtain ⟨v, hv⟩ := exists_mem_of_ne_nil _ hvalid.nonempty
          intro w hw
          rcases mem_votes_processNextVoteSlot hnew hw with hslot | ⟨v', hv', hslot⟩ <;> rw [hslot]
          · exact (habove v hv).trans (hnew v hv)
          · exact habove v' ((t.remaining_infix slot).subset hv')
      · rw [heq] at hr
        cases hr
        intro w hw
        rcases mem_votes_processNextVoteSlot hnew hw with hslot | ⟨v', hv', hslot⟩ <;> rw [hslot]
        · exact hnew u hu
        · exact hlt v' hv'
  · rw [processNextVoteSlot_of_not_isNew htower hnew]
    exact h

end TowerVoteState

end BlackBull
