import BlackBull.Proofs.VoteStateTower

/-!
# The local tower and the vote account

A validator votes on its local tower and sends the whole of it; the vote account compares it with
the tower it has.
-/

namespace BlackBull

open List LandedVote

namespace TowerVoteState

/-- What became of a vote: it is in the tower with its confirmations, or the tower has votes after
it, all outside its lockout. -/
def KeptOrDropped (v : Lockout) (votes : List Lockout) : Prop :=
  (∃ w ∈ votes, w.slot = v.slot ∧ v.confirmationCount ≤ w.confirmationCount)
    ∨ (∃ w ∈ votes, v.slot < w.slot)
      ∧ ∀ w ∈ votes, w.slot ≠ v.slot ∧ (v.slot < w.slot → v.lastLockedOutSlot < w.slot)

structure Follows (s t : TowerVoteState) : Prop where
  isTower : IsTower t.votes
  aboveRoot : t.AboveRoot
  root : ∀ root ∈ s.rootSlot, ∃ root' ∈ t.rootSlot, root ≤ root'
  kept : ∀ v ∈ s.votes, (∃ root ∈ t.rootSlot, v.slot ≤ root) ∨ KeptOrDropped v t.votes

variable {s t : TowerVoteState} {slot : ℕ}

lemma follows_self (h : IsTower s.votes) (hroot : s.AboveRoot) : Follows s s :=
  ⟨h, hroot, fun root hr => ⟨root, hr, le_rfl⟩, fun v hv => .inr (.inl ⟨v, hv, rfl, le_rfl⟩)⟩

lemma slot_lt_of_expired {u v : Lockout} (hasc : Ascending t.votes) (hu : u ∈ t.remaining slot)
    (hv : v ∈ t.votes) (hnot : v ∉ popExpiredVotes id slot t.votes) : u.slot < v.slot := by
  obtain ⟨l, hl⟩ := popExpiredVotes_initial id slot t.votes
  rw [Ascending, ← hl, pairwise_append] at hasc
  rw [← hl, mem_append] at hv
  exact hasc.2.2 u ((popRooted_snd_suffix _).subset hu) v (hv.resolve_left hnot)

lemma KeptOrDropped.processNextVoteSlot {v : Lockout} (h : KeptOrDropped v t.votes)
    (hasc : Ascending t.votes) (hnew : t.IsNew slot) :
    (∃ root ∈ (t.processNextVoteSlot slot).rootSlot, v.slot ≤ root)
      ∨ KeptOrDropped v (t.processNextVoteSlot slot).votes := by
  have hin : ∃ w ∈ (t.processNextVoteSlot slot).votes, w.slot = slot := by
    obtain ⟨w, hw, hslot⟩ := Option.map_eq_some_iff.1 (lastVotedSlot_processNextVoteSlot hnew)
    exact ⟨w, mem_of_getLast? hw, hslot⟩
  have hdrop (hvs : v.lastLockedOutSlot < slot ∧ v.slot < slot) (hrest : ∀ u ∈ t.remaining slot,
      u.slot ≠ v.slot ∧ (v.slot < u.slot → v.lastLockedOutSlot < u.slot)) :
      KeptOrDropped v (t.processNextVoteSlot slot).votes := by
    refine .inr ⟨?_, fun x hx => ?_⟩
    · obtain ⟨x, hx, hxs⟩ := hin
      exact ⟨x, hx, by omega⟩
    · rcases mem_votes_processNextVoteSlot hnew hx with hxs | ⟨u, hu, hxu⟩
      · omega
      · exact hxu ▸ hrest u hu
  rcases h with ⟨w, hw, hslot, hconf⟩ | ⟨⟨w, hw, hlt⟩, hdropped⟩
  · rcases mem_cases slot hw with ⟨hnot, hexpired⟩ | hrooted | hstays
    · -- it expires: what stays is before it
      have hle := Lockout.lastLockedOutSlot_mono hslot.symm hconf
      have hws := hnew w hw
      refine .inr (hdrop (by omega) fun u hu => ?_)
      have := slot_lt_of_expired hasc hu hw hnot
      omega
    · rcases rootSlot_cases hasc hnew with ⟨hnone, -⟩ | ⟨u, -, hu, hroot, -⟩
      · rw [hrooted] at hnone
        cases hnone
      · rw [hrooted] at hu
        cases hu
        exact .inl ⟨w.slot, hroot, hslot.symm.le⟩
    · have hpushed : w ∈ t.remaining slot ++ [Lockout.new slot] := mem_append_left _ hstays
      obtain ⟨x, hx, hxs, hxc⟩ := exists_mem_doubleLockouts hpushed
      rw [processNextVoteSlot_eq hnew]
      exact .inr (.inl ⟨x, hx, hxs.trans hslot, hconf.trans hxc⟩)
  · have hvs : v.lastLockedOutSlot < slot ∧ v.slot < slot := by
      have := hnew w hw
      have := (hdropped w hw).2 hlt
      omega
    exact .inr (hdrop hvs fun u hu => hdropped u ((t.remaining_infix slot).subset hu))

lemma root_le_processNextVoteSlot (hasc : Ascending t.votes) (habove : t.AboveRoot)
    (hnew : t.IsNew slot) : ∀ root ∈ t.rootSlot,
      ∃ root' ∈ (t.processNextVoteSlot slot).rootSlot, root ≤ root' := by
  intro root hr
  rcases rootSlot_cases hasc hnew with ⟨-, heq⟩ | ⟨u, hu, -, heq, -⟩ <;> rw [heq]
  · exact ⟨root, hr, le_rfl⟩
  · exact ⟨u.slot, rfl, (habove root hr u hu).le⟩

theorem Follows.processNextVoteSlot (h : Follows s t) (hnew : t.IsNew slot)
    (hroot : ∀ root ∈ t.rootSlot, root < slot) : Follows s (t.processNextVoteSlot slot) := by
  have hasc := h.isTower.ascending
  have hmono := root_le_processNextVoteSlot hasc h.aboveRoot hnew
  refine ⟨isTower_processNextVoteSlot h.isTower hnew,
    aboveRoot_processNextVoteSlot hasc h.aboveRoot hnew hroot, fun root hr => ?_, fun v hv => ?_⟩
  · obtain ⟨root1, hr1, hle1⟩ := h.root root hr
    obtain ⟨root2, hr2, hle2⟩ := hmono root1 hr1
    exact ⟨root2, hr2, hle1.trans hle2⟩
  · rcases h.kept v hv with ⟨root1, hr1, hle1⟩ | hkept
    · obtain ⟨root2, hr2, hle2⟩ := hmono root1 hr1
      exact .inl ⟨root2, hr2, hle1.trans hle2⟩
    · exact hkept.processNextVoteSlot hasc hnew

lemma above_processNextVoteSlot {next : ℕ} (hasc : Ascending t.votes) (hnew : t.IsNew slot)
    (hroot : ∀ root ∈ t.rootSlot, root < slot) (hnext : slot < next) :
    (t.processNextVoteSlot slot).IsNew next
      ∧ ∀ root ∈ (t.processNextVoteSlot slot).rootSlot, root < next := by
  refine ⟨fun w hw => ?_, fun root hr => ?_⟩
  · rcases mem_votes_processNextVoteSlot hnew hw with hslot | ⟨v, hv, hslot⟩ <;> rw [hslot]
    · exact hnext
    · exact (hnew v ((t.remaining_infix slot).subset hv)).trans hnext
  · rcases rootSlot_cases hasc hnew with ⟨-, heq⟩ | ⟨u, hu, -, heq, -⟩ <;> rw [heq] at hr
    · exact (hroot root hr).trans hnext
    · cases hr
      exact (hnew u hu).trans hnext

lemma votes_processNextVoteSlot_ne_nil (hnew : t.IsNew slot) :
    (t.processNextVoteSlot slot).votes ≠ [] := by
  intro hnil
  have hlast := lastVotedSlot_processNextVoteSlot hnew
  rw [lastVotedSlot, hnil] at hlast
  cases hlast

theorem Follows.foldl {slots : List ℕ} (h : Follows s t) (hslots : slots.Pairwise (· < ·))
    (hnew : ∀ slot ∈ slots, t.IsNew slot ∧ ∀ root ∈ t.rootSlot, root < slot)
    (hne : t.votes ≠ [] ∨ slots ≠ []) :
    Follows s (slots.foldl TowerVoteState.processNextVoteSlot t)
      ∧ (slots.foldl TowerVoteState.processNextVoteSlot t).votes ≠ [] := by
  induction slots generalizing t with
  | nil => exact ⟨h, hne.resolve_right fun h => h rfl⟩
  | cons slot slots ih =>
    obtain ⟨hlt, hslots⟩ := pairwise_cons.1 hslots
    obtain ⟨hslot, hroot⟩ := hnew slot mem_cons_self
    refine ih (h.processNextVoteSlot hslot hroot) hslots (fun next hnext => ?_)
      (.inl (votes_processNextVoteSlot_ne_nil hslot))
    exact above_processNextVoteSlot h.isTower.ascending hslot hroot (hlt next hnext)

lemma KeptOrDropped.of_cons {v w : Lockout} {votes : List Lockout}
    (h : KeptOrDropped v (w :: votes)) (hw : w.slot < v.slot) : KeptOrDropped v votes := by
  rcases h with ⟨u, hu, hslot, hconf⟩ | ⟨⟨u, hu, hlt⟩, hall⟩
  · rcases mem_cons.1 hu with rfl | hu
    · omega
    · exact .inl ⟨u, hu, hslot, hconf⟩
  · rcases mem_cons.1 hu with rfl | hu
    · omega
    · exact .inr ⟨⟨u, hu, hlt⟩, fun x hx => hall x (mem_cons_of_mem _ hx)⟩

lemma KeptOrDropped.head {v w : Lockout} {votes : List Lockout}
    (h : KeptOrDropped v (w :: votes)) (hasc : Ascending (w :: votes)) :
    (w.slot = v.slot → v.confirmationCount ≤ w.confirmationCount)
      ∧ (v.slot < w.slot → v.lastLockedOutSlot < w.slot) := by
  have hlt := (pairwise_cons.1 hasc).1
  rcases h with ⟨u, hu, hslot, hconf⟩ | ⟨-, hall⟩
  · rcases mem_cons.1 hu with rfl | hu
    · exact ⟨fun _ => hconf, fun h => by omega⟩
    · have := hlt u hu
      exact ⟨fun h => by omega, fun h => by omega⟩
  · have := hall w mem_cons_self
    exact ⟨fun h => absurd h this.1, this.2⟩

end TowerVoteState

namespace VoteState

open TowerVoteState (KeptOrDropped Follows)

def takeLatency (current : List LandedVote) (w : LandedVote) : LandedVote :=
  match current.find? (·.slot = w.slot) with
  | some v => { w with latency := v.latency }
  | none => w

variable {w : LandedVote} {current : List LandedVote}

lemma takeLatency_cons {v : LandedVote} (h : v.slot ≠ w.slot) :
    takeLatency (v :: current) w = takeLatency current w := by
  rw [takeLatency, find?_cons_of_neg (by simpa using h)]
  rfl

@[simp] lemma toLockout_takeLatency (current : List LandedVote) (w : LandedVote) :
    (takeLatency current w).toLockout = w.toLockout := by
  unfold takeLatency
  split <;> rfl

lemma takeLatency_of_not_mem (h : ∀ v ∈ current, v.slot ≠ w.slot) : takeLatency current w = w := by
  rw [takeLatency, find?_eq_none.2 (by simpa using h)]

lemma takeLatency_of_mem {v : LandedVote} (hasc : Ascending (lockouts current)) (hv : v ∈ current)
    (hslot : v.slot = w.slot) :
    takeLatency current w = { w with latency := v.latency } := by
  induction current with
  | nil => cases hv
  | cons u current ih =>
    obtain ⟨hlt, hasc⟩ := ascending_cons.1 hasc
    rcases mem_cons.1 hv with rfl | hv
    · rw [takeLatency, find?_cons_of_pos (by simpa using hslot)]
    · have := hlt v hv
      rw [takeLatency_cons (by omega), ih hasc hv]

/-- A tower in which the current votes are kept or dropped is taken, with the latencies known. -/
lemma mergeVotes_of_keptOrDropped {new : List LandedVote}
    (hc : Ascending (lockouts current)) (hn : Ascending (lockouts new))
    (h : ∀ v ∈ current, KeptOrDropped v.toLockout (lockouts new)) :
    mergeVotes current new = .ok (new.map (takeLatency current)) := by
  fun_induction mergeVotes current new with
  | case1 new =>
    rw [map_congr_left fun w _ => takeLatency_of_not_mem (forall_mem_nil _), map_id']
  | case2 v current =>
    rcases h v mem_cons_self with ⟨w, hw, -⟩ | ⟨⟨w, hw, -⟩, -⟩ <;> cases hw
  | case3 v current w new hlt hlocked =>
    have hexpired := ((h v mem_cons_self).head hn).2 hlt
    exact absurd hlocked (Nat.not_le.2 hexpired)
  | case4 v current w new hlt hexpired ih =>
    obtain ⟨hvlt, hc⟩ := ascending_cons.1 hc
    rw [ih hc hn fun u hu => h u (mem_cons_of_mem _ hu)]
    refine congrArg Except.ok (map_congr_left fun x hx => ?_)
    have hwx : w.slot ≤ x.slot := by
      rcases mem_cons.1 hx with rfl | hx
      · exact le_rfl
      · exact ((ascending_cons.1 hn).1 x hx).le
    rw [takeLatency_cons (by omega)]
  | case5 v current w new hlt heq hroll =>
    have hconf := ((h v mem_cons_self).head hn).1 heq.symm
    exact absurd hroll (Nat.not_lt.2 hconf)
  | case6 v current w new hlt heq hroll ih =>
    have htake := takeLatency_of_mem hc mem_cons_self heq
    obtain ⟨hvlt, hc⟩ := ascending_cons.1 hc
    obtain ⟨hwlt, hn⟩ := ascending_cons.1 hn
    rw [ih hc hn fun u hu => (h u (mem_cons_of_mem _ hu)).of_cons (heq ▸ hvlt u hu),
      map_cons, htake]
    refine congrArg Except.ok (congrArg _ (map_congr_left fun x hx => ?_))
    have := hwlt x hx
    rw [takeLatency_cons (by omega)]
  | case7 v current w new hlt hne ih =>
    obtain ⟨hwlt, hn⟩ := ascending_cons.1 hn
    have hw := lt_of_ascending hc (show w.slot < v.slot by omega)
    rw [ih hc hn fun u hu => (h u hu).of_cons (hw u hu), map_cons,
      takeLatency_of_not_mem fun u hu => (hw u hu).ne']
    rfl

variable {s : VoteState} {epoch currentSlot slot : ℕ} {newRoot : Option ℕ}

lemma lt_of_mem_drop_rootedVotes {v : LandedVote} (hasc : Ascending s.tower.votes)
    (hv : v ∈ s.votes.drop (s.rootedVotes newRoot).length) :
    ∀ root ∈ newRoot, root < v.slot := by
  rintro root rfl
  rw [drop_rootedVotes] at hv
  change Ascending (lockouts s.votes) at hasc
  generalize s.votes = votes at hasc hv
  induction votes with
  | nil => cases hv
  | cons u votes ih =>
    obtain ⟨hlt, hasc⟩ := ascending_cons.1 hasc
    rw [dropWhile_cons] at hv
    split_ifs at hv with hle
    · exact ih hasc hv
    · have hroot : root < u.slot := by simpa using hle
      rcases mem_cons.1 hv with rfl | hv
      · exact hroot
      · exact hroot.trans (hlt v hv)

lemma processNewVoteState_eq {new merged : List LandedVote} (hne : new ≠ [])
    (hlen : new.length ≤ maxLockoutHistory)
    (hroot : ∀ root ∈ s.rootSlot, ∃ root' ∈ newRoot, root ≤ root')
    (hcheck : checkNewVotes newRoot none new = .ok ())
    (hmerged : mergeVotes (s.votes.drop (s.rootedVotes newRoot).length) new = .ok merged) :
    s.processNewVoteState new newRoot none epoch currentSlot
      = .ok { s.payRooted newRoot epoch with
        rootSlot := newRoot, votes := merged.map (fillLatency currentSlot) } := by
  have hback : ¬ (s.rootSlot.any fun root => newRoot.all (· < root)) = true := by
    rw [Option.any_eq_true]
    rintro ⟨root, hr, hlt⟩
    obtain ⟨root', hr', hle⟩ := hroot root hr
    rw [hr'] at hlt
    have hlt := of_decide_eq_true hlt
    omega
  rw [processNewVoteState, getLast?_eq_some_getLast hne]
  simp only [if_neg (Nat.not_lt.2 hlen), if_neg hback, hcheck, hmerged]
  rfl

lemma processNewVoteState_of_follows {t : TowerVoteState} (hs : Ascending s.tower.votes)
    (h : Follows s.tower t) (hne : t.votes ≠ []) :
    s.processNewVoteState (t.votes.map ofLockout) t.rootSlot none epoch currentSlot
      = .ok { s.payRooted t.rootSlot epoch with
        rootSlot := t.rootSlot
        votes := t.votes.map fun v => fillLatency currentSlot
          (takeLatency (s.votes.drop (s.rootedVotes t.rootSlot).length) (.ofLockout v)) } := by
  have hmerged := @mergeVotes_of_keptOrDropped
    (s.votes.drop (s.rootedVotes t.rootSlot).length) (t.votes.map ofLockout)
    (hs.sublist ((drop_sublist _ _).map _))
    (by rw [lockouts_ofLockout]; exact h.isTower.ascending) fun v hv => by
      have habove := lt_of_mem_drop_rootedVotes hs hv
      rw [lockouts_ofLockout]
      refine (h.kept v.toLockout (mem_map_of_mem (mem_of_mem_drop hv))).resolve_left ?_
      rintro ⟨root, hr, hle⟩
      have := habove root hr
      omega
  have hcheck : checkNewVotes t.rootSlot none (t.votes.map ofLockout) = .ok () := by
    rw [checkNewVotes_eq_ok, Option.toList_none, nil_append, lockouts_ofLockout]
    refine ⟨h.isTower.chain, fun v hv => ?_⟩
    obtain ⟨w, hw, rfl⟩ := mem_map.1 hv
    exact ⟨h.isTower.pos w hw, h.isTower.le w hw, fun root hr => .inl (h.aboveRoot root hr w hw)⟩
  rw [processNewVoteState_eq (by simpa using hne) (by simpa using h.isTower.length_le) h.root hcheck
    hmerged, map_map, map_map]
  rfl

lemma not_any_lastVotedSlot (hnew : s.tower.IsNew slot) :
    ¬ s.lastVotedSlot.any (slot ≤ ·) = true := by
  rw [← lastVotedSlot_tower]
  exact TowerVoteState.not_any_of_isNew hnew

/-- The votes of an account after the next vote: the new one is on top, the others keep their
latencies and are above the root. -/
lemma latency_processNextVoteSlot (hnew : s.tower.IsNew slot)
    (hw : w ∈ (s.processNextVoteSlot epoch currentSlot slot).votes) :
    w.slot = slot ∧ w.latency = computeVoteLatency slot currentSlot
      ∨ ∃ v ∈ s.votes, w.slot = v.slot ∧ w.latency = v.latency := by
  rw [processNextVoteSlot, if_neg (not_any_lastVotedSlot hnew)] at hw
  obtain ⟨i, hi, rfl⟩ := mem_iff_getElem.1 hw
  simp only [doubleLockouts, length_mapIdx, getElem_mapIdx] at hi ⊢
  generalize hv : ((popRooted (popExpiredVotes (·.toLockout) slot s.votes)).2
    ++ [(⟨Lockout.new slot, computeVoteLatency slot currentSlot⟩ : LandedVote)])[i] = v
  have hmem := hv ▸ getElem_mem hi
  have hcases : v.slot = slot ∧ v.latency = computeVoteLatency slot currentSlot ∨ v ∈ s.votes := by
    rcases mem_append.1 hmem with hmem | hmem
    · exact .inr ((popExpiredVotes_initial _ _ _).subset ((popRooted_snd_suffix _).subset hmem))
    · rw [mem_singleton.1 hmem]
      exact .inl ⟨rfl, rfl⟩
  split_ifs <;> exact hcases.imp id fun h => ⟨v, h, rfl, rfl⟩

lemma payRooted_processNextVoteSlot (hasc : Ascending s.tower.votes) (habove : s.tower.AboveRoot)
    (hnew : s.tower.IsNew slot) :
    { s.payRooted (s.tower.processNextVoteSlot slot).rootSlot epoch with
        rootSlot := (s.tower.processNextVoteSlot slot).rootSlot
        votes := (s.processNextVoteSlot epoch currentSlot slot).votes }
      = s.processNextVoteSlot epoch currentSlot slot := by
  have hroot : (s.tower.processNextVoteSlot slot).rootSlot
      = ((popRooted (popExpiredVotes (·.toLockout) slot s.votes)).1.map (·.slot)).or s.rootSlot := by
    rw [TowerVoteState.processNextVoteSlot_eq hnew, tower, ← map_popExpiredVotes,
      lockouts_popRooted, Option.map_map]
    rfl
  rw [hroot, processNextVoteSlot, if_neg (not_any_lastVotedSlot hnew)]
  rcases popRooted_cases (popExpiredVotes (·.toLockout) slot s.votes) with
    ⟨heq, -⟩ | ⟨v, rest, hl, heq⟩ <;> simp only [heq]
  · rw [Option.map_none, Option.none_or, payRooted, if_neg (not_not_intro rfl)]
  · -- the rooted vote is the first one of the account, and the only one up to the new root
    have hpre := popExpiredVotes_initial (fun v : LandedVote => v.toLockout) slot s.votes
    rw [hl] at hpre
    obtain ⟨rest', hvotes⟩ := hpre
    have hv : v.toLockout ∈ s.tower.votes := by
      rw [tower, ← hvotes]
      exact mem_cons_self
    have hne : s.rootSlot ≠ some v.slot := fun hr => (habove v.slot hr _ hv).false
    have hrooted : s.rootedVotes (some v.slot) = [v] := by
      change Ascending (lockouts s.votes) at hasc
      rw [← hvotes, cons_append] at hasc
      rw [rootedVotes, ← hvotes, cons_append, takeWhile_cons_of_pos (by simp)]
      congr 1
      refine takeWhile_eq_nil_iff.2 fun hpos => ?_
      have hlt := (ascending_cons.1 hasc).1 _ (getElem_mem hpos)
      simpa using hlt
    have hcredits : ({ s with votes := v :: rest } : VoteState).creditsForVoteAtIndex 0
        = s.creditsForVoteAtIndex 0 := by
      rw [creditsForVoteAtIndex, creditsForVoteAtIndex, ← hvotes]
      rfl
    rw [Option.map_some, Option.some_or, payRooted, if_pos hne, earnedCredits, hrooted, hl, hcredits]
    rfl

lemma fillLatency_eq_self : fillLatency currentSlot w = w
    ↔ w.latency ≠ 0 ∨ computeVoteLatency w.slot currentSlot = 0 := by
  obtain ⟨v, latency⟩ := w
  unfold fillLatency
  split_ifs with hzero
  · obtain rfl : latency = 0 := hzero
    simp
  · exact iff_of_true rfl (.inl hzero)

lemma map_fillLatency_eq_self : { s with votes := s.votes.map (fillLatency currentSlot) } = s
    ↔ ∀ v ∈ s.votes, v.latency ≠ 0 ∨ computeVoteLatency v.slot currentSlot = 0 := by
  simp only [← fillLatency_eq_self]
  refine ⟨fun heq => ?_, fun hall => ?_⟩
  · exact map_inj_left.1 ((congrArg votes heq).trans (map_id _).symm)
  · rw [map_congr_left (g := id) hall, map_id]

lemma fillLatency_takeLatency (hasc : Ascending s.tower.votes) (hnew : s.tower.IsNew slot)
    (hw : w ∈ (s.processNextVoteSlot epoch currentSlot slot).votes)
    (hroot : ∀ root ∈ newRoot, root < w.slot) :
    fillLatency currentSlot (takeLatency (s.votes.drop (s.rootedVotes newRoot).length)
      (.ofLockout w.toLockout)) = fillLatency currentSlot w := by
  rcases latency_processNextVoteSlot hnew hw with ⟨hslot, hlat⟩ | ⟨v, hv, hslot, hlat⟩
  · rw [takeLatency_of_not_mem, 
      (fillLatency_eq_self (w := w)).2 (by rw [hslot, ← hlat]; exact ne_or_eq _ _)]
    · change { w with latency := computeVoteLatency w.slot currentSlot } = w
      rw [hslot, ← hlat]
    · intro v hv heq
      have hlt := hnew v.toLockout (mem_map_of_mem (mem_of_mem_drop hv))
      have hvs : v.slot = w.slot := heq
      omega
  · have hdrop := @mem_drop_rootedVotes s newRoot v hv fun root hr => hslot ▸ hroot root hr
    have hsub : Ascending (lockouts (s.votes.drop (s.rootedVotes newRoot).length)) :=
      hasc.sublist ((drop_sublist _ _).map _)
    rw [takeLatency_of_mem (w := .ofLockout w.toLockout) hsub hdrop hslot.symm, ← hlat]
    rfl

/-- The account takes the local tower that voted for further slots, and its votes and root become
those of the tower. After one vote it is what its own vote for the slot makes of it, but for the
latencies that were unknown: those are filled in. -/
theorem towerSync_agrees (s : VoteState) (slots : List ℕ) (epoch currentSlot : ℕ)
    (h : IsTower s.tower.votes) (habove : s.tower.AboveRoot) (hne : slots ≠ [])
    (hslots : slots.Pairwise (· < ·))
    (hnew : ∀ slot ∈ slots, (∀ last ∈ s.lastVotedSlot, last < slot)
      ∧ ∀ root ∈ s.rootSlot, root < slot) :
    let t := slots.foldl TowerVoteState.processNextVoteSlot s.tower
    ∃ s', s.processNewVoteState (t.votes.map ofLockout) t.rootSlot none epoch currentSlot
        = .ok s'
      ∧ s'.tower = t
      ∧ ∀ slot, slots = [slot] →
        let own := s.processNextVoteSlot epoch currentSlot slot
        s' = { own with votes := own.votes.map (fillLatency currentSlot) }
          ∧ (s' = own ↔ ∀ v ∈ own.votes,
            v.latency ≠ 0 ∨ computeVoteLatency v.slot currentSlot = 0) := by
  intro t
  have hasc := h.ascending
  have hnew' : ∀ slot ∈ slots, s.tower.IsNew slot ∧ ∀ root ∈ s.tower.rootSlot, root < slot := by
    intro slot hslot
    exact ⟨TowerVoteState.isNew_of_lastVotedSlot hasc
      (by rw [lastVotedSlot_tower]; exact (hnew slot hslot).1), (hnew slot hslot).2⟩
  obtain ⟨hfollows, hvotes⟩ := (TowerVoteState.follows_self h habove).foldl hslots hnew' (.inr hne)
  refine ⟨_, processNewVoteState_of_follows hasc hfollows hvotes, ?_, ?_⟩
  · simp [tower, Function.comp_def, ofLockout, t]
  · rintro slot rfl own
    obtain ⟨hslot, -⟩ := hnew' slot mem_cons_self
    have hpay := @payRooted_processNextVoteSlot s epoch currentSlot _ hasc habove hslot
    have htower := tower_processNextVoteSlot s epoch currentSlot slot
    have hmap : t.votes.map (fun v => fillLatency currentSlot
          (takeLatency (s.votes.drop (s.rootedVotes t.rootSlot).length) (.ofLockout v)))
        = (s.processNextVoteSlot epoch currentSlot slot).votes.map (fillLatency currentSlot) := by
      change (s.tower.processNextVoteSlot slot).votes.map _ = _
      rw [← htower, tower, map_map]
      refine map_congr_left fun w hw => fillLatency_takeLatency hasc hslot hw fun root hr => ?_
      refine hfollows.aboveRoot root hr w.toLockout ?_
      change w.toLockout ∈ (s.tower.processNextVoteSlot slot).votes
      rw [← htower]
      exact mem_map_of_mem hw
    rw [hmap, ← map_fillLatency_eq_self]
    have hown := congrArg (fun p => ({ p with
      votes := own.votes.map (fillLatency currentSlot) } : VoteState)) hpay
    exact ⟨hown, Eq.congr hown rfl⟩

def twoVotes : VoteState := { votes := [⟨⟨5, 2⟩, 1⟩, ⟨⟨6, 1⟩, 1⟩], rootSlot := some 4 }

theorem towerSync_agrees_two :
    ∃ s', twoVotes.processNewVoteState [⟨⟨5, 3⟩, 0⟩, ⟨⟨9, 2⟩, 0⟩, ⟨⟨10, 1⟩, 0⟩] (some 4) none 0 11
        = .ok s'
      ∧ s'.tower = ⟨[⟨5, 3⟩, ⟨9, 2⟩, ⟨10, 1⟩], some 4⟩ := by
  obtain ⟨s', hs', htower, -⟩ := towerSync_agrees twoVotes [9, 10] 0 11
    ⟨by decide, .cons_cons ⟨by decide, by decide, by decide⟩ (.singleton _), by decide, by decide⟩
    (by rintro root ⟨⟩; decide) (by decide) (by decide) (by decide)
  exact ⟨s', hs', htower⟩

/-- A vote of unknown latency gets one with the tower, and none with a single vote. -/
theorem towerSync_fills_latency :
    ∃ s : VoteState, IsTower s.tower.votes ∧ s.tower.AboveRoot ∧ s.lastVotedSlot = some 5
      ∧ ∃ s', s.processNewVoteState ((s.tower.processNextVoteSlot 6).votes.map ofLockout)
          (s.tower.processNextVoteSlot 6).rootSlot none 0 7 = .ok s'
        ∧ s'.votes ≠ (s.processNextVoteSlot 0 7 6).votes := by
  refine ⟨{ votes := [⟨⟨5, 1⟩, 0⟩] }, ⟨by decide, .singleton _, by decide, by decide⟩, nofun, rfl, ?_⟩
  exact Except.exists_of_any (by decide +kernel)

end VoteState

end BlackBull
