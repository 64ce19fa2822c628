import BlackBull.Lib.Run
import BlackBull.Proofs.Lockouts
import BlackBull.Tower.VoteState

/-!
# The tower of a vote account

A proposed tower is checked as a whole against the current one: its own order
(`checkNewVotes_eq_ok`), and that every vote it leaves out has expired
(`keptOrExpired_of_mergeVotes`).
-/

namespace BlackBull

open List BlackBull.Except

/-- A vote of the old tower is in the new one with its confirmations, or the first new vote after it
is outside its lockout. -/
def KeptOrExpired (v : Lockout) (new : List Lockout) : Prop :=
  (∃ w ∈ new, w.slot = v.slot ∧ v.confirmationCount ≤ w.confirmationCount)
    ∨ ∃ w ∈ new, v.slot < w.slot ∧ (∀ w' ∈ new, v.slot < w'.slot → w.slot ≤ w'.slot)
      ∧ v.lastLockedOutSlot < w.slot

lemma KeptOrExpired.cons {v w : Lockout} {new : List Lockout} (h : KeptOrExpired v new)
    (hw : w.slot ≤ v.slot) : KeptOrExpired v (w :: new) := by
  rcases h with ⟨u, hu, hkept⟩ | ⟨u, hu, hlt, hmin, hexpired⟩
  · exact .inl ⟨u, mem_cons_of_mem _ hu, hkept⟩
  · refine .inr ⟨u, mem_cons_of_mem _ hu, hlt, fun w' hw' hlt' => ?_, hexpired⟩
    rcases mem_cons.1 hw' with rfl | hw'
    · omega
    · exact hmin w' hw' hlt'

namespace VoteState

variable {s s' : VoteState} {epoch currentSlot slot : ℕ}

abbrev lockouts (votes : List LandedVote) : List Lockout := votes.map (·.toLockout)

@[simp] lemma lockouts_ofLockout (votes : List Lockout) :
    lockouts (votes.map LandedVote.ofLockout) = votes := by
  rw [lockouts, map_map]
  exact map_id _

lemma map_popExpiredVotes (slot : ℕ) (votes : List LandedVote) :
    lockouts (popExpiredVotes (·.toLockout) slot votes) = popExpiredVotes id slot (lockouts votes) := by
  rw [popExpiredVotes, popExpiredVotes, rdropWhile, rdropWhile, lockouts, lockouts,
    map_reverse, ← map_reverse (l := votes), dropWhile_map]
  rfl

lemma map_doubleLockouts (votes : List LandedVote) :
    lockouts (doubleLockouts (·.toLockout) LandedVote.confirm votes)
      = doubleLockouts id Lockout.confirm (lockouts votes) := by
  refine ext_getElem (by simp) fun i hi hi' => ?_
  simp only [doubleLockouts, lockouts, getElem_map, getElem_mapIdx, length_map, id]
  split_ifs <;> rfl

lemma lockouts_popRooted (votes : List LandedVote) : popRooted (lockouts votes)
    = ((popRooted votes).1.map (·.toLockout), lockouts (popRooted votes).2) := by
  unfold popRooted
  rw [length_map]
  split_ifs
  · rw [head?_map, lockouts, lockouts, map_tail]
  · rfl

lemma lastVotedSlot_tower (s : VoteState) : s.tower.lastVotedSlot = s.lastVotedSlot := by
  rw [TowerVoteState.lastVotedSlot, tower, getLast?_map, Option.map_map]
  rfl

lemma tower_processNextVoteSlot (s : VoteState) (epoch currentSlot slot : ℕ) :
    (s.processNextVoteSlot epoch currentSlot slot).tower = s.tower.processNextVoteSlot slot := by
  rw [TowerVoteState.processNextVoteSlot, lastVotedSlot_tower, processNextVoteSlot]
  split_ifs
  · rfl
  · simp only [tower, ← map_popExpiredVotes, lockouts_popRooted, map_doubleLockouts, map_append]
    cases (popRooted (popExpiredVotes (·.toLockout) slot s.votes)).1 <;> rfl

section CheckNewVotes

variable {newRoot : Option ℕ}

lemma checkNewVotes_eq_ok {previous : Option LandedVote} {votes : List LandedVote} :
    checkNewVotes newRoot previous votes = .ok ()
      ↔ (lockouts (previous.toList ++ votes)).IsChain Lockout.Below
        ∧ ∀ v ∈ votes, 0 < v.confirmationCount ∧ v.confirmationCount ≤ maxLockoutHistory
          ∧ ∀ root ∈ newRoot, root < v.slot ∨ root = 0 := by
  induction votes generalizing previous with
  | nil => cases previous <;> simp [checkNewVotes]
  | cons vote votes ih =>
    have hroot : ¬ (newRoot.any fun root => vote.slot ≤ root && root ≠ 0) = true
        ↔ ∀ root ∈ newRoot, root < vote.slot ∨ root = 0 := by
      cases newRoot with
      | none => simp
      | some root => simp [or_iff_not_imp_left]
    rw [forall_mem_cons]
    cases previous with
    | none =>
      simp only [checkNewVotes, ite_error_eq_ok, hroot, ih, Nat.not_lt]
      simp only [Option.toList_none, Option.toList_some, nil_append, singleton_append]
      have hpos : ¬ vote.confirmationCount = 0 ↔ 0 < vote.confirmationCount := by omega
      rw [hpos]
      tauto
    | some previous =>
      simp only [checkNewVotes, ite_error_eq_ok, hroot, ih, Nat.not_lt, Nat.not_le]
      simp only [Option.toList_some, singleton_append, lockouts, map_cons,
        isChain_cons_cons]
      have hpos : ¬ vote.confirmationCount = 0 ↔ 0 < vote.confirmationCount := by omega
      have hbelow : previous.toLockout.Below vote.toLockout ↔ previous.slot < vote.slot
          ∧ vote.confirmationCount < previous.confirmationCount
          ∧ vote.slot ≤ previous.lastLockedOutSlot :=
        ⟨fun h => ⟨h.slot, h.confirmationCount, h.locked⟩, fun h => ⟨h.1, h.2.1, h.2.2⟩⟩
      rw [hpos, hbelow]
      tauto

end CheckNewVotes

section MergeVotes

lemma ascending_cons {v : LandedVote} {votes : List LandedVote} :
    Ascending (lockouts (v :: votes))
      ↔ (∀ w ∈ votes, v.slot < w.slot) ∧ Ascending (lockouts votes) := by
  simp [Ascending, lockouts]

lemma lt_of_ascending {v w : LandedVote} {votes : List LandedVote}
    (h : Ascending (lockouts (v :: votes))) (hw : w.slot < v.slot) :
    ∀ u ∈ v :: votes, w.slot < u.slot :=
  forall_mem_cons.2 ⟨hw, fun u hu => hw.trans ((ascending_cons.1 h).1 u hu)⟩

lemma lockouts_mergeVotes {current new merged : List LandedVote}
    (h : mergeVotes current new = .ok merged) : lockouts merged = lockouts new := by
  fun_induction mergeVotes current new generalizing merged with
  | case1 new =>
    cases h
    rfl
  | case2 =>
    cases h
    rfl
  | case3 | case5 => cases h
  | case4 v current w new hlt hexpired ih => exact ih h
  | case6 v current w new hlt heq hroll ih | case7 v current w new hlt hne ih =>
    obtain ⟨merged', hmerged', rfl⟩ := map_eq_ok.1 h
    exact congrArg (w.toLockout :: ·) (ih hmerged')

/-- Every current vote is found in the new ones, or has expired before the next of them. -/
lemma keptOrExpired_of_mergeVotes {current new merged : List LandedVote}
    (hc : Ascending (lockouts current)) (hn : Ascending (lockouts new))
    (hlast : ∀ v ∈ current, ∃ w ∈ new, v.slot < w.slot)
    (h : mergeVotes current new = .ok merged) :
    ∀ v ∈ current, KeptOrExpired v.toLockout (lockouts new) := by
  have hskip {u w : LandedVote} {new : List LandedVote} (h : ∃ x ∈ w :: new, u.slot < x.slot)
      (hle : w.slot ≤ u.slot) : ∃ x ∈ new, u.slot < x.slot := by
    obtain ⟨x, hx, hux⟩ := h
    rcases mem_cons.1 hx with rfl | hx
    · omega
    · exact ⟨x, hx, hux⟩
  fun_induction mergeVotes current new generalizing merged with
  | case1 new => exact nofun
  | case2 v current =>
    obtain ⟨w, hw, -⟩ := hlast v mem_cons_self
    cases hw
  | case3 | case5 => cases h
  | case4 v current w new hlt hexpired ih =>
    -- the first new vote is after the current one, which has expired
    obtain ⟨-, hc⟩ := ascending_cons.1 hc
    have hkept := ih hc hn (fun u hu => hlast u (mem_cons_of_mem _ hu)) h
    refine forall_mem_cons.2 ⟨.inr ⟨w.toLockout, ?_, hlt, ?_, ?_⟩, hkept⟩
    · exact mem_map_of_mem mem_cons_self
    · intro w' hw' _
      obtain ⟨u, hu, rfl⟩ := mem_map.1 hw'
      rcases mem_cons.1 hu with rfl | hu
      · exact le_rfl
      · exact ((ascending_cons.1 hn).1 u hu).le
    · exact Nat.not_le.1 hexpired
  | case6 v current w new hlt heq hroll ih =>
    obtain ⟨merged', hmerged', rfl⟩ := map_eq_ok.1 h
    obtain ⟨hvlt, hc⟩ := ascending_cons.1 hc
    obtain ⟨hwlt, hn⟩ := ascending_cons.1 hn
    have hle : ∀ u ∈ current, w.slot ≤ u.slot := fun u hu => heq ▸ (hvlt u hu).le
    refine forall_mem_cons.2 ⟨.inl ?_, fun u hu => ?_⟩
    · exact ⟨w.toLockout, mem_map_of_mem mem_cons_self, heq.symm, Nat.not_lt.1 hroll⟩
    · exact (ih hc hn (fun x hx => hskip (hlast x (mem_cons_of_mem _ hx)) (hle x hx)) hmerged' u
        hu).cons (hle u hu)
  | case7 v current w new hlt hne ih =>
    -- the new vote is before all current ones
    obtain ⟨merged', hmerged', rfl⟩ := map_eq_ok.1 h
    obtain ⟨hwlt, hn⟩ := ascending_cons.1 hn
    have hw := lt_of_ascending hc (show w.slot < v.slot by omega)
    intro u hu
    exact (ih hc hn (fun x hx => hskip (hlast x hx) (hw x hx).le) hmerged' u hu).cons (hw u hu).le

end MergeVotes

section CheckProposed

lemma checkProposed_toFilter {earliest index : ℕ} {rootToCheck previous : Option ℕ}
    {passed passed' : Option SlotHash} {toFilter toFilter' : List ℕ}
    {full proposed left : List Lockout} {slotHashes : List SlotHash}
    (hfull : full.drop index = proposed)
    (hf : ∀ i ∈ toFilter, ∃ v, full[i]? = some v ∧ v.slot < earliest)
    (h : s.checkProposed earliest rootToCheck index previous passed toFilter proposed slotHashes
      = .ok (toFilter', left, passed')) :
    ∀ i ∈ toFilter', ∃ v, full[i]? = some v ∧ v.slot < earliest := by
  fun_induction checkProposed s earliest rootToCheck index previous passed toFilter proposed
    slotHashes
  case case1 | case2 =>
    cases h
    exact hf
  case case3 | case4 | case7 | case8 => cases h
  case case5 ih | case9 ih | case10 ih => exact ih hfull hf h
  case case6 index _ _ toFilter vote proposed' _ _ _ _ _ _ hearly filtered ih =>
    refine ih (by rw [← tail_drop, hfull, tail_cons]) ?_ h
    simp only [filtered]
    split_ifs with hcontains
    · exact hf
    · have hget := congrArg (·[0]?) hfull
      simp only [getElem?_drop, Nat.add_zero, getElem?_cons_zero] at hget
      exact forall_mem_append.2 ⟨hf, forall_mem_singleton.2 ⟨vote, hget, Nat.not_le.1 hearly⟩⟩
  case case11 ih => exact ih (by rw [← tail_drop, hfull, tail_cons]) hf h

lemma getLast?_retainUnfiltered {index : ℕ} {toFilter : List ℕ} {votes : List Lockout}
    (h : ∀ i ∈ toFilter, i + 1 ≠ index + votes.length) :
    (retainUnfiltered index toFilter votes).getLast? = votes.getLast? := by
  induction votes generalizing index toFilter with
  | nil => cases toFilter <;> rfl
  | cons vote votes ih =>
    rw [length_cons] at h
    cases toFilter with
    | nil => rw [retainUnfiltered, getLast?_cons, getLast?_cons,
        ih (forall_mem_nil _)]
    | cons i toFilter =>
      rw [retainUnfiltered]
      split_ifs with heq
      · obtain ⟨hi, htail⟩ := forall_mem_cons.1 h
        rw [ih fun j hj => by have := htail j hj; omega]
        cases votes with
        | nil =>
          rw [length_nil] at hi
          omega
        | cons w votes => rw [getLast?_cons, getLast?_cons, getLast?_cons,
            Option.getD_some]
      · rw [getLast?_cons, getLast?_cons, ih fun j hj => by have := h j hj; omega]

/-- What passes the check ends with the last proposed vote, which is newer than the current ones. -/
lemma checkAndFilterProposedVoteState_ok {proposed proposed' : List Lockout} {root root' : Option ℕ}
    {hash : Hash} {slotHashes : List SlotHash}
    (h : s.checkAndFilterProposedVoteState proposed root hash slotHashes = .ok (proposed', root')) :
    ∃ last, proposed'.getLast? = some last ∧ ∀ slot, s.lastVotedSlot = some slot → slot < last.slot := by
  unfold checkAndFilterProposedVoteState at h
  split at h
  · cases h
  · rename_i last hlast
    rw [ite_error_eq_ok] at h
    obtain ⟨hnew, h⟩ := h
    split at h
    · cases h
    · rename_i earliest _ _
      simp only [ite_error_eq_ok, bind_eq_ok, Prod.exists] at h
      obtain ⟨hearliest, toFilter, left, passed, hcheck, hleft, h⟩ := h
      split at h
      · cases h
      · simp only [ite_error_eq_ok] at h
        obtain ⟨-, -, h⟩ := h
        cases h
        have hfilter := checkProposed_toFilter (drop_zero (l := proposed))
          (forall_mem_nil _) hcheck
        refine ⟨last, ?_, fun slot hslot => ?_⟩
        · rw [getLast?_retainUnfiltered, hlast]
          intro i hi heq
          obtain ⟨v, hv, hold⟩ := hfilter i hi
          rw [getLast?_eq_getElem?] at hlast
          obtain rfl : v = last := by
            rw [show proposed.length - 1 = i by omega] at hlast
            exact Option.some.inj (hv.symm.trans hlast)
          omega
        · rw [hslot] at hnew
          simpa using hnew

end CheckProposed

section Process

variable {new : List LandedVote} {newRoot : Option ℕ} {timestamp : Option ℤ}

lemma processNewVoteState_ok
    (h : s.processNewVoteState new newRoot timestamp epoch currentSlot = .ok s') :
    new ≠ [] ∧ new.length ≤ maxLockoutHistory
      ∧ (∀ root ∈ s.rootSlot, ∃ root' ∈ newRoot, root ≤ root')
      ∧ checkNewVotes newRoot none new = .ok ()
      ∧ ∃ merged, mergeVotes (s.votes.drop (s.rootedVotes newRoot).length) new = .ok merged
        ∧ s'.votes = merged.map (fillLatency currentSlot) ∧ s'.rootSlot = newRoot := by
  unfold processNewVoteState at h
  split at h
  · cases h
  · rename_i last hlast
    simp only [ite_error_eq_ok, bind_eq_ok] at h
    obtain ⟨hlen, hroot, ⟨⟩, hcheck, merged, hmerged, stamped, -, h⟩ := h
    cases h
    refine ⟨?_, Nat.not_lt.1 hlen, fun root hr => ?_, hcheck, merged, hmerged, rfl, rfl⟩
    · rintro rfl
      cases hlast
    · rw [Option.mem_def] at hr
      rw [hr] at hroot
      cases newRoot with
      | none => simp at hroot
      | some root' => exact ⟨root', rfl, by simpa using hroot⟩

@[simp] lemma toLockout_fillLatency (currentSlot : ℕ) (v : LandedVote) :
    (fillLatency currentSlot v).toLockout = v.toLockout := by
  unfold fillLatency
  split_ifs <;> rfl

lemma lockouts_fillLatency (currentSlot : ℕ) (votes : List LandedVote) :
    lockouts (votes.map (fillLatency currentSlot)) = lockouts votes := by
  simp [lockouts]

lemma drop_rootedVotes (s : VoteState) (root : ℕ) :
    s.votes.drop (s.rootedVotes (some root)).length = s.votes.dropWhile (·.slot ≤ root) := by
  rw [rootedVotes]
  nth_rewrite 2 [← takeWhile_append_dropWhile (p := fun v => v.slot ≤ root) (l := s.votes)]
  rw [drop_left]

lemma mem_drop_rootedVotes {v : LandedVote} (hv : v ∈ s.votes)
    (hroot : ∀ root ∈ newRoot, root < v.slot) :
    v ∈ s.votes.drop (s.rootedVotes newRoot).length := by
  cases newRoot with
  | none => exact hv
  | some root =>
    rw [← takeWhile_append_dropWhile (p := fun v => v.slot ≤ root) (l := s.votes),
      mem_append] at hv
    rw [drop_rootedVotes]
    refine hv.resolve_left fun htake => ?_
    have hle : v.slot ≤ root := by simpa using mem_takeWhile_imp htake
    have hlt := hroot root rfl
    omega

lemma valid_processNewVoteState
    (h : s.processNewVoteState new newRoot timestamp epoch currentSlot = .ok s') :
    s'.tower.votes = lockouts new ∧ s'.tower.Valid := by
  obtain ⟨hne, hlen, -, hcheck, merged, hmerged, hvotes, hroot⟩ := processNewVoteState_ok h
  obtain ⟨hchain, hgood⟩ := checkNewVotes_eq_ok.1 hcheck
  have hlockouts : s'.tower.votes = lockouts new := by
    show lockouts s'.votes = lockouts new
    rw [hvotes, lockouts_fillLatency, lockouts_mergeVotes hmerged]
  refine ⟨hlockouts, ?_, ?_, ?_⟩
  · rw [hlockouts]
    exact fun hnil => hne (map_eq_nil_iff.1 hnil)
  · rw [hlockouts]
    refine ⟨by rwa [length_map], hchain, fun v hv => ?_, fun v hv => ?_⟩ <;>
      obtain ⟨w, hw, rfl⟩ := mem_map.1 hv
    · exact (hgood w hw).1
    · exact (hgood w hw).2.1
  · rw [hlockouts]
    intro root hr
    have hr' : root ∈ newRoot := hroot ▸ hr
    by_cases hzero : root = 0
    · exact .inl hzero
    · refine .inr fun v hv => ?_
      obtain ⟨w, hw, rfl⟩ := mem_map.1 hv
      exact ((hgood w hw).2.2 root hr').resolve_right hzero

lemma freshOrValid_processVotes (h : s.tower.FreshOrValid) (epoch currentSlot : ℕ) (slots : List ℕ) :
    (slots.foldl (fun s slot => s.processNextVoteSlot epoch currentSlot slot) s).tower.FreshOrValid := by
  induction slots generalizing s with
  | nil => exact h
  | cons slot slots ih =>
    refine ih ?_
    rw [tower_processNextVoteSlot]
    exact h.processNextVoteSlot slot

lemma freshOrValid_commit (h : s.tower.FreshOrValid) (p : VoteClock × VoteInstruction) :
    (s.commit p).tower.FreshOrValid := by
  obtain ⟨clock, instruction⟩ := p
  rw [commit]
  rcases hs : s.execute clock instruction with e | s'
  · exact h
  · cases instruction with
    | vote slots hash =>
      simp only [execute, processVote, ite_error_eq_ok, bind_eq_ok] at hs
      obtain ⟨-, -, -, -, hs⟩ := hs
      cases hs
      exact freshOrValid_processVotes h _ _ _
    | towerSync lockouts root hash timestamp =>
      obtain ⟨r, -, hs⟩ := bind_eq_ok.1 hs
      exact .inr (valid_processNewVoteState hs).2

/-- A tower that is taken after the check is valid, is newer than the old one, does not move the root
back and drops no vote within its lockout, where the old votes ascend. A vote account has a valid
tower after any instructions, or has never voted. -/
theorem towerSync_no_rollback :
    (∀ (s s' : VoteState) (proposed filtered : List Lockout) (root newRoot : Option ℕ) (hash : Hash)
      (slotHashes : List SlotHash) (new : List LandedVote) (timestamp : Option ℤ)
      (epoch currentSlot : ℕ), Ascending s.tower.votes →
      s.checkAndFilterProposedVoteState proposed root hash slotHashes = .ok (filtered, newRoot) →
      lockouts new = filtered →
      s.processNewVoteState new newRoot timestamp epoch currentSlot = .ok s' →
      s'.tower.Valid
        ∧ (∃ last, s'.lastVotedSlot = some last ∧ ∀ v ∈ s.votes, v.slot < last)
        ∧ (∀ root ∈ s.rootSlot, ∃ root' ∈ s'.rootSlot, root ≤ root')
        ∧ ∀ v ∈ s.tower.votes, (∀ root ∈ s'.rootSlot, root < v.slot) →
          KeptOrExpired v s'.tower.votes)
    ∧ ∀ (s : VoteState) (instructions : List (VoteClock × VoteInstruction)),
      s.tower.FreshOrValid → (instructions.foldl commit s).tower.FreshOrValid := by
  refine ⟨fun s s' proposed filtered root newRoot hash slotHashes new timestamp epoch currentSlot
    hasc hcheck hnew h => ?_, fun s instructions h => ?_⟩
  · obtain ⟨hlockouts, hvalid⟩ := valid_processNewVoteState h
    obtain ⟨-, -, hroot, -, merged, hmerged, -, hroot'⟩ := processNewVoteState_ok h
    obtain ⟨last, hlast, hnewer⟩ := checkAndFilterProposedVoteState_ok hcheck
    have hisNew : s.tower.IsNew last.slot :=
      TowerVoteState.isNew_of_lastVotedSlot hasc (by rw [lastVotedSlot_tower]; exact hnewer)
    have hlt : ∀ v ∈ s.votes, v.slot < last.slot := fun v hv =>
      hisNew v.toLockout (mem_map_of_mem hv)
    refine ⟨hvalid, ⟨last.slot, ?_, hlt⟩, hroot'.symm ▸ hroot, ?_⟩
    · rw [← lastVotedSlot_tower, TowerVoteState.lastVotedSlot, hlockouts, hnew, hlast]
      rfl
    · intro v hv hvroot
      obtain ⟨v, hmem, rfl⟩ := mem_map.1 hv
      have hasc' : Ascending (lockouts (s.votes.drop (s.rootedVotes newRoot).length)) :=
        hasc.sublist ((drop_sublist _ _).map _)
      have hlast' : ∀ v ∈ s.votes.drop (s.rootedVotes newRoot).length, ∃ w ∈ new, v.slot < w.slot := by
        intro v hv
        have hin : last ∈ lockouts new := hnew ▸ mem_of_getLast? hlast
        obtain ⟨w, hw, rfl⟩ := mem_map.1 hin
        exact ⟨w, hw, hlt v (mem_of_mem_drop hv)⟩
      rw [hlockouts]
      refine keptOrExpired_of_mergeVotes hasc' ?_ hlast' hmerged v ?_
      · rw [← hlockouts]
        exact hvalid.isTower.ascending
      · exact mem_drop_rootedVotes hmem (hroot' ▸ hvroot)
  · induction instructions generalizing s with
    | nil => exact h
    | cons p instructions ih => exact ih _ (freshOrValid_commit h p)

def oneVote : VoteState := { votes := [⟨⟨5, 1⟩, 1⟩] }

theorem towerSync_no_rollback_two :
    ∃ s', oneVote.doProcessTowerSync ⟨[(6, 1), (5, 0)], 0, 7⟩ [⟨5, 2⟩, ⟨6, 1⟩] none 1 none = .ok s'
      ∧ s'.tower.Valid ∧ KeptOrExpired ⟨5, 1⟩ s'.tower.votes
      ∧ (s'.commit (⟨[(7, 2)], 0, 8⟩, .vote [7] 2)).tower.FreshOrValid := by
  obtain ⟨s', hsync, hroot⟩ := Except.exists_of_any (p := fun s' => s'.rootSlot = none)
    (x := oneVote.doProcessTowerSync ⟨[(6, 1), (5, 0)], 0, 7⟩ [⟨5, 2⟩, ⟨6, 1⟩] none 1 none)
    (by decide +kernel)
  obtain ⟨⟨filtered, root⟩, hcheck, hs'⟩ := bind_eq_ok.1 hsync
  have hkept := towerSync_no_rollback.1 oneVote s' _ _ _ _ _ _ _ _ _ _ (by decide) hcheck
    (lockouts_ofLockout _) hs'
  refine ⟨s', hsync, hkept.1, hkept.2.2.2 ⟨5, 1⟩ (by decide) ?_, ?_⟩
  · rw [hroot]
    nofun
  · exact towerSync_no_rollback.2 s' [_] (.inr hkept.1)

/-- The votes of the old state do not ascend: the last of them is not the greatest. -/
theorem unsorted_rolled_back :
    ∃ s : VoteState, ∃ s', s.doProcessTowerSync ⟨[(5, 1)], 0, 8⟩ [⟨5, 1⟩] none 1 none = .ok s'
      ∧ s'.lastVotedSlot = some 5 ∧ ∃ v ∈ s.votes, 5 < v.slot := by
  obtain ⟨s', hs', hlast⟩ := Except.exists_of_any (p := fun s' => s'.lastVotedSlot = some 5)
    (x := VoteState.doProcessTowerSync { votes := [⟨⟨7, 1⟩, 1⟩, ⟨⟨3, 1⟩, 1⟩] } ⟨[(5, 1)], 0, 8⟩
      [⟨5, 1⟩] none 1 none) (by decide +kernel)
  exact ⟨_, s', hs', hlast, ⟨⟨7, 1⟩, 1⟩, by decide, by decide⟩

/-- The checks of `process_new_vote_state`, all made before it changes the state. -/
structure PassesChecks (s : VoteState) (new : List LandedVote) (newRoot : Option ℕ) : Prop where
  ne_nil : new ≠ []
  length_le : new.length ≤ maxLockoutHistory
  root_kept : ¬ s.rootSlot.any fun root => newRoot.all (· < root)
  checked : checkNewVotes newRoot none new = .ok ()
  merges : ∃ merged, mergeVotes (s.votes.drop (s.rootedVotes newRoot).length) new = .ok merged

/-- What `process_timestamp` refuses for a vote on `slot`. -/
def TimestampTooOld (s : VoteState) (slot : ℕ) (timestamp : Option ℤ) : Prop :=
  ∃ t ∈ timestamp, (slot < s.lastTimestamp.1 ∨ t < s.lastTimestamp.2)
    ∨ slot = s.lastTimestamp.1 ∧ (slot, t) ≠ s.lastTimestamp ∧ s.lastTimestamp.1 ≠ 0

def earnedCredits (s : VoteState) (newRoot : Option ℕ) : ℕ :=
  ((List.range (s.rootedVotes newRoot).length).map s.creditsForVoteAtIndex).sum

def payRooted (s : VoteState) (newRoot : Option ℕ) (epoch : ℕ) : VoteState :=
  if s.rootSlot ≠ newRoot then s.incrementCredits epoch (s.earnedCredits newRoot) else s

lemma stamp_spec : Meets (s.stamp slot timestamp) (fun _ => ¬ s.TimestampTooOld slot timestamp)
    fun _ => s.TimestampTooOld slot timestamp := by
  cases timestamp with
  | none => simp [stamp, Meets, TimestampTooOld]
  | some t =>
    rw [stamp, processTimestamp]
    split_ifs with hold
    · exact ⟨t, rfl, hold⟩
    · simpa [Meets, TimestampTooOld] using hold

lemma timestampTooOld_payRooted : (s.payRooted newRoot epoch).TimestampTooOld slot timestamp
    ↔ s.TimestampTooOld slot timestamp := by
  unfold payRooted
  split_ifs <;> rfl

/-- An error of the checks leaves the state, one of the timestamp leaves the credits paid. -/
lemma processNewVoteStateInPlace_spec :
    match processNewVoteStateInPlace new newRoot timestamp epoch currentSlot s with
    | .ok _ s' => s.processNewVoteState new newRoot timestamp epoch currentSlot = .ok s'
        ∧ ∀ last ∈ new.getLast?, ¬ s.TimestampTooOld last.slot timestamp
    | .error e s' => s.processNewVoteState new newRoot timestamp epoch currentSlot = .error e
        ∧ (s' = s ∧ ¬ s.PassesChecks new newRoot
          ∨ s' = s.payRooted newRoot epoch ∧ s.PassesChecks new newRoot
            ∧ ∃ last ∈ new.getLast?, s.TimestampTooOld last.slot timestamp) := by
  unfold processNewVoteStateInPlace processNewVoteState
  cases hlast : new.getLast? with
  | none => exact ⟨rfl, .inl ⟨rfl, fun h => h.ne_nil (getLast?_eq_none_iff.1 hlast)⟩⟩
  | some last =>
    simp only [bind, EStateM.bind, MonadState.get, getThe, MonadStateOf.get, EStateM.get]
    by_cases hlen : maxLockoutHistory < new.length
    · rw [if_pos hlen, if_pos hlen]
      exact ⟨rfl, .inl ⟨rfl, fun h => absurd hlen (Nat.not_lt.2 h.length_le)⟩⟩
    rw [if_neg hlen, if_neg hlen]
    by_cases hroot : s.rootSlot.any (fun root => newRoot.all (· < root))
    · rw [if_pos hroot, if_pos hroot]
      exact ⟨rfl, .inl ⟨rfl, fun h => h.root_kept hroot⟩⟩
    rw [if_neg hroot, if_neg hroot]
    cases hcheck : checkNewVotes newRoot none new with
    | error e => exact ⟨rfl, .inl ⟨rfl, fun h => nomatch hcheck.symm.trans h.checked⟩⟩
    | ok _ =>
      cases hmerge : mergeVotes (s.votes.drop (s.rootedVotes newRoot).length) new with
      | error e =>
        refine ⟨rfl, .inl ⟨rfl, fun h => ?_⟩⟩
        obtain ⟨merged, hmerged⟩ := h.merges
        cases hmerge.symm.trans hmerged
      | ok merged =>
        have hpasses : s.PassesChecks new newRoot :=
          ⟨fun h => by simp [h] at hlast, Nat.not_lt.1 hlen, hroot, hcheck, merged, hmerge⟩
        simp only [ofExcept, pure, EStateM.pure, EStateM.bind, EStateM.get, MonadStateOf.set,
          EStateM.set, Except.bind]
        rw [← earnedCredits, ← payRooted]
        have hstamp := @stamp_spec (s.payRooted newRoot epoch) last.slot timestamp
        simp only [timestampTooOld_payRooted] at hstamp
        rcases hs : (s.payRooted newRoot epoch).stamp last.slot timestamp with e | stamped <;>
          rw [hs] at hstamp
        · exact ⟨rfl, .inr ⟨rfl, hpasses, last, rfl, hstamp⟩⟩
        · refine ⟨rfl, fun last' hlast' => ?_⟩
          cases hlast'
          exact hstamp

lemma openEpoch_eq_concat (epoch : ℕ) (epochCredits : List EpochCredits) :
    ∃ l last, openEpoch epoch epochCredits = l ++ [last] ∧ last.epoch = epoch := by
  unfold openEpoch
  split
  · exact ⟨[], _, rfl, rfl⟩
  rename_i last hlast
  dsimp only
  split_ifs with hepoch hearned _ hlong
  · obtain ⟨l, hl⟩ := getLast?_eq_some_iff.1 hlast
    exact ⟨l, last, hl, hepoch.symm⟩
  · refine ⟨epochCredits.tail, _, tail_append_of_ne_nil ?_, rfl⟩
    rintro rfl
    cases hlast
  · exact ⟨epochCredits, _, rfl, rfl⟩
  · refine ⟨epochCredits.dropLast.tail, _, tail_append_of_ne_nil ?_, rfl⟩
    intro hnil
    simp [hnil, maxEpochCreditsHistory] at hlong
  · exact ⟨epochCredits.dropLast, _, rfl, rfl⟩

lemma openEpoch_of_mem {last : EpochCredits} {epochCredits : List EpochCredits}
    (h : last ∈ epochCredits.getLast?) : openEpoch last.epoch epochCredits = epochCredits := by
  rw [Option.mem_def] at h
  simp [openEpoch, h]

lemma incrementCredits_eq_self {credits : ℕ} : s.incrementCredits epoch credits = s
    ↔ ∃ last ∈ s.epochCredits.getLast?, last.epoch = epoch
      ∧ saturatingAdd last.credits credits = last.credits := by
  constructor
  · intro heq
    obtain ⟨l, last, hopen, hepoch⟩ := openEpoch_eq_concat epoch s.epochCredits
    have hcredits := congrArg VoteState.epochCredits heq
    rw [incrementCredits, hopen, modifyLast_concat] at hcredits
    have hmem := getLast?_eq_some_iff.2 ⟨l, hcredits.symm⟩
    have hlast : { last with credits := saturatingAdd last.credits credits } = last := by
      have hsame := openEpoch_of_mem hmem
      rw [hepoch, hopen, ← hcredits] at hsame
      simpa using hsame.symm
    rw [hlast] at hmem
    exact ⟨last, hmem, hepoch, congrArg EpochCredits.credits hlast⟩
  · rintro ⟨last, hlast, rfl, hadd⟩
    obtain ⟨l, hl⟩ := getLast?_eq_some_iff.1 hlast
    rw [incrementCredits, openEpoch_of_mem hlast, hl, modifyLast_concat, hadd]
    show { s with epochCredits := l ++ [last] } = s
    rw [← hl]

/-- An error leaves the state as it was, just if the root stays, a check fails before, the timestamp
is not too old, or paying the credits of the rooted votes changes nothing: there is an entry of the
epoch, and its credits stay what they are. -/
theorem processNewVoteState_error_unchanged :
    (∀ e s', processNewVoteStateInPlace new newRoot timestamp epoch currentSlot s = .error e s' →
      s' = s)
    ↔ s.rootSlot = newRoot ∨ ¬ s.PassesChecks new newRoot
      ∨ (∀ last ∈ new.getLast?, ¬ s.TimestampTooOld last.slot timestamp)
      ∨ ∃ last ∈ s.epochCredits.getLast?, last.epoch = epoch
        ∧ saturatingAdd last.credits (s.earnedCredits newRoot) = last.credits := by
  have hspec := @processNewVoteStateInPlace_spec s epoch currentSlot new newRoot timestamp
  rw [← incrementCredits_eq_self]
  cases hr : processNewVoteStateInPlace new newRoot timestamp epoch currentSlot s with
  | ok _ s' =>
    rw [hr] at hspec
    exact iff_of_true (by simp) (.inr (.inr (.inl hspec.2)))
  | error e s' =>
    rw [hr] at hspec
    obtain ⟨-, ⟨rfl, hnot⟩ | ⟨rfl, hpasses, last, hlast, hold⟩⟩ := hspec
    · refine iff_of_true (fun _ _ h => ?_) (.inr (.inl hnot))
      cases h
      rfl
    · simp only [EStateM.Result.error.injEq, and_imp, forall_eq', forall_apply_eq_imp_iff]
      rw [payRooted]
      by_cases hroot : s.rootSlot = newRoot
      · simp [hroot]
      · rw [if_pos hroot]
        refine ⟨fun heq => .inr (.inr (.inr heq)), ?_⟩
        rintro (heq | hnot | hnot | heq)
        · exact absurd heq hroot
        · exact absurd hpasses hnot
        · exact absurd hold (hnot last hlast)
        · exact heq

/-- The root moves and the timestamp is too old, but the vote that is rooted is not there. -/
theorem processNewVoteState_error_unchanged_rooted :
    let s : VoteState := ⟨[⟨⟨5, 1⟩, 1⟩], some 2, [⟨0, 16, 0⟩], (5, 9)⟩
    ∃ s', processNewVoteStateInPlace [⟨⟨5, 2⟩, 0⟩, ⟨⟨6, 1⟩, 0⟩] (some 4) (some 8) 0 7 s
        = .error (.error .timestampTooOld) s' ∧ s' = s := by
  intro s
  obtain ⟨s', h⟩ : ∃ s', processNewVoteStateInPlace [⟨⟨5, 2⟩, 0⟩, ⟨⟨6, 1⟩, 0⟩] (some 4) (some 8) 0 7 s
      = .error (.error .timestampTooOld) s' := ⟨_, by with_unfolding_all rfl⟩
  refine ⟨s', h, processNewVoteState_error_unchanged.2 (.inr (.inr (.inr ?_))) _ _ h⟩
  exact ⟨⟨0, 16, 0⟩, rfl, rfl, rfl⟩

/-- A vote that roots slot 5 with a timestamp that is too old is refused, and the credits of slot 5
stay. -/
theorem processNewVoteState_error_keeps_credits :
    processNewVoteStateInPlace [⟨⟨6, 1⟩, 0⟩] (some 5) (some 8) 0 7
        { oneVote with lastTimestamp := (5, 9) }
      = .error (.error .timestampTooOld)
        { oneVote with epochCredits := [⟨0, 16, 0⟩], lastTimestamp := (5, 9) } := by
  with_unfolding_all rfl

end Process

end VoteState

end BlackBull
