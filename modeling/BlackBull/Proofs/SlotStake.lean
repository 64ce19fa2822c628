import BlackBull.Proofs.Ballots

/-!
# The slot stake counters count the ballots

The counters are overwritten one vote at a time, yet they say of the ballots what they are for
(`Counts.addVote`): the totals, the node's first vote, and which fallback votes have become safe.
-/

namespace BlackBull

open List Vote

variable {stakes : ℕ → EpochStakes} {l l' : List VoteMessage} {m : VoteMessage} {slot : ℕ}
  {me : Pubkey} {b : Hash} {c : SlotStakeCounters}

lemma ofType_snoc {ty : VoteType} : ofType slot ty (l ++ [m])
    = ofType slot ty l ++ if m.vote.slot = slot ∧ m.vote.getType = ty then [m] else [] := by
  rw [ofType_append, ofType_singleton]

lemma notarizeVotes_snoc : notarizeVotes slot b (l ++ [m])
    = notarizeVotes slot b l ++ if m.vote = .notarize slot b then [m] else [] := by
  unfold notarizeVotes
  rw [ofType_snoc]
  rcases m with ⟨⟨s, b'⟩ | s | s | ⟨s, b'⟩ | s | ⟨s, b'⟩, r⟩ <;>
    simp [Vote.slot, Vote.getType, counted, VoteType.byBlock]
  split_ifs with h <;> simp_all [Vote.blockId]

lemma firstVote_snoc : firstVote stakes me slot (l ++ [m]) = (firstVote stakes me slot l).or
    (if m.key stakes = me ∧ m.vote.slot = slot ∧ m.vote.IsFirst then some m.vote else none) := by
  unfold firstVote
  rw [find?_append]
  cases l.find? _ with
  | some m' => rfl
  | none =>
    simp only [find?_singleton, decide_eq_true_eq]
    split_ifs <;> rfl

lemma firstVote_spec {v : Vote} (h : firstVote stakes me slot l = some v) :
    v.slot = slot ∧ v.IsFirst ∧ ∃ m ∈ l, m.key stakes = me ∧ m.vote = v := by
  obtain ⟨m, hm, rfl⟩ := Option.map_eq_some_iff.1 h
  have hp := find?_some hm
  rw [decide_eq_true_eq] at hp
  exact ⟨hp.2.1, hp.2.2, m, mem_of_find?_eq_some hm, hp.1, rfl⟩

lemma SafeStake.mono {total skip skip' stake stake' : ℕ} (h : SafeStake total skip stake)
    (hskip : skip ≤ skip') (hstake : stake ≤ stake') : SafeStake total skip' stake' := by
  unfold SafeStake at h ⊢
  omega

lemma SafeToNotar.snoc (h : SafeToNotar stakes me slot b l) :
    SafeToNotar stakes me slot b (l ++ [m]) := by
  obtain ⟨⟨v, hv, hne⟩, hvotes, hsafe⟩ := h
  refine ⟨⟨v, ?_, hne⟩, ?_, hsafe.mono ?_ ?_⟩
  · rw [firstVote_snoc, hv]
    rfl
  · rw [notarizeVotes_snoc]
    simp [hvotes]
  · rw [ofType_snoc, stakeOf_append]
    omega
  · rw [notarizeVotes_snoc, stakeOf_append]
    omega

lemma SafeToSkip.snoc (h : SafeToSkip stakes me slot l) : SafeToSkip stakes me slot (l ++ [m]) := by
  obtain ⟨⟨b, hb⟩, hsafe⟩ := h
  refine ⟨⟨b, ?_⟩, fun b' => ?_⟩
  · rw [firstVote_snoc, hb]
    rfl
  · -- a vote for the block counts on both sides
    have := hsafe b'
    rw [ofType_snoc, ofType_snoc, notarizeVotes_snoc]
    by_cases hv : m.vote = .notarize slot b'
    · simp only [hv, Vote.slot, Vote.getType, and_self, stakeOf_append]
      omega
    · simp only [if_neg hv, stakeOf_append, stakeOf_nil]
      omega

lemma Ballots.count_key_le {ty : VoteType} (h : Ballots stakes l) (hty : ty.byBlock = true)
    (key : Pubkey) : ((ofType slot ty l).map (·.key stakes)).count key ≤ ty.maxEntries := by
  rw [count, countP_map, countP_eq_length_filter]
  exact h.maxEntries slot ty key hty

lemma Ballots.nodup_ofType {ty : VoteType} (h : Ballots stakes l) (hty : ty.maxEntries = 1) :
    ((ofType slot ty l).map (·.key stakes)).Nodup := by
  rcases hb : ty.byBlock with _ | _
  · have : ((counted ty none (ofType slot ty l)).map (·.key stakes)).Nodup := h.nodup_counted
    simpa only [counted, hb, Bool.false_eq_true, if_false] using this
  · rw [nodup_iff_count_le_one, ← hty]
    exact h.count_key_le hb

lemma Ballots.notarize_add_skip_le (h : Ballots stakes l) :
    stakeOf stakes (ofType slot .notarize l) + stakeOf stakes (ofType slot .skip l)
      ≤ (stakes slot).totalStake := by
  rw [← stakeOf_append]
  refine stakeOf_le_totalStake (fun m hm => ?_) (fun m hm => ?_) ?_
  · rcases mem_append.1 hm with hm | hm <;> exact (mem_ofType.1 hm).2.1
  · rcases mem_append.1 hm with hm | hm <;> exact h.entry m (mem_ofType.1 hm).1
  · rw [map_append]
    refine (h.nodup_ofType rfl).append (h.nodup_ofType rfl) ?_
    intro key hn hs
    obtain ⟨m1, hm1, rfl⟩ := mem_map.1 hn
    obtain ⟨m2, hm2, hkey⟩ := mem_map.1 hs
    obtain ⟨hl1, hs1, ht1⟩ := mem_ofType.1 hm1
    obtain ⟨hl2, hs2, ht2⟩ := mem_ofType.1 hm2
    have hne : m1 ≠ m2 := by
      rintro rfl
      rw [ht1] at ht2
      cases ht2
    rcases h.compatible hl1 hl2 hne (hs1.trans hs2.symm) hkey.symm with hc | hc
    · refine hc ⟨?_, ?_⟩
      · rw [ht1, ht2]
        decide
      · rw [ht2]
        exact nofun
    · refine hc ⟨?_, fun _ => .inl ?_⟩
      · rw [ht1, ht2]
        decide
      · rcases m2 with ⟨⟨_, _⟩ | _ | _ | ⟨_, _⟩ | _ | ⟨_, _⟩, _⟩ <;> first | rfl | cases ht2

lemma stakeOf_counted_sum_le {ty : VoteType} (hty : ty.byBlock = true) {bs : List Hash}
    (hnd : bs.Nodup) : (bs.map fun b => stakeOf stakes (counted ty (some b) (ofType slot ty l))).sum
      ≤ stakeOf stakes (ofType slot ty l) := by
  have hnd' : (bs.map some).Nodup := hnd.map (Option.some_injective _)
  have := sum_classes_le (·.vote.blockId) (·.stake stakes) hnd' (ofType slot ty l)
  rw [map_map] at this
  simp only [counted, hty]
  exact this

lemma stakeOf_notarizeVotes_sum_le {bs : List Hash} (hnd : bs.Nodup) :
    (bs.map fun b => stakeOf stakes (notarizeVotes slot b l)).sum
      ≤ stakeOf stakes (ofType slot .notarize l) :=
  stakeOf_counted_sum_le rfl hnd

lemma Ballots.stakeOf_ofType_le {ty : VoteType} (h : Ballots stakes l) (hty : ty.byBlock = true) :
    stakeOf stakes (ofType slot ty l) ≤ ty.maxEntries * (stakes slot).totalStake := by
  exact stakeOf_le_mul (fun m hm => (mem_ofType.1 hm).2.1)
    (fun m hm => h.entry m (mem_ofType.1 hm).1) (h.count_key_le hty)

lemma stakeOf_notarizeVotes_le :
    stakeOf stakes (notarizeVotes slot b l) ≤ stakeOf stakes (ofType slot .notarize l) := by
  simpa using @stakeOf_notarizeVotes_sum_le stakes l slot _ (nodup_singleton b)

lemma safeStake_le_three {total skip : ℕ} {f : Hash → ℕ} {bs : List Hash}
    (hsafe : ∀ b ∈ bs, SafeStake total skip (f b)) (hsum : (bs.map f).sum + skip ≤ total)
    (hpos : 0 < total) : bs.length ≤ 3 := by
  rcases bs with _ | ⟨b1, _ | ⟨b2, _ | ⟨b3, _ | ⟨b4, bs⟩⟩⟩⟩ <;>
    simp only [length_nil, length_cons] <;> try omega
  have h1 := hsafe b1 (by simp)
  have h2 := hsafe b2 (by simp)
  have h3 := hsafe b3 (by simp)
  have h4 := hsafe b4 (by simp)
  simp only [map_cons, sum_cons] at hsum
  unfold SafeStake at h1 h2 h3 h4
  omega

lemma Ballots.totalStake_pos (h : Ballots stakes l) (hm : m ∈ l) :
    0 < (stakes m.vote.slot).totalStake := by
  obtain ⟨entry, hentry⟩ := Option.isSome_iff_exists.1 (h.entry m hm)
  have hmem := mem_of_getElem? hentry
  have h1 := (stakes m.vote.slot).stake_pos entry hmem
  have h2 := (stakes m.vote.slot).sum_le
  have h3 := single_le_sum (by simp) _ (mem_map_of_mem (f := (·.stake)) hmem)
  omega

theorem safeToNotar_le_three (h : Ballots stakes l) {bs : List Hash} (hnd : bs.Nodup)
    (hsafe : ∀ b ∈ bs, SafeToNotar stakes me slot b l) : bs.length ≤ 3 := by
  rcases bs with _ | ⟨b, bs⟩
  · simp
  have hle := @Ballots.notarize_add_skip_le stakes l slot h
  have hsum := @stakeOf_notarizeVotes_sum_le stakes l slot _ hnd
  refine safeStake_le_three (fun b' hb' => (hsafe b' hb').2.2) (by omega) ?_
  obtain ⟨m, hm⟩ := exists_mem_of_ne_nil _ (hsafe b mem_cons_self).2.1
  obtain ⟨hl, rfl, -⟩ := mem_ofType.1 (mem_counted.1 hm).1
  exact h.totalStake_pos hl

lemma Vote.eq_notarize_iff {v : Vote} :
    v = .notarize v.slot b ↔ v.getType = .notarize ∧ v.blockId = some b := by
  cases v <;> simp [getType, blockId, slot]

namespace SlotStakeCounters

lemma fractionOf_pos {stake total : ℕ} (h : 0 < total) :
    fractionOf stake total = .ok ⟨stake, total, h⟩ :=
  dif_pos h

def TellsNotar (c : SlotStakeCounters) (b : Hash) (stake : ℕ) : Prop :=
  c.myFirstVote.any (fun v => v.getType = .notarize ∧ v.blockId = some b) = false
    ∧ SafeStake c.totalStake c.skipTotal stake

def TellsSkip (c : SlotStakeCounters) : Prop :=
  c.myFirstVote.any (fun v => v.getType = .notarize) = true
    ∧ 40 * c.totalStake ≤ 100 * (c.skipTotal + (c.notarizeTotal - c.topNotarizedStake))

section Checks

variable (hpos : 0 < c.totalStake)
include hpos

lemma checkSafeToNotar_spec {e : Hash × ℕ} (hle : c.skipTotal + e.2 ≤ u64Max)
    (ev : List VotorEvent) :
    ∃ told : Bool, checkSafeToNotar slot (c, ev) e = .ok (if told then
        ({ c with safeToNotarSent := c.safeToNotarSent ++ [e.1] }, ev ++ [.safeToNotar (slot, e.1)])
        else (c, ev))
      ∧ (told = true ↔ e.1 ∉ c.safeToNotarSent ∧ c.TellsNotar e.1 e.2) := by
  obtain ⟨safe, hsafe, hiff⟩ : ∃ safe, c.isSafeToNotar e.1 e.2 = .ok safe
      ∧ (safe = true ↔ c.TellsNotar e.1 e.2) := by
    unfold isSafeToNotar TellsNotar
    simp only [if_neg (not_lt.2 hle), fractionOf_pos hpos]
    split_ifs with hfirst
    · exact ⟨false, rfl, nofun, fun hno => absurd hfirst (Bool.eq_false_iff.1 hno.1)⟩
    · refine ⟨_, rfl, ?_⟩
      simp only [Bool.eq_false_iff.2 hfirst, decide_eq_true_eq, true_and]
      unfold Fraction.ge SafeStake safeToNotarMinNotarizeOnly
        safeToNotarMinNotarizeForNotarizeOrSkip safeToNotarMinNotarizeAndSkip Fraction.fromPercentage
      simp only
      omega
  unfold checkSafeToNotar
  simp only
  split_ifs with hsent
  · exact ⟨false, rfl, by simp [hsent]⟩
  · refine ⟨safe, ?_, by simp [hsent, hiff]⟩
    rw [hsafe]
    cases safe <;> rfl

lemma checkSafeToSkip_spec (hle : c.skipTotal + (c.notarizeTotal - c.topNotarizedStake) ≤ u64Max) :
    ∃ skip, c.checkSafeToSkip slot = .ok ({ c with safeToSkipSent := c.safeToSkipSent || skip },
        if skip then [.safeToSkip slot] else [])
      ∧ (skip = true ↔ c.safeToSkipSent = false ∧ c.TellsSkip) := by
  obtain ⟨safe, hsafe, hiff⟩ : ∃ safe, c.isSafeToSkip = .ok safe ∧ (safe = true ↔ c.TellsSkip) := by
    unfold isSafeToSkip TellsSkip
    split_ifs with hfirst
    · rw [fractionOf_pos hpos, saturatingAdd_eq hle]
      refine ⟨_, rfl, ?_⟩
      simp only [hfirst, decide_eq_true_eq, true_and]
      unfold Fraction.ge safeToSkipThreshold Fraction.fromPercentage
      simp only
      omega
    · exact ⟨false, rfl, by simp [hfirst]⟩
  unfold checkSafeToSkip
  split_ifs with hsent
  · exact ⟨false, by simp, by simp [hsent]⟩
  · refine ⟨safe, ?_, by simp [hsent, hiff]⟩
    rw [hsafe]
    cases safe <;> simp [bind, Except.bind]

lemma foldlM_checkSafeToNotar {es : List (Hash × ℕ)} (hnd : (es.map (·.1)).Nodup)
    (hle : ∀ e ∈ es, c.skipTotal + e.2 ≤ u64Max) (ev : List VotorEvent) :
    ∃ bs, es.foldlM (checkSafeToNotar slot) (c, ev)
        = .ok ({ c with safeToNotarSent := c.safeToNotarSent ++ bs },
          ev ++ bs.map fun b => .safeToNotar (slot, b))
      ∧ bs.Nodup ∧ ∀ b, b ∈ bs ↔ b ∉ c.safeToNotarSent
        ∧ ∃ stake, (b, stake) ∈ es ∧ c.TellsNotar b stake := by
  induction es generalizing c ev with
  | nil => exact ⟨[], by simp [pure, Except.pure], nodup_nil, by simp⟩
  | cons e es ih =>
    obtain ⟨hne, hnd⟩ := nodup_cons.1 hnd
    have hle' : ∀ e ∈ es, c.skipTotal + e.2 ≤ u64Max := fun e' he' =>
      hle e' (mem_cons_of_mem _ he')
    obtain ⟨told, hcheck, htold⟩ := @checkSafeToNotar_spec slot c hpos e (hle e mem_cons_self) ev
    rw [foldlM_cons, hcheck]
    cases told with
    | false =>
      obtain ⟨bs, hbs, hbnd, hmem⟩ := ih hpos hnd hle' ev
      refine ⟨bs, hbs, hbnd, fun b => ?_⟩
      rw [hmem]
      refine and_congr_right fun hb => exists_congr fun stake => and_congr_left fun hsafe => ?_
      rw [mem_cons, or_iff_right]
      rintro rfl
      cases htold.2 ⟨hb, hsafe⟩
    | true =>
      obtain ⟨hsent, hsafe⟩ := htold.1 rfl
      obtain ⟨bs, hbs, hbnd, hmem⟩ := @ih
        { c with safeToNotarSent := c.safeToNotarSent ++ [e.1] } hpos hnd hle'
        (ev ++ [.safeToNotar (slot, e.1)])
      refine ⟨e.1 :: bs, by simpa [bind, Except.bind] using hbs,
        nodup_cons.2 ⟨by simp [hmem], hbnd⟩, fun b => ?_⟩
      rw [mem_cons, hmem]
      constructor
      · rintro (rfl | ⟨hb, stake, hmem', hrest⟩)
        · exact ⟨hsent, e.2, mem_cons_self, hsafe⟩
        · simp at hb
          exact ⟨hb.1, stake, mem_cons_of_mem _ hmem', hrest⟩
      · rintro ⟨hb, stake, hmem', hrest⟩
        rcases mem_cons.1 hmem' with heq | hmem'
        · exact .inl (congrArg Prod.fst heq)
        · have hother : b ≠ e.1 := by
            rintro rfl
            exact hne (mem_map.2 ⟨_, hmem', rfl⟩)
          exact .inr ⟨by simp [hb, hother], stake, hmem', hrest⟩

end Checks

end SlotStakeCounters

open SlotStakeCounters

section Congr

variable (hsk : ofType slot .skip l' = ofType slot .skip l)
  (hno : ofType slot .notarize l' = ofType slot .notarize l)
include hno

lemma notarizeVotes_congr (b : Hash) : notarizeVotes slot b l' = notarizeVotes slot b l := by
  unfold notarizeVotes
  rw [hno]

include hsk

lemma Tallies.congr (h : Tallies stakes slot l c) : Tallies stakes slot l' c := by
  obtain ⟨h1, h2, h3, h4, h5, h6⟩ := h
  have hnv := notarizeVotes_congr hno
  refine ⟨h1, ?_, ?_, ?_, ?_, ?_⟩ <;> simp only [hsk, hno, hnv] <;> assumption

lemma Counts.congr (h : Counts stakes me slot l c)
    (hfirst : firstVote stakes me slot l' = firstVote stakes me slot l) :
    Counts stakes me slot l' c := by
  have hnv := notarizeVotes_congr hno
  refine ⟨h.toTallies.congr hsk hno, hfirst ▸ h.myFirstVote, h.nodup, fun b => ?_, ?_⟩
  · rw [h.safeToNotarSent]
    unfold SafeToNotar
    rw [hsk, hnv, hfirst]
  · rw [h.safeToSkipSent]
    unfold SafeToSkip
    simp only [hsk, hno, hnv, hfirst]

end Congr

section Snoc

variable (hv : m.vote.slot = slot → ¬ m.vote.IsFirst)
include hv

lemma ofType_snoc_of_not_first : ofType slot .skip (l ++ [m]) = ofType slot .skip l
    ∧ ofType slot .notarize (l ++ [m]) = ofType slot .notarize l := by
  constructor
  · rw [ofType_snoc, if_neg fun hm => hv hm.1 (.inr hm.2), append_nil]
  · rw [ofType_snoc, if_neg fun hm => hv hm.1 (.inl hm.2), append_nil]

lemma Tallies.snoc (h : Tallies stakes slot l c) : Tallies stakes slot (l ++ [m]) c := by
  obtain ⟨hsk, hno⟩ := @ofType_snoc_of_not_first l m slot hv
  exact h.congr hsk hno

lemma Counts.snoc (h : Counts stakes me slot l c) : Counts stakes me slot (l ++ [m]) c := by
  obtain ⟨hsk, hno⟩ := @ofType_snoc_of_not_first l m slot hv
  refine h.congr hsk hno ?_
  rw [firstVote_snoc, if_neg fun hm => hv hm.2.1 hm.2.2, Option.or_none]

end Snoc

lemma Tallies.count_skip (h : Tallies stakes slot l c) (hv : m.vote = .skip slot) :
    Tallies stakes slot (l ++ [m])
      { c with skipTotal := stakeOf stakes (ofType slot .skip (l ++ [m])) } := by
  obtain ⟨h1, -, h3, h4, h5, h6⟩ := h
  have hno : ofType slot .notarize (l ++ [m]) = ofType slot .notarize l := by
    simp [ofType_snoc, hv, getType]
  have hnv : ∀ b, notarizeVotes slot b (l ++ [m]) = notarizeVotes slot b l := by
    simp [notarizeVotes_snoc, hv]
  refine ⟨h1, rfl, ?_, ?_, ?_, ?_⟩ <;> simp only [hno, hnv] <;> assumption

lemma Tallies.count_notarize (h : Tallies stakes slot l c) (hb : Ballots stakes (l ++ [m]))
    (hv : m.vote = .notarize slot b) :
    Tallies stakes slot (l ++ [m])
      { c with
        notarizeEntryTotal := c.notarizeEntryTotal.insert b
          (stakeOf stakes (notarizeVotes slot b (l ++ [m])))
        notarizeTotal := saturatingAdd
          (c.notarizeTotal - (c.notarizeEntryTotal.get? b).getD 0)
          (stakeOf stakes (notarizeVotes slot b (l ++ [m])))
        topNotarizedStake := max c.topNotarizedStake
          (stakeOf stakes (notarizeVotes slot b (l ++ [m]))) } := by
  obtain ⟨h1, h2, h3, h4, h5, b0, h6⟩ := h
  have hsk : ofType slot .skip (l ++ [m]) = ofType slot .skip l := by
    simp [ofType_snoc, hv, Vote.getType]
  have hno : ofType slot .notarize (l ++ [m]) = ofType slot .notarize l ++ [m] := by
    simp [ofType_snoc, hv, Vote.getType, Vote.slot]
  have hself : notarizeVotes slot b (l ++ [m]) = notarizeVotes slot b l ++ [m] := by
    simp [notarizeVotes_snoc, hv]
  have hother : ∀ {b'}, b ≠ b' → notarizeVotes slot b' (l ++ [m]) = notarizeVotes slot b' l := by
    intro b' hne
    simp [notarizeVotes_snoc, hv, hne]
  have hold : (c.notarizeEntryTotal.get? b).getD 0 = stakeOf stakes (notarizeVotes slot b l) := by
    rw [h4]
    split_ifs with hnil
    · rw [hnil]
      rfl
    · rfl
  have hnew : stakeOf stakes (notarizeVotes slot b (l ++ [m]))
      = stakeOf stakes (notarizeVotes slot b l) + m.stake stakes := by
    rw [hself, stakeOf_append, stakeOf_cons, stakeOf_nil, Nat.add_zero]
  have htotal : stakeOf stakes (ofType slot .notarize (l ++ [m]))
      = stakeOf stakes (ofType slot .notarize l) + m.stake stakes := by
    rw [hno, stakeOf_append, stakeOf_cons, stakeOf_nil, Nat.add_zero]
  have hle := @stakeOf_notarizeVotes_le stakes l slot b
  have hbound := @Ballots.notarize_add_skip_le stakes _ slot hb
  have hmax := (stakes slot).total_le
  refine ⟨h1, ?_, ?_, fun b' => ?_, fun b' => ?_, ?_⟩
  · rw [hsk]
    exact h2
  · show saturatingAdd _ _ = _
    rw [saturatingAdd_eq (by omega)]
    omega
  · by_cases hbb : b = b'
    · subst hbb
      rw [OrdMap.get?_insert_self, hself, if_neg (by simp)]
    · rw [OrdMap.get?_insert_ne _ hbb, hother hbb]
      exact h4 b'
  · by_cases hbb : b = b'
    · subst hbb
      exact le_max_right _ _
    · rw [hother hbb]
      exact (h5 b').trans (le_max_left _ _)
  · rcases le_total c.topNotarizedStake (stakeOf stakes (notarizeVotes slot b (l ++ [m])))
      with hge | hge
    · exact ⟨b, max_eq_right hge⟩
    · refine ⟨b0, (max_eq_left hge).trans ?_⟩
      by_cases hbb : b = b0
      · subst hbb
        omega
      · rw [hother hbb]
        exact h6

lemma Tallies.count (h : Tallies stakes slot l c) (hb : Ballots stakes (l ++ [m]))
    (hs : m.vote.slot = slot) (hfirst : m.vote.IsFirst) :
    ∃ c', c.count m.vote (stakeOf stakes (counted m.vote.getType m.vote.blockId
        (ofType slot m.vote.getType (l ++ [m])))) = some c'
      ∧ Tallies stakes slot (l ++ [m]) c' ∧ c'.myFirstVote = c.myFirstVote
      ∧ c'.safeToNotarSent = c.safeToNotarSent ∧ c'.safeToSkipSent = c.safeToSkipSent := by
  subst hs
  rcases hv : m.vote with ⟨s, b⟩ | s | s | ⟨s, b⟩ | s | ⟨s, b⟩ <;> rw [hv] at h hfirst
  case notarize => exact ⟨_, rfl, h.count_notarize hb hv, rfl, rfl, rfl⟩
  case skip => exact ⟨_, rfl, h.count_skip hv, rfl, rfl, rfl⟩
  all_goals rcases hfirst with h' | h' <;> cases h'

lemma SlotStakeCounters.count_eq_none {v : Vote} (h : ¬ v.IsFirst) (stake : ℕ) :
    c.count v stake = none := by
  rcases v with ⟨s, b⟩ | s | s | ⟨s, b⟩ | s | ⟨s, b⟩
  case notarize => exact absurd (.inl rfl) h
  case skip => exact absurd (.inr rfl) h
  all_goals rfl

namespace Tallies

variable (h : Tallies stakes slot l c)
include h

lemma safeToNotar_iff (hfirst : c.myFirstVote = firstVote stakes me slot l)
    (hsome : (firstVote stakes me slot l).isSome) :
    (∃ stake, (b, stake) ∈ c.notarizeEntryTotal.entries ∧ c.TellsNotar b stake)
      ↔ SafeToNotar stakes me slot b l := by
  obtain ⟨v, hv⟩ := Option.isSome_iff_exists.1 hsome
  obtain ⟨hslot, -, -⟩ := firstVote_spec hv
  have hany : c.myFirstVote.any (fun v => v.getType = .notarize ∧ v.blockId = some b) = false
      ↔ v ≠ .notarize slot b := by
    rw [hfirst, hv, Option.any_some, decide_eq_false_iff_not, ← eq_notarize_iff, hslot]
  unfold TellsNotar
  simp only [OrdMap.mem_entries, hany, h.notarizeEntryTotal, h.totalStake, h.skipTotal]
  constructor
  · rintro ⟨stake, hget, hne, hsafe⟩
    split_ifs at hget with hnil
    cases hget
    exact ⟨⟨v, hv, hne⟩, hnil, hsafe⟩
  · rintro ⟨⟨v', hv', hne⟩, hnil, hsafe⟩
    rw [hv] at hv'
    cases hv'
    exact ⟨_, if_neg hnil, hne, hsafe⟩

lemma safeToSkip_iff (hfirst : c.myFirstVote = firstVote stakes me slot l) :
    c.TellsSkip ↔ SafeToSkip stakes me slot l := by
  obtain ⟨h1, h2, h3, -, h5, b0, h6⟩ := h
  refine and_congr ?_ ?_
  · rw [hfirst, Option.any_eq_true]
    constructor
    · rintro ⟨v, hv, hty⟩
      obtain ⟨hslot, -, -⟩ := firstVote_spec hv
      rcases v with ⟨s, b⟩ | _ | _ | _ | _ | _ <;> simp [getType] at hty
      exact ⟨b, hslot ▸ hv⟩
    · rintro ⟨b, hb⟩
      exact ⟨_, hb, rfl⟩
  · have hle := @stakeOf_notarizeVotes_le stakes l slot b0
    constructor
    · intro hge b
      have := h5 b
      omega
    · intro hall
      have := hall b0
      omega

lemma sum_le (hb : Ballots stakes l) :
    c.skipTotal + c.notarizeEntryTotal.values.sum ≤ c.totalStake := by
  have hvalues : c.notarizeEntryTotal.values
      = c.notarizeEntryTotal.keys.map fun b => stakeOf stakes (notarizeVotes slot b l) := by
    rw [OrdMap.keys, map_map]
    refine map_congr_left fun e he => ?_
    have hget := OrdMap.mem_entries.1 he
    rw [h.notarizeEntryTotal] at hget
    split_ifs at hget
    exact (Option.some.inj hget).symm
  have hsum := @stakeOf_notarizeVotes_sum_le stakes l slot _ c.notarizeEntryTotal.keys_nodup
  have hbound := @Ballots.notarize_add_skip_le stakes l slot hb
  rw [h.skipTotal, h.totalStake, hvalues]
  omega

lemma entry_le (hb : Ballots stakes l) :
    ∀ e ∈ c.notarizeEntryTotal.entries, c.skipTotal + e.2 ≤ u64Max := by
  have hbound := @Ballots.notarize_add_skip_le stakes l slot hb
  have hmax := (stakes slot).total_le
  rintro ⟨b, stake⟩ he
  rw [OrdMap.mem_entries, h.notarizeEntryTotal] at he
  split_ifs at he
  cases he
  have := @stakeOf_notarizeVotes_le stakes l slot b
  rw [h.skipTotal]
  omega

lemma skip_le (hb : Ballots stakes l) :
    c.skipTotal + (c.notarizeTotal - c.topNotarizedStake) ≤ u64Max := by
  have hbound := @Ballots.notarize_add_skip_le stakes l slot hb
  have hmax := (stakes slot).total_le
  rw [h.skipTotal, h.notarizeTotal]
  omega

lemma tell (hb : Ballots stakes l) (hpos : 0 < (stakes slot).totalStake)
    (hfirst : c.myFirstVote = firstVote stakes me slot l)
    (hsome : (firstVote stakes me slot l).isSome) (hnd : c.safeToNotarSent.Nodup)
    (hnotar : ∀ b ∈ c.safeToNotarSent, SafeToNotar stakes me slot b l)
    (hskip : c.safeToSkipSent = true → SafeToSkip stakes me slot l) :
    ∃ bs skip c', c.notarizeEntryTotal.entries.foldlM (checkSafeToNotar slot) (c, [])
        = .ok (c', bs.map fun b => .safeToNotar (slot, b))
      ∧ c'.checkSafeToSkip slot = .ok ({ c' with safeToSkipSent := c.safeToSkipSent || skip },
          if skip then [.safeToSkip slot] else [])
      ∧ Counts stakes me slot l { c' with safeToSkipSent := c.safeToSkipSent || skip }
      ∧ c'.safeToNotarSent = c.safeToNotarSent ++ bs ∧ (skip = true → c.safeToSkipSent = false) := by
  have hpos' : 0 < c.totalStake := h.totalStake ▸ hpos
  obtain ⟨bs, hfold, hbnd, hmem⟩ := @foldlM_checkSafeToNotar slot c hpos' _
    c.notarizeEntryTotal.keys_nodup (h.entry_le hb) []
  simp only [h.safeToNotar_iff hfirst hsome] at hmem
  set c' := { c with safeToNotarSent := c.safeToNotarSent ++ bs }
  have htallies : Tallies stakes slot l c' := { h with }
  -- the node is told to skip now, if it is safe and it has not been told before
  obtain ⟨skip, hcheck, hiff⟩ := @checkSafeToSkip_spec slot c' hpos'
    (htallies.skip_le hb)
  rw [htallies.safeToSkip_iff hfirst] at hiff
  change skip = true ↔ c.safeToSkipSent = false ∧ _ at hiff
  refine ⟨bs, skip, _, hfold, hcheck, ⟨{ htallies with }, hfirst, ?_, fun b => ?_, ?_⟩, rfl,
    fun hskip => (hiff.1 hskip).1⟩
  · refine hnd.append hbnd ?_
    intro b hsent hb
    exact ((hmem b).1 hb).1 hsent
  · rw [mem_append, hmem]
    constructor
    · rintro (hsent | hb)
      · exact hnotar b hsent
      · exact hb.2
    · intro hsafe
      by_cases hsent : b ∈ c.safeToNotarSent
      · exact .inl hsent
      · exact .inr ⟨hsent, hsafe⟩
  · cases hsent : c.safeToSkipSent <;> simp_all

end Tallies

/-- A ballot keeps the counters right. The events are those of the fallback votes that it makes
safe, each of which is told once. -/
theorem Counts.addVote (h : Counts stakes me slot l c) (hb : Ballots stakes (l ++ [m]))
    (hs : m.vote.slot = slot) :
    ∃ c' bs skip, c.addVote m.vote (stakeOf stakes (counted m.vote.getType m.vote.blockId
        (ofType slot m.vote.getType (l ++ [m])))) (me = m.key stakes)
        = .ok (c', (bs.map fun b => .safeToNotar (slot, b)) ++ if skip then [.safeToSkip slot] else [])
      ∧ Counts stakes me slot (l ++ [m]) c' ∧ c'.safeToNotarSent = c.safeToNotarSent ++ bs
      ∧ c'.safeToSkipSent = (c.safeToSkipSent || skip)
      ∧ (skip = true → c.safeToSkipSent = false) := by
  unfold SlotStakeCounters.addVote
  by_cases hv : m.vote.IsFirst
  case neg =>
    refine ⟨c, [], false, ?_, h.snoc fun _ => hv, by simp, by simp, nofun⟩
    rw [count_eq_none hv]
    rfl
  obtain ⟨htallies, hfirst, hnd, hnotar, hskip⟩ := h
  obtain ⟨c1, hcount, htallies1, hfirst1, hnotar1, hskip1⟩ := htallies.count hb hs hv
  rw [hcount, hs]
  simp only
  set c2 := if (c1.myFirstVote.isNone && decide (me = m.key stakes)) = true then
    { c1 with myFirstVote := some m.vote } else c1 with hc2
  have htallies2 : Tallies stakes slot (l ++ [m]) c2 := by
    rw [hc2]
    split_ifs <;> exact { htallies1 with }
  have hfirst2 : c2.myFirstVote = firstVote stakes me slot (l ++ [m]) := by
    rw [firstVote_snoc, ← hfirst, ← hfirst1, hc2]
    rcases hc1 : c1.myFirstVote with _ | v
    · by_cases hme : m.key stakes = me
      · simp [hme, hs, hv]
      · simp [hme, Ne.symm hme, hc1]
    · simp [hc1]
  have hsent2 : c2.safeToNotarSent = c.safeToNotarSent ∧ c2.safeToSkipSent = c.safeToSkipSent := by
    rw [hc2]
    split_ifs <;> exact ⟨hnotar1, hskip1⟩
  rw [← hsent2.1] at hnd hnotar ⊢
  rw [← hsent2.2] at hskip ⊢
  split_ifs with hnone
  · -- the node has not voted, so nothing was or is safe
    rw [Option.isNone_iff_eq_none, hfirst2] at hnone
    have hnone' : firstVote stakes me slot l = none := by
      rw [firstVote_snoc] at hnone
      exact (Option.or_eq_none_iff.1 hnone).1
    refine ⟨c2, [], false, rfl, ⟨htallies2, hfirst2, hnd, fun b => ?_, ?_⟩, by simp, by simp, nofun⟩
    · rw [hnotar]
      simp [SafeToNotar, hnone, hnone']
    · rw [hskip]
      simp [SafeToSkip, hnone, hnone']
  · rw [Option.isNone_iff_eq_none, hfirst2, ← ne_eq, ← Option.isSome_iff_ne_none] at hnone
    have hpos : 0 < (stakes slot).totalStake :=
      hs ▸ hb.totalStake_pos mem_concat_self
    obtain ⟨bs, skip, c3, hfold, hcheck, hcounts, hsent, hnew⟩ := htallies2.tell hb hpos hfirst2
      hnone hnd (fun b hb => ((hnotar b).1 hb).snoc) fun hs => (hskip.1 hs).snoc
    refine ⟨_, bs, skip, ?_, hcounts, hsent, rfl, hnew⟩
    rw [hfold]
    simp only [bind, Except.bind, hcheck]

/-- A ballot is counted without a panic, whoever's vote the counters hold as the node's own. -/
theorem Tallies.addVote (h : Tallies stakes slot l c) (hb : Ballots stakes (l ++ [m]))
    (hs : m.vote.slot = slot) (isMyOwnVote : Bool) :
    ∃ c' ev, c.addVote m.vote (stakeOf stakes (counted m.vote.getType m.vote.blockId
        (ofType slot m.vote.getType (l ++ [m])))) isMyOwnVote = .ok (c', ev)
      ∧ Tallies stakes slot (l ++ [m]) c' := by
  unfold SlotStakeCounters.addVote
  by_cases hv : m.vote.IsFirst
  case neg =>
    rw [count_eq_none hv]
    exact ⟨c, [], rfl, h.snoc fun _ => hv⟩
  obtain ⟨c1, hcount, h1, -⟩ := h.count hb hs hv
  rw [hcount]
  simp only
  set c2 := if (c1.myFirstVote.isNone && isMyOwnVote) = true then
    { c1 with myFirstVote := some m.vote } else c1 with hc2
  have h2 : Tallies stakes slot (l ++ [m]) c2 := by
    rw [hc2]
    split_ifs <;> exact { h1 with }
  split_ifs with hnone
  · exact ⟨c2, [], rfl, h2⟩
  have hpos : 0 < c2.totalStake := by
    rw [h2.totalStake, ← hs]
    exact hb.totalStake_pos mem_concat_self
  obtain ⟨bs, hfold, -⟩ := @foldlM_checkSafeToNotar m.vote.slot c2 hpos _
    c2.notarizeEntryTotal.keys_nodup (h2.entry_le hb) []
  set c3 := { c2 with safeToNotarSent := c2.safeToNotarSent ++ bs }
  have h3 : Tallies stakes slot (l ++ [m]) c3 := { h2 with }
  obtain ⟨skip, hskip, -⟩ := @checkSafeToSkip_spec m.vote.slot c3 hpos
    (h3.skip_le hb)
  rw [hfold]
  exact ⟨_, _, Except.bind_of_ok hskip, { h3 with }⟩

lemma counts_nil (hl : ∀ m ∈ l, m.vote.slot ≠ slot) :
    Counts stakes me slot l { totalStake := (stakes slot).totalStake } := by
  have hof : ∀ ty, ofType slot ty l = [] := fun ty =>
    filter_eq_nil_iff.2 fun m hm => by simp [hl m hm]
  have hnv : ∀ b, notarizeVotes slot b l = [] := by
    intro b
    unfold notarizeVotes
    rw [hof]
    rfl
  have hfirst : firstVote stakes me slot l = none := by
    unfold firstVote
    rw [Option.map_eq_none_iff, find?_eq_none]
    intro m hm
    simp [hl m hm]
  refine ⟨⟨rfl, ?_, ?_, fun b => ?_, fun b => ?_, 0, ?_⟩, hfirst.symm, nodup_nil, fun b => ?_, ?_⟩
  all_goals simp [hof, hnv, hfirst, SafeToNotar, SafeToSkip]

end BlackBull
