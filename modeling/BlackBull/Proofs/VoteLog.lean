import BlackBull.Votor.EventHandler

/-!
# The votes in the log of a handler

The votes a handler has cast are safe (`VotesSafe`), each was asked for (`VotesAsked`), and from its
root on the vote history says what the log says (`InSync`).
-/

namespace BlackBull

namespace Handler

def casts (log : List HandlerLog) : List Vote :=
  log.filterMap fun
    | .cast v => some v
    | _ => none

end Handler

open Handler VoteHistory List

def Vote.IsBad (v : Vote) : Prop :=
  v.getType = .skip ∨ v.getType = .skipFallback ∨ v.getType = .notarizeFallback

def VotedIn (log : List HandlerLog) (slot : ℕ) : Prop :=
  ∃ u ∈ casts log, u.slot = slot ∧ u.IsFirst

/-- What the votes of one node must be, whatever happened. -/
structure VotesSafe (log : List HandlerLog) : Prop where
  first : ∀ slot, ((casts log).filter fun v => v.slot = slot ∧ v.IsFirst).length ≤ 1
  finalize_once : ∀ slot, (casts log).count (.finalize slot) ≤ 1
  finalize_after : ∀ before slot, before ++ [.cast (.finalize slot)] <+: log →
    ∃ b, .notarize slot b ∈ casts before ∧ .received (.blockNotarized (slot, b)) ∈ before
  finalize_alone : ∀ slot, .finalize slot ∈ casts log → ∀ v ∈ casts log, v.slot = slot → ¬ v.IsBad

/-- No vote is cast twice, fallback votes are cast on request, and the messages to the node's own
pool are of votes cast; that of a vote just cast is the first of this vote. -/
structure VotesAsked (log : List HandlerLog) : Prop where
  nodup : (casts log).Nodup
  genesis : ∀ s b, .genesis s b ∉ casts log
  notarizeFallback : ∀ s b, .notarizeFallback s b ∈ casts log → .received (.safeToNotar (s, b)) ∈ log
  skipFallback : ∀ s, .skipFallback s ∈ casts log → .received (.safeToSkip s) ∈ log
  sent : ∀ msg r, .ownVote msg r ∈ log → msg.vote ∈ casts log
  sent_once : ∀ before msg, before ++ [.ownVote msg false] <+: log →
    ∀ msg' r, .ownVote msg' r ∈ before → msg'.vote ≠ msg.vote

structure InSync (vh : VoteHistory) (log : List HandlerLog) : Prop where
  voted : ∀ s, vh.root ≤ s → (s ∈ vh.voted ↔ VotedIn log s)
  votedNotar : ∀ s b, vh.root ≤ s → (vh.votedNotar.get? s = some b ↔ .notarize s b ∈ casts log)
  votedNotarFallback : ∀ s b, vh.root ≤ s →
    ((vh.votedNotarFallback.get? s).any (b ∈ ·) = true ↔ .notarizeFallback s b ∈ casts log)
  votedSkipFallback : ∀ s, vh.root ≤ s → (s ∈ vh.votedSkipFallback ↔ .skipFallback s ∈ casts log)
  skipped : ∀ s, vh.root ≤ s → (s ∈ vh.skipped ↔ ∃ v ∈ casts log, v.slot = s ∧ v.IsBad)
  itsOver : ∀ s, vh.root ≤ s → (s ∈ vh.itsOver ↔ .finalize s ∈ casts log)
  votesCast : ∀ s vs, vh.votesCast.get? s = some vs → ∀ v ∈ vs, v ∈ casts log
  notarizedBlocks : ∀ b ∈ vh.notarizedBlocks, .received (.blockNotarized b) ∈ log

variable {log : List HandlerLog} {vh : VoteHistory} {v : Vote} {e : HandlerLog}

@[simp] lemma casts_append (log log' : List HandlerLog) :
    casts (log ++ log') = casts log ++ casts log' := by
  simp [casts]

@[simp] lemma casts_cast (v : Vote) : casts [.cast v] = [v] := rfl

lemma mem_casts_snoc {u : Vote} : u ∈ casts (log ++ [.cast v]) ↔ u ∈ casts log ∨ u = v := by
  simp

lemma exists_casts_snoc {P : Vote → Prop} : (∃ u ∈ casts (log ++ [.cast v]), P u)
    ↔ (∃ u ∈ casts log, P u) ∨ P v := by
  simp

lemma casts_snoc (he : casts [e] = []) : casts (log ++ [e]) = casts log := by
  rw [casts_append, he, append_nil]

lemma VotesSafe.quiet (h : VotesSafe log) (he : casts [e] = []) : VotesSafe (log ++ [e]) := by
  have hc : casts (log ++ [e]) = casts log := casts_snoc he
  refine ⟨fun s => hc ▸ h.first s, fun s => hc ▸ h.finalize_once s, fun before slot hpre => ?_,
    fun s => hc ▸ h.finalize_alone s⟩
  rcases prefix_concat_iff.1 hpre with heq | hpre
  · obtain ⟨-, rfl⟩ := append_inj' heq rfl |>.imp_right singleton_inj.1
    cases he
  · exact h.finalize_after before slot hpre

lemma InSync.quiet (h : InSync vh log) (he : casts [e] = []) : InSync vh (log ++ [e]) := by
  have hc : casts (log ++ [e]) = casts log := casts_snoc he
  refine ⟨?_, ?_, ?_, ?_, ?_, ?_, ?_, fun b hb => mem_append_left _ (h.notarizedBlocks b hb)⟩
  · unfold VotedIn
    rw [hc]
    exact h.voted
  all_goals rw [hc]
  · exact h.votedNotar
  · exact h.votedNotarFallback
  · exact h.votedSkipFallback
  · exact h.skipped
  · exact h.itsOver
  · exact h.votesCast

/-- An entry that is no vote, and no message or the first of its vote. -/
lemma VotesAsked.quiet (h : VotesAsked log) (he : casts [e] = [])
    (hsent : ∀ msg r, e = .ownVote msg r → msg.vote ∈ casts log)
    (honce : ∀ msg, e = .ownVote msg false →
      ∀ msg' r, .ownVote msg' r ∈ log → msg'.vote ≠ msg.vote) : VotesAsked (log ++ [e]) := by
  have hc : casts (log ++ [e]) = casts log := casts_snoc he
  refine ⟨hc ▸ h.nodup, hc ▸ h.genesis, fun s b hb => ?_, fun s hs => ?_, fun msg r hm => ?_,
    fun before msg hpre => ?_⟩
  · exact mem_append_left _ (h.notarizeFallback s b (hc ▸ hb))
  · exact mem_append_left _ (h.skipFallback s (hc ▸ hs))
  · rw [hc]
    rcases mem_append.1 hm with hm | hm
    · exact h.sent msg r hm
    · exact hsent msg r (mem_singleton.1 hm).symm
  · rcases prefix_concat_iff.1 hpre with heq | hpre
    · obtain ⟨rfl, hlast⟩ := append_inj' heq rfl
      exact honce msg (singleton_inj.1 hlast).symm
    · exact h.sent_once before msg hpre

def MayCast (log : List HandlerLog) : Vote → Prop
  | .notarize slot _ | .skip slot => ¬ VotedIn log slot
  | .finalize slot => .finalize slot ∉ casts log ∧ (∀ u ∈ casts log, u.slot = slot → ¬ u.IsBad)
    ∧ ∃ b, .notarize slot b ∈ casts log ∧ .received (.blockNotarized (slot, b)) ∈ log
  | .notarizeFallback slot b => .finalize slot ∉ casts log ∧ VotedIn log slot
    ∧ .notarizeFallback slot b ∉ casts log ∧ .received (.safeToNotar (slot, b)) ∈ log
  | .skipFallback slot => .finalize slot ∉ casts log ∧ VotedIn log slot
    ∧ .skipFallback slot ∉ casts log ∧ .received (.safeToSkip slot) ∈ log
  | .genesis _ _ => False

lemma MayCast.not_mem (hv : MayCast log v) : v ∉ casts log := by
  intro hmem
  cases v with
  | notarize s b => exact hv ⟨_, hmem, rfl, .inl rfl⟩
  | skip s => exact hv ⟨_, hmem, rfl, .inr rfl⟩
  | finalize s => exact hv.1 hmem
  | notarizeFallback s b | skipFallback s => exact hv.2.2.1 hmem
  | genesis s b => exact hv

lemma MayCast.not_votedIn (hv : MayCast log v) (hfirst : v.IsFirst) : ¬ VotedIn log v.slot := by
  cases v with
  | notarize s b | skip s => exact hv
  | _ => rcases hfirst with h | h <;> cases h

lemma VotesSafe.notarized_of_finalize (h : VotesSafe log) {slot : ℕ}
    (hf : .finalize slot ∈ casts log) : ∃ b, .notarize slot b ∈ casts log := by
  obtain ⟨e, he, hv⟩ := mem_filterMap.1 hf
  cases e <;> simp at hv
  subst hv
  obtain ⟨before, after, rfl⟩ := append_of_mem he
  obtain ⟨b, hb, -⟩ := h.finalize_after before slot ⟨after, by simp⟩
  exact ⟨b, by rw [casts_append]; exact mem_append_left _ hb⟩

lemma MayCast.not_isBad (h : VotesSafe log) (hv : MayCast log v)
    (hf : .finalize v.slot ∈ casts log) : ¬ v.IsBad := by
  intro hbad
  obtain ⟨b, hb⟩ := h.notarized_of_finalize hf
  cases v with
  | skip s => exact hv ⟨_, hb, rfl, .inl rfl⟩
  | notarizeFallback s b' | skipFallback s => exact hv.1 hf
  | _ => rcases hbad with h' | h' | h' <;> cases h'

theorem VotesSafe.cast (h : VotesSafe log) (hv : MayCast log v) : VotesSafe (log ++ [.cast v]) := by
  refine ⟨fun slot => ?_, fun slot => ?_, fun before slot hpre => ?_, fun slot hf u hu hus => ?_⟩
  · rw [casts_append, filter_append]
    by_cases hs : v.slot = slot ∧ v.IsFirst
    · have hnone : (casts log).filter (fun u => u.slot = slot ∧ u.IsFirst) = [] := by
        refine filter_eq_nil_iff.2 fun u hu => ?_
        rw [decide_eq_true_eq, ← hs.1]
        exact fun hus => hv.not_votedIn hs.2 ⟨u, hu, hus⟩
      rw [hnone]
      simp [hs]
    · have := h.first slot
      simpa [hs] using this
  · rw [casts_append, casts_cast, count_append]
    by_cases hs : v = .finalize slot
    · subst hs
      rw [count_eq_zero_of_not_mem hv.1]
      simp
    · have := h.finalize_once slot
      rw [count_eq_zero_of_not_mem (l := [v]) (by simpa using Ne.symm hs)]
      exact this
  · rcases prefix_concat_iff.1 hpre with heq | hpre
    · obtain ⟨rfl, hlast⟩ := append_inj' heq rfl
      cases hlast
      exact hv.2.2
    · exact h.finalize_after before slot hpre
  · rcases mem_casts_snoc.1 hf with hf' | rfl <;> rcases mem_casts_snoc.1 hu with hu' | rfl
    · exact h.finalize_alone slot hf' u hu' hus
    · exact hv.not_isBad h (hus ▸ hf')
    · exact hv.2.1 u hu' hus
    · rintro (h' | h' | h') <;> cases h'

theorem VotesAsked.cast (h : VotesAsked log) (hv : MayCast log v) :
    VotesAsked (log ++ [.cast v]) := by
  refine ⟨?_, fun s b hb => ?_, fun s b hb => ?_, fun s hs => ?_, fun msg r hm => ?_,
    fun before msg hpre => ?_⟩
  · rw [casts_append]
    exact nodup_append'.2 ⟨h.nodup, nodup_singleton v,
      disjoint_singleton.2 hv.not_mem⟩
  · rcases mem_casts_snoc.1 hb with hb | rfl
    · exact h.genesis s b hb
    · exact hv
  · rcases mem_casts_snoc.1 hb with hb | rfl
    · exact mem_append_left _ (h.notarizeFallback s b hb)
    · exact mem_append_left _ hv.2.2.2
  · rcases mem_casts_snoc.1 hs with hs | rfl
    · exact mem_append_left _ (h.skipFallback s hs)
    · exact mem_append_left _ hv.2.2.2
  · rw [mem_casts_snoc]
    exact .inl (h.sent msg r (by simpa using hm))
  · rcases prefix_concat_iff.1 hpre with heq | hpre
    · obtain ⟨-, hlast⟩ := append_inj' heq rfl
      cases hlast
    · exact h.sent_once before msg hpre

lemma VoteHistory.addVote_ok {vh' : VoteHistory} (h : vh.addVote v = .ok vh') :
    vh.MayAdd v ∧ vh' = { vh.insertVote v with
      votesCast := vh.votesCast.insert v.slot ((vh.votesCast.get? v.slot).getD [] ++ [v]) } := by
  unfold addVote at h
  split_ifs at h with hmay
  cases h
  exact ⟨hmay, rfl⟩

@[simp] lemma VoteHistory.insertVote_root : (vh.insertVote v).root = vh.root := by
  cases v <;> rfl

@[simp] lemma VoteHistory.insertVote_nodePubkey : (vh.insertVote v).nodePubkey = vh.nodePubkey := by
  cases v <;> rfl

@[simp] lemma VoteHistory.insertVote_notarizedBlocks :
    (vh.insertVote v).notarizedBlocks = vh.notarizedBlocks := by
  cases v <;> rfl

theorem InSync.cast (h : InSync vh log) {vh' : VoteHistory} (hadd : vh.addVote v = .ok vh') :
    InSync vh' (log ++ [.cast v]) := by
  obtain ⟨hmay, rfl⟩ := addVote_ok hadd
  refine ⟨fun s hs => ?_, fun s b hs => ?_, fun s b hs => ?_, fun s hs => ?_, fun s hs => ?_,
    fun s hs => ?_, fun s vs hvs u hu => ?_, fun b hb => ?_⟩
  all_goals try simp at hs
  · unfold VotedIn
    rw [exists_casts_snoc, show (∃ u ∈ casts log, u.slot = s ∧ u.IsFirst) ↔ s ∈ vh.voted from
      (h.voted s hs).symm]
    cases v <;> simp [insertVote, Vote.slot, Vote.IsFirst, Vote.getType, eq_comm,
      or_comm]
  · rw [mem_casts_snoc, ← h.votedNotar s b hs]
    cases v with
    | notarize slot b' =>
      simp only [insertVote, OrdMap.get?_insert]
      by_cases hsl : slot = s
      · subst hsl
        simp [hmay.2.2, eq_comm]
      · simp [hsl, Ne.symm hsl]
    | _ => simp [insertVote]
  · rw [mem_casts_snoc, ← h.votedNotarFallback s b hs]
    cases v with
    | notarizeFallback slot b' =>
      simp only [insertVote, OrdMap.get?_insert]
      by_cases hsl : slot = s
      · subst hsl
        cases vh.votedNotarFallback.get? slot <;> simp [or_comm]
      · simp [hsl, Ne.symm hsl]
    | _ => simp [insertVote]
  · rw [mem_casts_snoc, ← h.votedSkipFallback s hs]
    cases v <;> simp [insertVote, or_comm]
  · rw [exists_casts_snoc, ← h.skipped s hs]
    cases v <;> simp [insertVote, Vote.slot, Vote.IsBad, Vote.getType, eq_comm,
      or_comm]
  · rw [mem_casts_snoc, ← h.itsOver s hs]
    cases v <;> simp [insertVote, or_comm]
  · rw [mem_casts_snoc]
    rw [OrdMap.get?_insert] at hvs
    split_ifs at hvs with hsl
    · cases hvs
      rcases mem_append.1 hu with hu | hu
      · cases hget : vh.votesCast.get? v.slot with
        | none => simp [hget] at hu
        | some us => exact .inl (h.votesCast _ us hget u (by simpa [hget] using hu))
      · exact .inr (mem_singleton.1 hu)
    · exact .inl (h.votesCast s vs hvs u hu)
  · exact mem_append_left _ (h.notarizedBlocks b (by simpa using hb))

lemma InSync.mayAdd (h : InSync vh log) (hroot : vh.root ≤ v.slot) (hv : MayCast log v) :
    vh.MayAdd v := by
  cases v with
  | notarize slot b =>
    refine ⟨hroot, fun hvoted => hv ((h.voted slot hroot).1 hvoted), ?_⟩
    by_contra hne
    obtain ⟨b', hb'⟩ := Option.ne_none_iff_exists'.1 hne
    exact hv ⟨_, (h.votedNotar slot b' hroot).1 hb', rfl, .inl rfl⟩
  | finalize slot =>
    refine ⟨hroot, fun hskip => ?_⟩
    obtain ⟨u, hu, hus, hbad⟩ := (h.skipped slot hroot).1 hskip
    exact hv.2.1 u hu hus hbad
  | skip slot => exact hroot
  | notarizeFallback slot b | skipFallback slot =>
    exact ⟨hroot, (h.voted slot hroot).2 hv.2.1, fun hov => hv.1 ((h.itsOver slot hroot).1 hov)⟩
  | genesis slot b => exact hv.elim

lemma InSync.setRoot (h : InSync vh log) {root : ℕ} (hle : vh.root ≤ root) :
    InSync (vh.setRoot root) log := by
  refine ⟨fun s hs => ?_, fun s b hs => ?_, fun s b hs => ?_, fun s hs => ?_, fun s hs => ?_,
    fun s hs => ?_, fun s vs hvs => ?_, fun b hb => ?_⟩
  · rw [← h.voted s (hle.trans hs)]
    simpa [VoteHistory.setRoot] using fun _ => hs
  · rw [← h.votedNotar s b (hle.trans hs)]
    simp only [VoteHistory.setRoot, OrdMap.get?_retain]
    cases vh.votedNotar.get? s <;> simp [show root ≤ s from hs]
  · rw [← h.votedNotarFallback s b (hle.trans hs)]
    simp only [VoteHistory.setRoot, OrdMap.get?_retain]
    cases vh.votedNotarFallback.get? s <;> simp [show root ≤ s from hs]
  · rw [← h.votedSkipFallback s (hle.trans hs)]
    simpa [VoteHistory.setRoot] using fun _ => hs
  · rw [← h.skipped s (hle.trans hs)]
    simpa [VoteHistory.setRoot] using fun _ => hs
  · rw [← h.itsOver s (hle.trans hs)]
    simpa [VoteHistory.setRoot] using fun _ => hs
  · refine h.votesCast s vs ?_
    simp only [VoteHistory.setRoot, OrdMap.get?_retain] at hvs
    exact (Option.filter_eq_some_iff.1 hvs).1
  · exact h.notarizedBlocks b (mem_of_mem_filter hb)

end BlackBull
