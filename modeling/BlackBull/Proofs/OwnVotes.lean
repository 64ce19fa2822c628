import BlackBull.Proofs.PoolCounts
import BlackBull.Proofs.VoteSafety
import BlackBull.Votor.Node

/-!
# A node's own pool accepts its votes

The handler and the pool keep separate records of what the node voted. `NodeInv` joins them.
-/

namespace BlackBull

open Handler ConsensusPool List ConsensusPool

variable {stakes : ℕ → EpochStakes} {me identity : Pubkey} {n n' : Node}
  {told ev' : List VotorEvent} {log : List HandlerLog} {slot : ℕ} {bs : List Hash}
  {msg : VoteMessage} {skip r : Bool}

lemma VotesSafe.first_unique (h : VotesSafe log) {u v : Vote} (hu : u ∈ casts log)
    (hv : v ∈ casts log) (hslot : u.slot = v.slot) (hfu : u.IsFirst) (hfv : v.IsFirst) : u = v := by
  have hle := h.first v.slot
  have hu' : u ∈ (casts log).filter fun w => w.slot = v.slot ∧ w.IsFirst := by
    simp [hu, hslot, hfu]
  have hv' : v ∈ (casts log).filter fun w => w.slot = v.slot ∧ w.IsFirst := by
    simp [hv, hfv]
  obtain ⟨w, hw⟩ := length_eq_one_iff.1 (le_antisymm hle (length_pos_of_mem hu'))
  rw [hw, mem_singleton] at hu' hv'
  exact hu'.trans hv'.symm

lemma VoteMessage.IsBy.key {m : VoteMessage} (h : m.IsBy stakes me) : m.key stakes = me := by
  rw [VoteMessage.key, h]
  rfl

lemma VoteMessage.IsBy.entry {m : VoteMessage} (h : m.IsBy stakes me) :
    (m.entry stakes).isSome := by
  obtain ⟨e, he, -⟩ := Option.map_eq_some_iff.1 h
  rw [he]
  rfl

lemma VoteMessage.isBy_of_key {m : VoteMessage} (h : (m.entry stakes).isSome)
    (hkey : m.key stakes = me) : m.IsBy stakes me := by
  obtain ⟨e, he⟩ := Option.isSome_iff_exists.1 h
  rw [VoteMessage.key, he] at hkey
  rw [IsBy, he]
  exact congrArg some hkey

lemma VoteMessage.IsBy.eq {m m' : VoteMessage} (h : m.IsBy stakes me) (h' : m'.IsBy stakes me)
    (hvote : m.vote = m'.vote) : m = m' := by
  unfold IsBy VoteMessage.entry at h h'
  rw [← hvote, ← getElem?_map] at h'
  rw [← getElem?_map] at h
  have hlt : m.rank < ((stakes m.vote.slot).sortedPubkeys.map (·.voteAccountPubkey)).length := by
    by_contra hge
    rw [getElem?_eq_none (Nat.not_lt.1 hge)] at h
    cases h
  have hrank := (getElem?_inj hlt (stakes m.vote.slot).nodup).1 (h.trans h'.symm)
  rcases m with ⟨vote, rank⟩
  cases hvote
  cases hrank
  rfl

lemma mem_ownVotes : (msg, r) ∈ ownVotes log ↔ .ownVote msg r ∈ log := by
  unfold ownVotes
  rw [mem_filterMap]
  constructor
  · rintro ⟨e, he, heq⟩
    cases e <;> simp at heq
    obtain ⟨rfl, rfl⟩ := heq
    exact he
  · exact fun h => ⟨_, h, rfl⟩

lemma ownVotes_append (log log' : List HandlerLog) :
    ownVotes (log ++ log') = ownVotes log ++ ownVotes log' :=
  filterMap_append

lemma ownVotes_split {k : ℕ} (h : (ownVotes log)[k]? = some (msg, r)) :
    ∃ before, before ++ [.ownVote msg r] <+: log
      ∧ ownVotes before = (ownVotes log).take k := by
  induction log generalizing k with
  | nil => simp [ownVotes] at h
  | cons e log ih =>
    rcases he : (ownVotes [e]) with _ | ⟨x, xs⟩
    · have hcons (log : List HandlerLog) : ownVotes (e :: log) = ownVotes log := by
        rw [← singleton_append, ownVotes_append, he, nil_append]
      rw [hcons] at h ⊢
      obtain ⟨before, hpre, htake⟩ := ih h
      exact ⟨e :: before, cons_prefix_cons.2 ⟨rfl, hpre⟩, (hcons before).trans htake⟩
    · cases e <;> cases he
      rcases k with _ | k
      · cases h
        exact ⟨[], cons_prefix_cons.2 ⟨rfl, nil_prefix⟩, rfl⟩
      · obtain ⟨before, hpre, htake⟩ := ih h
        exact ⟨_ :: before, cons_prefix_cons.2 ⟨rfl, hpre⟩, congrArg (_ :: ·) htake⟩

/-- The blocks of a slot told to be safe to notarize. -/
def notarOf (slot : ℕ) (events : List VotorEvent) : List Hash :=
  events.filterMap fun
    | .safeToNotar (s, b) => if s = slot then some b else none
    | _ => none

lemma mem_notarOf {b : Hash} : b ∈ notarOf slot told ↔ .safeToNotar (slot, b) ∈ told := by
  unfold notarOf
  rw [mem_filterMap]
  constructor
  · rintro ⟨e, he, heq⟩
    cases e <;> simp only [reduceCtorEq] at heq
    split_ifs at heq with hs
    cases heq
    subst hs
    exact he
  · exact fun h => ⟨_, h, if_pos rfl⟩

lemma notarOf_append (slot : ℕ) (ev ev' : List VotorEvent) :
    notarOf slot (ev ++ ev') = notarOf slot ev ++ notarOf slot ev' :=
  filterMap_append

lemma notarOf_eq_nil {ev : List VotorEvent} (h : ∀ e ∈ ev, e.isFallback = false) :
    notarOf slot ev = [] := by
  refine filterMap_eq_nil_iff.2 fun e he => ?_
  have := h e he
  cases e <;> first | rfl | cases this

/-- The invariant of the node; `told` are the events its pool has told. -/
structure NodeInv (stakes : ℕ → EpochStakes) (me identity : Pubkey) (n : Node)
    (told : List VotorEvent) : Prop where
  handler : ∃ events, HandlerInv ⟨identity, (·.IsBy stakes me), events, []⟩ n.handler
    ∧ ∀ e ∈ events ++ n.events, e.isFallback = true → e ∈ told
  notar : ∀ s b, .safeToNotar (s, b) ∈ told →
    ∃ u ∈ casts n.handler.log, u.slot = s ∧ u.IsFirst ∧ u ≠ .notarize s b
  skip : ∀ s, .safeToSkip s ∈ told → ∃ b, .notarize s b ∈ casts n.handler.log
  ballots : ∃ l, n.pool.CountsBallots stakes me l
    ∧ ∀ m ∈ l, m.key stakes = me → ∃ r, (m, r) ∈ (ownVotes n.handler.log).take n.taken
  pruned : n.pool.lastPrunedSlot ≤ n.poolRoot
  notarOf_le : ∀ s, (notarOf s told).length ≤ 3
  notarOf_eq : ∀ s, n.pool.lastPrunedSlot ≤ s → notarOf s told = n.pool.notarSent s

lemma nodeInv_new (root : ℕ) (bank : RootBank) :
    NodeInv stakes me identity (.new identity root bank) [] where
  handler := ⟨[], handlerInv_new identity _ root [], by simp [Node.new]⟩
  notar := by simp
  skip := by simp
  ballots := ⟨[], countsBallots_new bank, by simp⟩
  pruned := Nat.zero_le _
  notarOf_le := by simp [notarOf]
  notarOf_eq := fun _ _ => rfl

lemma NodeInv.turn (h : NodeInv stakes me identity n told) {e : VotorEvent} {env : HandlerEnv}
    (henv : Node.OwnEnv stakes me identity env) (he : e.isFallback = true → e ∈ told) :
    NodeInv stakes me identity (n.turn (e, env)) told := by
  unfold Node.turn
  split_ifs
  · exact h
  obtain ⟨events, hI, hevents⟩ := h.handler
  let F : Since := ⟨identity, (·.IsBy stakes me), events ++ [e], n.handler.log⟩
  have hF : HandlerInv F n.handler := { hI with
    received := fun x hx => mem_append_left _ (hI.received x hx)
    log_prefix := prefix_refl _ }
  have hnew : ∀ h', HandlerInv F h' → ∀ stopped,
      NodeInv stakes me identity { n with handler := h', stopped := stopped } told := by
    intro h' hI' stopped
    have hcasts : casts n.handler.log <+: casts h'.log := hI'.log_prefix.filterMap _
    refine ⟨⟨events ++ [e], hI'.mono (List.Subset.refl _) nil_prefix, fun x hx hfb => ?_⟩,
      fun s b hs => ?_, fun s hs => ?_, ?_, h.pruned, h.notarOf_le, h.notarOf_eq⟩
    · simp only [mem_append, mem_singleton] at hx
      rcases hx with (hx | rfl) | hx
      · exact hevents x (mem_append_left _ hx) hfb
      · exact he hfb
      · exact hevents x (mem_append_right _ hx) hfb
    · obtain ⟨u, hu, hrest⟩ := h.notar s b hs
      exact ⟨u, hcasts.subset hu, hrest⟩
    · obtain ⟨b, hb⟩ := h.skip s hs
      exact ⟨b, hcasts.subset hb⟩
    · obtain ⟨l, hl, hown⟩ := h.ballots
      refine ⟨l, hl, fun m hm hkey => ?_⟩
      obtain ⟨r, hr⟩ := hown m hm hkey
      exact ⟨r, ((hI'.log_prefix.filterMap _).take n.taken).subset hr⟩
  have hturn := keeps_turn (F := F) (e := (e, env)) henv.2 (by simp [F]) (fun _ => henv.1)
    n.handler hF
  split <;> rename_i hr <;> rw [hr] at hturn
  · exact hnew _ hturn _
  · exact hnew _ hturn.1 _

lemma NodeInv.handler_append (h : NodeInv stakes me identity n told) (ev : List VotorEvent) :
    ∃ events, HandlerInv ⟨identity, (·.IsBy stakes me), events, []⟩ n.handler
      ∧ ∀ e ∈ events ++ (n.events ++ ev), e.isFallback = true → e ∈ told ++ ev := by
  obtain ⟨events, hI, hevents⟩ := h.handler
  refine ⟨events, hI, fun e he hfb => ?_⟩
  rw [← append_assoc] at he
  rcases mem_append.1 he with he | he
  · exact mem_append_left _ (hevents e he hfb)
  · exact mem_append_right _ he

variable {p : ConsensusPool} {l : List VoteMessage} {m : VoteMessage} {taken root : ℕ}
  {ev : List VotorEvent}

lemma NodeInv.ingest_quiet (h : NodeInv stakes me identity n told) (hroot : n.poolRoot ≤ root)
    (hp : p.CountsBallots stakes me l)
    (hown : ∀ m ∈ l, m.key stakes = me → ∃ r, (m, r) ∈ (ownVotes n.handler.log).take taken)
    (hmap : p.slotStakeCountersMap = n.pool.slotStakeCountersMap)
    (hlast : p.lastPrunedSlot = n.pool.lastPrunedSlot) (hev : ∀ e ∈ ev, e.isFallback = false) :
    NodeInv stakes me identity ⟨n.handler, n.stopped, p, taken, n.events ++ ev, root⟩
      (told ++ ev) := by
  have hold : ∀ {e}, e ∈ told ++ ev → e.isFallback = true → e ∈ told := by
    intro e he hfb
    rcases mem_append.1 he with he | he
    · exact he
    · rw [hev e he] at hfb
      cases hfb
  refine ⟨h.handler_append ev, fun s b hs => h.notar s b (hold hs rfl),
    fun s hs => h.skip s (hold hs rfl), ⟨l, hp, hown⟩, hlast.trans_le (h.pruned.trans hroot),
    fun s => ?_, fun s hs => ?_⟩
  · rw [notarOf_append, notarOf_eq_nil hev, append_nil]
    exact h.notarOf_le s
  · rw [notarOf_append, notarOf_eq_nil hev, append_nil, h.notarOf_eq s (hlast ▸ hs)]
    unfold notarSent
    rw [hmap]

lemma firstVote_cast {F : Since} {h : Handler} (hI : HandlerInv F h) {v : Vote}
    (hown : ∀ m ∈ l, m.key stakes = me → ∃ r, (m, r) ∈ (ownVotes h.log).take taken)
    (hv : firstVote stakes me slot l = some v) : v ∈ casts h.log ∧ v.slot = slot ∧ v.IsFirst := by
  obtain ⟨hs, hf, m, hm, hkey, rfl⟩ := firstVote_spec hv
  obtain ⟨r, hr⟩ := hown m hm hkey
  exact ⟨hI.asked.sent m r (mem_ownVotes.1 (mem_of_mem_take hr)), hs, hf⟩

lemma notarOf_events (hev' : ∀ e ∈ ev', e.isFallback = false) (s : ℕ) :
    notarOf s ((bs.map fun b => .safeToNotar (slot, b))
      ++ (if skip then [.safeToSkip slot] else []) ++ ev') = if slot = s then bs else [] := by
  have hskip : notarOf s (if skip then [.safeToSkip slot] else []) = [] := by
    split_ifs <;> rfl
  rw [notarOf_append, notarOf_append, notarOf_eq_nil hev', hskip]
  unfold notarOf
  split_ifs with hs
  · subst hs
    simp
  · simp [hs]

lemma safeToSkip_mem_events {s : ℕ} (hev' : ∀ e ∈ ev', e.isFallback = false)
    (hs : .safeToSkip s ∈ (bs.map fun b => VotorEvent.safeToNotar (slot, b))
      ++ (if skip then [.safeToSkip slot] else []) ++ ev') : s = slot ∧ skip = true := by
  simp only [mem_append, mem_map, reduceCtorEq, and_false, exists_false, false_or] at hs
  rcases hs with hs | hs
  · split_ifs at hs with hskip
    · exact ⟨by simpa using hs, hskip⟩
    · cases hs
  · cases hev' _ hs

namespace NodeInv

variable (h : NodeInv stakes me identity n told)
include h

lemma ingest_vote (hroot : n.poolRoot ≤ root) (hslot : root ≤ m.vote.slot)
    (hp : p.CountsBallots stakes me (l ++ [m])) (hown : ∀ m' ∈ l ++ [m], m'.key stakes = me →
      ∃ r, (m', r) ∈ (ownVotes n.handler.log).take taken)
    (hlast : p.lastPrunedSlot = n.pool.lastPrunedSlot)
    (hev : ev = (bs.map fun b => .safeToNotar (m.vote.slot, b))
      ++ (if skip then [.safeToSkip m.vote.slot] else []) ++ ev')
    (hev' : ∀ e ∈ ev', e.isFallback = false)
    (hsent : ∀ s, p.notarSent s = n.pool.notarSent s ++ if m.vote.slot = s then bs else [])
    (hskip : skip = true → SafeToSkip stakes me m.vote.slot (l ++ [m])) :
    NodeInv stakes me identity ⟨n.handler, n.stopped, p, taken, n.events ++ ev, root⟩
      (told ++ ev) := by
  obtain ⟨events, hI, -⟩ := h.handler
  have hnotarOf : ∀ s, notarOf s ev = if m.vote.slot = s then bs else [] :=
    fun s => hev ▸ notarOf_events hev' s
  refine ⟨h.handler_append ev, fun s b hs => ?_, fun s hs => ?_, ⟨l ++ [m], hp, hown⟩,
    hlast.trans_le (h.pruned.trans hroot), fun s => ?_, fun s hs => ?_⟩
  · rcases mem_append.1 hs with hs | hnew
    · exact h.notar s b hs
    rw [← mem_notarOf, hnotarOf] at hnew
    split_ifs at hnew with hslot'
    · subst hslot'
      have hmem : b ∈ p.notarSent m.vote.slot := by
        rw [hsent, if_pos rfl]
        exact mem_append_right _ hnew
      rw [p.notarSent_eq _ (stakes m.vote.slot).totalStake,
        (hp.counts m.vote.slot).safeToNotarSent] at hmem
      obtain ⟨⟨v, hv, hne⟩, -, -⟩ := hmem
      obtain ⟨hcast, hvs, hvf⟩ := firstVote_cast hI hown hv
      exact ⟨v, hcast, hvs, hvf, hne⟩
    · cases hnew
  · rcases mem_append.1 hs with hs | hs
    · exact h.skip s hs
    rw [hev] at hs
    obtain ⟨rfl, hsk⟩ := safeToSkip_mem_events hev' hs
    obtain ⟨⟨b, hb⟩, -⟩ := hskip hsk
    exact ⟨b, (firstVote_cast hI hown hb).1⟩
  · rw [notarOf_append, hnotarOf]
    split_ifs with hs
    · -- all of the slot's events are in the counters, which the stake bounds
      subst hs
      have hle := safeToNotar_le_three hp.ballots (hp.counts m.vote.slot).nodup
        fun b hb => ((hp.counts m.vote.slot).safeToNotarSent b).1 hb
      rw [← p.notarSent_eq, hsent, if_pos rfl] at hle
      rwa [h.notarOf_eq _ (h.pruned.trans (hroot.trans hslot))]
    · rw [append_nil]
      exact h.notarOf_le s
  · rw [notarOf_append, hnotarOf, h.notarOf_eq s (hlast ▸ hs)]
    exact (hsent s).symm

lemma ingest [SignerStore] {rootBank : RootBank} {message : ConsensusMessage}
    (hroot : n.poolRoot ≤ rootBank.slot) (htaken : n.taken ≤ taken)
    (hown : ∀ m, message = .vote m → m.IsBy stakes me →
      ∃ r, (m, r) ∈ (ownVotes n.handler.log).take taken)
    (hstep : Node.ingest stakes me rootBank message { n with taken } = .ok (n', ev)) :
    NodeInv stakes me identity n' (told ++ ev) := by
  obtain ⟨⟨p, reply⟩, hadd, hstep⟩ := Except.bind_eq_ok.1 hstep
  cases hstep
  obtain ⟨l, hl, hballots⟩ := h.ballots
  have hballots' : ∀ m ∈ l, m.key stakes = me →
      ∃ r, (m, r) ∈ (ownVotes n.handler.log).take taken := by
    intro m hm hkey
    obtain ⟨r, hr⟩ := hballots m hm hkey
    exact ⟨r, (take_prefix_take_left htaken).subset hr⟩
  rcases message with m | cert <;>
    obtain ⟨⟨p', ev, res⟩, hcall, hadd⟩ := Except.bind_eq_ok.1 hadd <;> cases hadd
  · obtain ⟨hlast, ⟨hp, rfl, hmap, -⟩ | ⟨hp, hslot, -, bs, skip, ev', hev, hev', hsent, hskip⟩⟩ :=
      addVote_counts hl hcall
    · exact h.ingest_quiet hroot hp hballots' hmap hlast (by simp)
    · refine h.ingest_vote hroot hslot hp (forall_mem_append.2
        ⟨hballots', forall_mem_singleton.2 fun hkey => ?_⟩) hlast hev hev' hsent hskip
      exact hown m rfl (VoteMessage.isBy_of_key (hp.ballots.entry m (by simp)) hkey)
  · obtain ⟨hpools, hmap⟩ := addCertificate_frame hcall
    obtain ⟨hev, hlast⟩ := addCertificate_events hcall
    exact h.ingest_quiet hroot (hl.congr hpools hmap) hballots' hmap hlast hev

lemma maybePrune {rootSlot : ℕ} (hroot : n.poolRoot ≤ rootSlot) :
    NodeInv stakes me identity { n with pool := n.pool.maybePrune rootSlot, poolRoot := rootSlot }
      told := by
  obtain ⟨l, hl, hown⟩ := h.ballots
  obtain ⟨l', hl', hsub, hge, hle, hsent⟩ := hl.maybePrune rootSlot
  refine ⟨h.handler, h.notar, h.skip, ⟨l', hl', fun m hm => hown m (hsub.subset hm)⟩,
    hle.trans (max_le (h.pruned.trans hroot) le_rfl), h.notarOf_le, fun s hs => ?_⟩
  rw [h.notarOf_eq s (hge.trans hs)]
  exact (hsent s hs).symm

theorem step [SignerStore] {op : NodeOp} (hroot : n.RootGrows op)
    (hop : Node.OwnOp stakes me identity op) (hstep : n.step stakes me op = .ok (n', ev)) :
    NodeInv stakes me identity n' (told ++ ev) := by
  cases op with
  | takeOwnVote rootBank =>
    rw [Node.step] at hstep
    rcases hnext : n.nextOwnVote with _ | ⟨msg, r⟩ <;> rw [hnext] at hstep
    · cases hstep
      rwa [append_nil]
    · refine h.ingest hroot (Nat.le_succ _) (fun m hm _ => ?_) hstep
      cases hm
      rw [take_add_one, show (ownVotes n.handler.log)[n.taken]? = some (msg, r) from hnext]
      simp
  | receive rootBank message =>
    exact h.ingest hroot le_rfl (fun m hm hby => absurd hby (hop m hm)) hstep
  | maybePrune rootSlot =>
    cases hstep
    rw [append_nil]
    exact h.maybePrune hroot
  | takeEvent env =>
    rw [Node.step] at hstep
    rcases hev : n.events with _ | ⟨e, events⟩ <;> rw [hev] at hstep <;> cases hstep <;>
      rw [append_nil]
    · exact h
    obtain ⟨evs, hI, hevs⟩ := h.handler
    have hrest : NodeInv stakes me identity { n with events := events } told := by
      refine { h with handler := ⟨evs, hI, fun x hx hfb => hevs x ?_ hfb⟩ }
      rw [hev]
      exact ((sublist_cons_self e events).append_left evs).subset hx
    exact hrest.turn hop fun hfb => hevs e (by simp [hev]) hfb
  | handle e env =>
    cases hstep
    rw [append_nil]
    refine h.turn hop.1 fun hfb => ?_
    rw [hop.2] at hfb
    cases hfb

variable {u v : Vote} {s : ℕ} {b : Hash}

lemma asked_notar (hv : .notarizeFallback s b ∈ casts n.handler.log) :
    .safeToNotar (s, b) ∈ told := by
  obtain ⟨events, hI, hevents⟩ := h.handler
  have := hI.received _ (hI.asked.notarizeFallback s b hv)
  exact hevents _ (mem_append_left _ this) rfl

lemma asked_skip (hv : .skipFallback s ∈ casts n.handler.log) : .safeToSkip s ∈ told := by
  obtain ⟨events, hI, hevents⟩ := h.handler
  have := hI.received _ (hI.asked.skipFallback s hv)
  exact hevents _ (mem_append_left _ this) rfl

lemma votesSafe : VotesSafe n.handler.log := by
  obtain ⟨_, hI, -⟩ := h.handler
  exact hI.safe

lemma votesAsked : VotesAsked n.handler.log := by
  obtain ⟨_, hI, -⟩ := h.handler
  exact hI.asked

lemma not_notarizeFallback (hu : .notarize s b ∈ casts n.handler.log) :
    .notarizeFallback s b ∉ casts n.handler.log := by
  intro hv
  obtain ⟨w, hw, hws, hwf, hne⟩ := h.notar s b (h.asked_notar hv)
  exact hne (h.votesSafe.first_unique hw hu hws hwf (.inl rfl))

lemma not_skipFallback (hu : .skip s ∈ casts n.handler.log) :
    .skipFallback s ∉ casts n.handler.log := by
  intro hv
  obtain ⟨b, hb⟩ := h.skip s (h.asked_skip hv)
  cases h.votesSafe.first_unique hu hb rfl (.inr rfl) (.inl rfl)

lemma not_skip (hu : .notarize s b ∈ casts n.handler.log) : .skip s ∉ casts n.handler.log := by
  intro hv
  cases h.votesSafe.first_unique hu hv rfl (.inl rfl) (.inr rfl)

theorem compatible (hu : u ∈ casts n.handler.log) (hv : v ∈ casts n.handler.log)
    (hslot : v.slot = u.slot) : ¬ ConflictsWith u.getType u.blockId v := by
  rintro ⟨hty, hblock⟩
  have halone := h.votesSafe.finalize_alone
  rcases u with ⟨s, b⟩ | s | s | ⟨s, b⟩ | s | ⟨s, b⟩ <;>
    rcases v with ⟨s', b'⟩ | s' | s' | ⟨s', b'⟩ | s' | ⟨s', b'⟩ <;>
    simp only [Vote.getType, conflictingTypes, mem_cons, reduceCtorEq, not_mem_nil,
      or_false, or_true, or_self] at hty <;>
    simp only [Vote.slot] at hslot <;> subst hslot
  case notarize.skip => exact h.not_skip hu hv
  case notarize.notarizeFallback =>
    rcases hblock rfl with hb | hb <;> cases hb
    exact h.not_notarizeFallback hu hv
  case notarizeFallback.notarize =>
    rcases hblock rfl with hb | hb <;> cases hb
    exact h.not_notarizeFallback hv hu
  case skip.notarize => exact h.not_skip hv hu
  case skip.skipFallback => exact h.not_skipFallback hu hv
  case skipFallback.skip => exact h.not_skipFallback hv hu
  case finalize.skip => exact halone _ hu _ hv rfl (.inl rfl)
  case finalize.skipFallback => exact halone _ hu _ hv rfl (.inr (.inl rfl))
  case finalize.notarizeFallback => exact halone _ hu _ hv rfl (.inr (.inr rfl))
  case skip.finalize => exact halone _ hv _ hu rfl (.inl rfl)
  case skipFallback.finalize => exact halone _ hv _ hu rfl (.inr (.inl rfl))
  case notarizeFallback.finalize => exact halone _ hv _ hu rfl (.inr (.inr rfl))
  all_goals exact h.votesAsked.genesis _ _ hu

lemma vote_eq (hu : u ∈ casts n.handler.log) (hslot : u.slot = v.slot)
    (hty : u.getType = v.getType) (hblock : u.getType.byBlock = true → u.blockId = v.blockId) :
    u = v := by
  rcases u with ⟨s, b⟩ | s | s | ⟨s, b⟩ | s | ⟨s, b⟩ <;>
    rcases v with ⟨s', b'⟩ | s' | s' | ⟨s', b'⟩ | s' | ⟨s', b'⟩ <;> cases hty <;>
    simp only [Vote.slot] at hslot <;> subst hslot
  case genesis.genesis => exact absurd hu (h.votesAsked.genesis _ _)
  all_goals first | rfl | cases hblock rfl; rfl

lemma notarizeFallback_le (hnd : bs.Nodup)
    (hbs : ∀ b ∈ bs, .notarizeFallback s b ∈ casts n.handler.log) : bs.length ≤ 3 := by
  have hsub : bs ⊆ notarOf s told := fun b hb => mem_notarOf.2 (h.asked_notar (hbs b hb))
  exact ((subperm_of_subset hnd hsub).length_le).trans (h.notarOf_le s)

lemma fresh (hb : Ballots stakes l)
    (hl : ∀ m ∈ l, m.key stakes = me → m.vote ∈ casts n.handler.log)
    (hm : m.vote ∈ casts n.handler.log) (hby : m.IsBy stakes me) (hnew : m ∉ l) :
    Fresh stakes (ofType m.vote.slot m.vote.getType l) m := by
  -- another ballot of the node is another vote
  have hne : ∀ m' ∈ l, m'.key stakes = me → m'.vote ≠ m.vote := by
    intro m' hm' hkey hvote
    refine hnew ?_
    rwa [hby.eq (VoteMessage.isBy_of_key (hb.entry m' hm') hkey) hvote.symm]
  refine ⟨fun hmem => ?_, fun hblock => ?_⟩
  · obtain ⟨m', hm', hkey⟩ := mem_map.1 hmem
    rw [hby.key] at hkey
    obtain ⟨hm', hbl⟩ := mem_counted.1 hm'
    obtain ⟨hm', hs, hty⟩ := mem_ofType.1 hm'
    exact hne m' hm' hkey (h.vote_eq (hl m' hm' hkey) hs hty (hty ▸ hbl))
  set own := (ofType m.vote.slot m.vote.getType l).filter fun m' => m'.key stakes = m.key stakes
    with hown
  have hmem : ∀ {m'}, m' ∈ own → m' ∈ l ∧ m'.vote.slot = m.vote.slot
      ∧ m'.vote.getType = m.vote.getType ∧ m'.key stakes = me := by
    intro m' hm'
    rw [mem_filter, decide_eq_true_eq, hby.key] at hm'
    obtain ⟨hm', hkey⟩ := hm'
    obtain ⟨hm', hs, hty⟩ := mem_ofType.1 hm'
    exact ⟨hm', hs, hty, hkey⟩
  rcases hv : m.vote with ⟨s, b⟩ | s | s | ⟨s, b⟩ | s | ⟨s, b⟩ <;> rw [hv] at hblock <;>
    cases hblock
  · -- the first vote is the only one
    have hnil : own = [] := by
      refine eq_nil_iff_forall_not_mem.2 fun m' hm' => ?_
      obtain ⟨hl', hs, hty, hkey⟩ := hmem hm'
      refine hne m' hl' hkey (h.votesSafe.first_unique (hl m' hl' hkey) hm hs (.inl ?_) (.inl ?_))
      · rw [hty, hv]
        rfl
      · rw [hv]
        rfl
    rw [hnil]
    exact Nat.zero_lt_one
  · -- one more would be a fourth block
    have hvote : ∀ {m'}, m' ∈ own → ∃ b', m'.vote = .notarizeFallback s b' := by
      intro m' hm'
      obtain ⟨-, hs, hty, -⟩ := hmem hm'
      rw [hv] at hs hty
      rcases m' with ⟨⟨_, _⟩ | _ | _ | ⟨s', b'⟩ | _ | ⟨_, _⟩, _⟩ <;> cases hty
      cases hs
      exact ⟨b', rfl⟩
    have hnd : (b :: own.map fun m' => m'.vote.blockId.getD 0).Nodup := by
      refine nodup_cons.2 ⟨fun hmemb => ?_, ?_⟩
      · obtain ⟨m', hm', heq⟩ := mem_map.1 hmemb
        obtain ⟨b', hb'⟩ := hvote hm'
        obtain ⟨hl', -, -, hkey⟩ := hmem hm'
        rw [hb'] at heq
        cases heq
        exact hne m' hl' hkey (hb'.trans hv.symm)
      · have hsub : own.Sublist l := filter_sublist.trans filter_sublist
        rw [List.Nodup, pairwise_map]
        refine (hb.pairwise.sublist hsub).imp_of_mem fun {m1 m2} h1 h2 hR heq => ?_
        obtain ⟨-, hs1, hty1, hk1⟩ := hmem h1
        obtain ⟨-, hs2, hty2, hk2⟩ := hmem h2
        obtain ⟨b1, hb1⟩ := hvote h1
        obtain ⟨b2, hb2⟩ := hvote h2
        refine (hR (hs1.trans hs2.symm) (hk1.trans hk2.symm)).2 ⟨hty1.trans hty2.symm, fun _ => ?_⟩
        rw [hb1, hb2] at heq ⊢
        exact congrArg some heq
    have hle := h.notarizeFallback_le hnd (s := s) (by
      intro b' hb'
      rcases mem_cons.1 hb' with rfl | hb'
      · rw [← hv]
        exact hm
      · obtain ⟨m', hm', rfl⟩ := mem_map.1 hb'
        obtain ⟨b', hb'⟩ := hvote hm'
        obtain ⟨hl', -, -, hkey⟩ := hmem hm'
        exact hb' ▸ hl m' hl' hkey)
    rw [length_cons, length_map] at hle
    exact hle

end NodeInv

lemma holdsVote_iff
    (h : HoldsBallots stakes l p) : p.holdsVote m = true ↔ m ∈ l := by
  rcases pool_spec h m.vote.slot m.vote.getType m.vote.blockId with
    ⟨hvotes, -⟩ | ⟨⟨hb, hnone⟩, -⟩
  case inr => simpa [hnone] using Vote.blockId_isSome hb
  unfold holdsVote
  rw [hvotes, decide_eq_true_eq, mem_counted, mem_ofType]
  simp

/-- What the node's own pool does with the next message of the handler: it finds no conflict, it
counts the vote, if it is not a refresh, before it looks at any certificate, and it reports no
error. -/
def Accepts [SignerStore]
    (stakes : ℕ → EpochStakes) (me : Pubkey) (p : ConsensusPool) (bank : RootBank)
    (msg : VoteMessage) (isRefresh : Bool) : Prop :=
  p.hasConflictingVote msg.vote.slot msg.vote.getType me msg.vote.blockId = none
    ∧ (isRefresh = false → ∃ p₁ entryStake,
      p.updateVotePool msg me (msg.stake stakes) = .ok (p₁, some entryStake))
    ∧ ∀ p' reply, p.addMessage stakes bank me (.vote msg) = .ok (p', reply) →
      (∃ result, reply.result = .ok result) ∧ p'.holdsVote msg = true

theorem NodeInv.accepts [SignerStore] (h : NodeInv stakes me identity n told)
    (hnext : n.nextOwnVote = some (msg, r)) {bank : RootBank} (hroot : bank.slot ≤ msg.vote.slot)
    (hhas : bank.hasEpochStakes msg.vote.slot) : Accepts stakes me n.pool bank msg r := by
  obtain ⟨events, hI, -⟩ := h.handler
  obtain ⟨l, hl, hown⟩ := h.ballots
  have hnext' : (ownVotes n.handler.log)[n.taken]? = some (msg, r) := hnext
  have hsent : .ownVote msg r ∈ n.handler.log := mem_ownVotes.1 (mem_of_getElem? hnext')
  have hcast : msg.vote ∈ casts n.handler.log := hI.asked.sent msg r hsent
  have hby : msg.IsBy stakes me := hI.sent msg r hsent
  have hlcast : ∀ m ∈ l, m.key stakes = me → m.vote ∈ casts n.handler.log := by
    intro m hm hkey
    obtain ⟨r', hr'⟩ := hown m hm hkey
    exact hI.asked.sent m r' (mem_ownVotes.1 (mem_of_mem_take hr'))
  have hconf : n.pool.hasConflictingVote msg.vote.slot msg.vote.getType me msg.vote.blockId
      = none := by
    rw [hasConflictingVote_eq_none hl.toHoldsBallots]
    exact fun m hm hs hkey => h.compatible hcast (hlcast m hm hkey) hs
  refine ⟨hconf, fun hr => ?_, fun p' reply hadd => ?_⟩
  · subst hr
    have hnew : msg ∉ l := by
      intro hmem
      -- the pool has taken earlier messages only, and none of them is of this vote
      obtain ⟨r', hr'⟩ := hown msg hmem hby.key
      obtain ⟨before, hpre, htake⟩ := ownVotes_split hnext'
      rw [← htake] at hr'
      exact hI.asked.sent_once before msg hpre msg r' (mem_ownVotes.1 hr') rfl
    rw [← hby.key] at hconf
    obtain ⟨pools, hupd, -⟩ := (updateVotePool_spec hl.toHoldsBallots hby.entry hconf).1
      (h.fresh hl.ballots hlcast hcast hby hnew)
    rw [hby.key] at hupd
    exact ⟨_, _, hupd⟩
  · obtain ⟨⟨q, ev, res⟩, hvote, hadd⟩ := Except.bind_eq_ok.1 hadd
    cases hadd
    rw [← hby.key] at hconf
    obtain ⟨certs, rfl⟩ := addVote_ok hl.toHoldsBallots
      ⟨hhas, hby.entry, hroot, hconf⟩ hvote
    refine ⟨⟨_, rfl⟩, ?_⟩
    obtain ⟨-, ⟨hp, -, -, hnot⟩ | ⟨hp, -⟩⟩ := addVote_counts hl hvote
    · rw [holdsVote_iff hp.toHoldsBallots]
      by_contra hnew
      exact hnot certs rfl (h.fresh hl.ballots hlcast hcast hby hnew)
    · rw [holdsVote_iff hp.toHoldsBallots]
      exact mem_concat_self

/-- In every run of a node, whatever the delays of its channels and whatever other validators send,
its own pool accepts the handler's next vote. The pool tells of at most three blocks of a slot that
they are safe to notarize. -/
theorem own_votes_accepted [SignerStore] {root : ℕ} {bank₀ : RootBank} {ops : List NodeOp}
    (hrun : run (Node.step stakes me) (.new identity root bank₀) ops = .ok (n, told))
    (hroots : Guarded (Node.step stakes me) Node.RootGrows (.new identity root bank₀) ops)
    (hown : ∀ op ∈ ops, Node.OwnOp stakes me identity op) :
    (∀ msg isRefresh, n.nextOwnVote = some (msg, isRefresh) → ∀ bank : RootBank,
      bank.slot ≤ msg.vote.slot → bank.hasEpochStakes msg.vote.slot →
        Accepts stakes me n.pool bank msg isRefresh)
      ∧ ∀ slot, (notarOf slot told).length ≤ maxEntriesPerPubkeyForNotarizeLite := by
  have h : NodeInv stakes me identity n told :=
    run_induction (P := fun _ told n => NodeInv stakes me identity n told)
      (nodeInv_new root bank₀) (fun _ _ _ _ _ _ hI hop hstep => hI.step hop.1 hop.2 hstep)
      (hroots.and (guarded_of_mem hown _)) hrun
  exact ⟨fun msg r hnext bank hroot hhas => h.accepts hnext hroot hhas, h.notarOf_le⟩

lemma ownEnv_votingEnv (stored : Option VoteHistory) :
    Node.OwnEnv (fun _ => threeStakes) 1 7 (votingEnv 7 stored) := by
  refine ⟨rfl, fun vote rank h => ?_⟩
  cases h
  rfl

def fallbackRun : List NodeOp :=
  (notarizeFirst 7).map (fun e => .handle e.1 e.2) ++ [.takeOwnVote rootBankZero,
    .receive rootBankZero (.vote ⟨.notarize 1 6, 1⟩), .takeEvent (votingEnv 7 none),
    .takeOwnVote rootBankZero, .takeOwnVote rootBankZero]

open PlainStore

theorem own_votes_accepted_fallback : ∃ n told,
    run (Node.step (fun _ => threeStakes) 1) (.new 7 0 rootBankZero)
      fallbackRun = .ok (n, told)
    ∧ notarOf 1 told = [6] ∧ n.nextOwnVote = some (⟨.notarizeFallback 1 6, 0⟩, false)
    ∧ Accepts (fun _ => threeStakes) 1 n.pool rootBankZero
      ⟨.notarizeFallback 1 6, 0⟩ false := by
  have hok : (run (Node.step (fun _ => threeStakes) 1)
      (.new 7 0 rootBankZero) fallbackRun).toOption.any (fun r =>
        notarOf 1 r.2 = [6] ∧ r.1.nextOwnVote = some (⟨.notarizeFallback 1 6, 0⟩, false)) = true := by
    decide +kernel
  have hroots : Guarded (Node.step (fun _ => threeStakes) 1) Node.RootGrows
      (.new 7 0 rootBankZero) fallbackRun := by
    decide +kernel
  have hown : ∀ op ∈ fallbackRun,
      Node.OwnOp (fun _ => threeStakes) 1 7 op := by
    simp only [fallbackRun, notarizeFirst, map_cons, map_nil, cons_append,
      nil_append, forall_mem_cons]
    refine ⟨⟨ownEnv_votingEnv _, rfl⟩, ⟨ownEnv_votingEnv _, rfl⟩, trivial, ?_,
      ownEnv_votingEnv _, trivial, trivial, nofun⟩
    intro m hm
    cases hm
    decide
  obtain ⟨⟨n, told⟩, hrun, htold, hnext⟩ := Except.exists_of_any hok
  exact ⟨n, told, hrun, htold, hnext,
    (own_votes_accepted hrun hroots hown).1 _ _ hnext _ (Nat.zero_le _) rfl⟩

end BlackBull
