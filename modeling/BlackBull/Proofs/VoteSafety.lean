import BlackBull.Lib.Hoare
import BlackBull.Lib.Run
import BlackBull.Proofs.VoteLog

/-!
# A node never votes against itself

Every command of the handler keeps what the log and the vote history say of the votes
(`HandlerInv`), wherever it stops, and so does the event loop on any events.
-/

namespace BlackBull

open Handler Triple List

/-- What a command starts from: the identity, the messages it may send, the events received so far
and the log. -/
structure Since where
  me : Pubkey
  own : VoteMessage → Prop
  events : List VotorEvent
  log : List HandlerLog

def HandlerEnv.Sends (env : HandlerEnv) (own : VoteMessage → Prop) : Prop :=
  ∀ vote rank, env.generateVoteTx vote = .consensusMessage rank → own ⟨vote, rank⟩

/-- What every command keeps, for a node that keeps its identity. -/
structure HandlerInv (F : Since) (h : Handler) : Prop where
  safe : VotesSafe h.log
  asked : VotesAsked h.log
  sync : InSync h.voteHistory h.log
  root_le : h.voteHistory.root ≤ h.root
  myPubkey : h.myPubkey = F.me
  nodePubkey : h.voteHistory.nodePubkey = F.me
  sent : ∀ msg r, .ownVote msg r ∈ h.log → F.own msg
  received : ∀ e, .received e ∈ h.log → e ∈ F.events
  log_prefix : F.log <+: h.log

def StopsSafe (F : Since) (e : Stop) (h : Handler) : Prop := HandlerInv F h ∧ e ≠ .panic .addVote

def Keeps (F : Since) {α : Type} (x : HandlerM α) : Prop :=
  Triple (HandlerInv F) x (fun _ => HandlerInv F) (StopsSafe F)

variable {F : Since} {env : HandlerEnv} {v : Vote} {α β : Type} {P : Handler → Prop}
  {R : β → Handler → Prop} {E : Stop → Handler → Prop} {h : Handler} {slot : ℕ} {f : α → HandlerM β}
  {x : HandlerM α}

lemma triple_check_bind {r : Except VotorPanic α} (hok : ∀ a, r = .ok a → Triple P (f a) R E)
    (herr : ∀ p, r = .error p → ∀ h, P h → E (.panic p) h) : Triple P (check r >>= f) R E := by
  cases r with
  | ok a => exact hok a rfl
  | error p => exact herr p rfl

lemma triple_fromRoot_bind {vh : VoteHistory} {a : α} (hP : ∀ h, P h → HandlerInv F h)
    (hok : vh.root ≤ slot → Triple P (f a) R (StopsSafe F)) :
    Triple P (check (vh.fromRoot slot a) >>= f) R (StopsSafe F) := by
  unfold VoteHistory.fromRoot
  split_ifs with h
  · exact hok h
  · exact fun s hs => ⟨hP s hs, by simp⟩

lemma triple_send {outlet : Outlet} (hP : ∀ h, P h → HandlerInv F h) :
    Triple P (send env outlet) (fun _ => P) (StopsSafe F) :=
  ite (fun _ => pure fun _ hs => hs)
    fun _ => throw fun h hs => ⟨hP h hs, by simp⟩

lemma Triple.keeps {Q : α → Handler → Prop} (hx : Triple P x Q (StopsSafe F))
    (hQ : ∀ a h, Q a h → HandlerInv F h) : Triple P x (fun _ => HandlerInv F) (StopsSafe F) :=
  hx.conseq (fun _ hs => hs) hQ

/-- Entries that tell of no vote, no message to the pool and no new event. -/
def HandlerLog.IsQuiet (events : List VotorEvent) : HandlerLog → Prop
  | .cast _ | .ownVote _ _ => False
  | .received e => e ∈ events
  | _ => True

lemma HandlerInv.quiet (hI : HandlerInv F h) {e : HandlerLog} (he : e.IsQuiet F.events) :
    HandlerInv F { h with log := h.log ++ [e] } := by
  have hc : casts [e] = [] := by
    cases e <;> first | rfl | exact he.elim
  refine ⟨hI.safe.quiet hc, hI.asked.quiet hc ?_ ?_, hI.sync.quiet hc, hI.root_le, hI.myPubkey,
    hI.nodePubkey, fun msg r hm => ?_, fun x hx => ?_,
    hI.log_prefix.trans (prefix_append _ _)⟩
  · rintro msg r rfl
    exact he.elim
  · rintro msg rfl
    exact he.elim
  · rcases mem_append.1 hm with hm | hm
    · exact hI.sent msg r hm
    · rw [← mem_singleton.1 hm] at he
      exact he.elim
  · rcases mem_append.1 hx with hx | hx
    · exact hI.received x hx
    · rw [← mem_singleton.1 hx] at he
      exact he

lemma keeps_record {e : HandlerLog} (he : e.IsQuiet F.events) : Keeps F (record e) :=
  modify fun _ hI => hI.quiet he

lemma HandlerInv.congr {h' : Handler} (hI : HandlerInv F h) (hlog : h'.log = h.log)
    (hvh : h'.voteHistory = h.voteHistory) (hroot : h'.root = h.root)
    (hkey : h'.myPubkey = h.myPubkey) : HandlerInv F h' := by
  obtain ⟨hsafe, hasked, hsync, hle, hme, hnode, hsent, hrec, hpre⟩ := hI
  refine ⟨hlog ▸ hsafe, hlog ▸ hasked, ?_, ?_, hkey ▸ hme, hvh ▸ hnode, hlog ▸ hsent, hlog ▸ hrec,
    hlog ▸ hpre⟩
  · rw [hlog, hvh]
    exact hsync
  · rw [hvh, hroot]
    exact hle

lemma keeps_pure {a : α} : Keeps F (pure a) := pure fun _ hI => hI

lemma Keeps.bind (hx : Keeps F x) (hf : ∀ a, Keeps F (f a)) : Keeps F (x >>= f) :=
  Triple.bind hx hf

lemma keeps_send {outlet : Outlet} : Keeps F (send env outlet) := triple_send fun _ hI => hI

lemma keeps_get_bind {f : Handler → HandlerM β}
    (hf : ∀ h0, HandlerInv F h0 → Triple (· = h0) (f h0) (fun _ => HandlerInv F) (StopsSafe F)) :
    Keeps F (get >>= f) :=
  get_bind hf

lemma Keeps.of_eq (hx : Keeps F x) {h0 : Handler} (hI : HandlerInv F h0) :
    Triple (· = h0) x (fun _ => HandlerInv F) (StopsSafe F) :=
  hx.conseq (fun _ hh => hh ▸ hI) fun _ _ hs => hs

lemma parentAllows_error {vh : VoteHistory} {parent : Block} {p : VotorPanic}
    (h : parentAllows vh slot parent = .error p) : p = .voteHistoryRoot := by
  unfold parentAllows at h
  unfold VoteHistory.getVotedNotar VoteHistory.fromRoot at h
  split_ifs at h <;> cases h
  rfl

lemma rootable_spec {block : Block} :
    match rootable env h block with
    | .ok b => b = true → h.root < block.1
    | .error p => p = .voteHistoryRoot := by
  unfold rootable VoteHistory.hasVoted VoteHistory.fromRoot
  rcases env.banks block.1 with _ | bank
  · exact nofun
  · by_cases hroot : h.root < block.1 <;> simp only [hroot, if_true]
    · split_ifs
      · exact fun _ => trivial
      · rfl
    · exact nofun

lemma keeps_checkRootableBlocks : Keeps F (checkRootableBlocks env) := by
  refine keeps_get_bind fun h0 hI => ?_
  have hspec := @filterM_spec _ _ (rootable env h0) h0.finalizedBlocks
  refine triple_check_bind (fun blocks hblocks => ?_) fun p hp h hh => ?_
  · rw [hblocks] at hspec
    split
    · exact keeps_pure.of_eq hI
    rename_i newRoot hmax
    obtain ⟨block, hblock, rfl⟩ := mem_map.1 (max?_mem hmax)
    have hlt : h0.root < block.1 := by
      have := @rootable_spec env h0 block
      rw [hspec block hblock] at this
      exact this rfl
    rintro h rfl
    exact { hI with sync := hI.sync.setRoot (hI.root_le.trans hlt.le), root_le := le_rfl }
  · rw [hp] at hspec
    obtain ⟨block, -, hblock⟩ := hspec
    have := @rootable_spec env h0 block
    rw [hblock] at this
    exact ⟨hh ▸ hI, by simp [show p = .voteHistoryRoot from this]⟩

lemma HandlerInv.addParentReady (hI : HandlerInv F h) (slot : ℕ) (parent : Block) :
    HandlerInv F { h with voteHistory := (h.voteHistory.addParentReady slot parent).1 } := by
  unfold VoteHistory.addParentReady
  split_ifs
  · exact hI
  · split <;> exact { hI with sync := { hI.sync with } }

lemma HandlerInv.addBlockNotarized (hI : HandlerInv F h) {block : Block}
    (hblock : .received (.blockNotarized block) ∈ h.log) :
    HandlerInv F { h with voteHistory := h.voteHistory.addBlockNotarized block } := by
  unfold VoteHistory.addBlockNotarized
  split_ifs
  · exact hI
  · refine { hI with sync := { hI.sync with notarizedBlocks := fun b hb => ?_ } }
    rcases mem_cons.1 hb with rfl | hb
    · exact hblock
    · exact hI.sync.notarizedBlocks b hb

lemma keeps_handleSetIdentity (hid : env.identity = F.me) : Keeps F (handleSetIdentity env) := by
  refine keeps_get_bind fun h0 hI => ?_
  rw [if_neg (by rw [hid, hI.myPubkey, hI.nodePubkey]; simp)]
  exact keeps_pure.of_eq hI

lemma keeps_requestRepair (block : Block) : Keeps F (requestRepair env block) :=
  keeps_send.bind fun _ => keeps_record trivial

lemma keeps_pushVotes : Keeps F (pushVotes env) := by
  refine keeps_get_bind fun h0 hI => Keeps.of_eq (forM_const fun msg _ => ?_) hI
  exact keeps_send.bind fun _ => keeps_record trivial

lemma HandlerInv.mono (hI : HandlerInv F h) {events : List VotorEvent} {log : List HandlerLog}
    (hevents : F.events ⊆ events) (hlog : log <+: F.log) :
    HandlerInv { F with events, log } h :=
  { hI with
    received := fun e he => hevents (hI.received e he)
    log_prefix := hlog.trans hI.log_prefix }

def Cast (F : Since) (C : List Vote) (r : ℕ) (h : Handler) : Prop :=
  HandlerInv F h ∧ casts h.log = C ∧ h.root = r

section Commands

variable (henv : env.Sends F.own)
include henv

/-- Sending the message of a vote that was cast; that of one just cast is its first. -/
lemma sendVote_triple {C : List Vote} {r : ℕ} (isRefresh : Bool) (hv : v ∈ C) :
    Triple (fun h => Cast F C r h ∧ (isRefresh = false →
        ∀ msg b, .ownVote msg b ∈ h.log → msg.vote ≠ v))
      (sendVote env v isRefresh) (fun _ => Cast F C r) (StopsSafe F) := by
  unfold sendVote
  split
  · rename_i rank htx
    refine bind (triple_send fun _ hs => hs.1.1) fun _ => ?_
    refine bind (Q := fun _ => Cast F C r) ?_ fun _ => ?_
    · rintro h ⟨⟨hI, hC, hr⟩, honce⟩
      refine ⟨⟨hI.safe.quiet rfl, hI.asked.quiet rfl ?_ ?_, hI.sync.quiet rfl, hI.root_le,
        hI.myPubkey, hI.nodePubkey, fun msg b hm => ?_, fun x hx => ?_,
        hI.log_prefix.trans (prefix_append _ _)⟩, (casts_snoc rfl).trans hC, hr⟩
      · rintro msg b heq
        cases heq
        rw [hC]
        exact hv
      · rintro msg heq
        cases heq
        exact honce rfl
      · rcases mem_append.1 hm with hm | hm
        · exact hI.sent msg b hm
        · cases mem_singleton.1 hm
          exact henv v rank htx
      · exact hI.received x (by simpa using hx)
    · refine bind (triple_send fun _ hs => hs.1) fun _ => ?_
      exact modify fun h hs => ⟨hs.1.congr rfl rfl rfl rfl, hs.2⟩
  · exact pure fun _ hs => hs.1

theorem generateVoteMessage_triple {h0 : Handler} (hI : HandlerInv F h0)
    (hroot : h0.voteHistory.root ≤ v.slot) (hv : MayCast h0.log v) :
    Triple (· = h0) (generateVoteMessage env v false)
      (fun _ => Cast F (casts h0.log ++ [v]) h0.root) (StopsSafe F) := by
  refine bind ?_ fun _ => sendVote_triple henv false (by simp)
  refine get_bind ?_
  rintro h rfl
  refine triple_check_bind (fun vh' hadd => ?_) fun p hp => ?_
  · obtain ⟨hmay, hvh'⟩ := VoteHistory.addVote_ok hadd
    refine bind (Q := fun _ h' => h' = { h with voteHistory := vh' }) ?_ fun _ => ?_
    · exact modify fun s hs => by rw [hs]
    rintro s rfl
    refine ⟨⟨⟨hI.safe.cast hv, hI.asked.cast hv, hI.sync.cast hadd, ?_, hI.myPubkey, ?_,
      fun msg b hm => hI.sent msg b (by simpa using hm),
      fun x hx => hI.received x (by simpa using hx), hI.log_prefix.trans (prefix_append _ _)⟩,
      by simp, rfl⟩, fun _ msg b hm => ?_⟩
    · rw [hvh']
      exact VoteHistory.insertVote_root.trans_le hI.root_le
    · rw [hvh']
      exact VoteHistory.insertVote_nodePubkey.trans hI.nodePubkey
    · rintro rfl
      exact hv.not_mem (hI.asked.sent msg b (by simpa using hm))
  · unfold VoteHistory.addVote at hp
    rw [if_pos (hI.sync.mayAdd hroot hv)] at hp
    cases hp

lemma keeps_tryFinal (block : Block) : Keeps F (tryFinal env block) := by
  refine keeps_get_bind fun h0 hI => ?_
  have hinv : ∀ h, h = h0 → HandlerInv F h := fun h hh => hh ▸ hI
  refine ite (fun _ => pure hinv) fun hnot => ?_
  refine triple_fromRoot_bind hinv fun hroot => ?_
  refine ite (fun _ => pure hinv) fun hover => ?_
  refine triple_fromRoot_bind hinv fun _ => ?_
  refine ite (fun _ => pure hinv) fun hbad => ?_
  refine triple_fromRoot_bind hinv fun _ => ?_
  refine ite (fun _ => pure hinv) fun hnotar => ?_
  refine keeps (generateVoteMessage_triple henv hI hroot ⟨?_, fun u hu hus hb => ?_, block.2,
    ?_, ?_⟩) fun _ _ hs => hs.1
  · simpa [hI.sync.itsOver _ hroot] using hover
  · simp at hbad
    exact hbad.1 ((hI.sync.skipped _ hroot).2 ⟨u, hu, hus, hb⟩)
  · exact (hI.sync.votedNotar _ _ hroot).1 (not_not.1 hnotar)
  · refine hI.sync.notarizedBlocks block ?_
    simpa [VoteHistory.isBlockNotarized] using hnot

lemma keeps_tryNotar (block parentBlock : Block) : Keeps F (tryNotar env block parentBlock) := by
  refine keeps_get_bind fun h0 hI => ?_
  have hinv : ∀ h, h = h0 → HandlerInv F h := fun h hh => hh ▸ hI
  refine triple_fromRoot_bind hinv fun hroot => ?_
  refine ite (fun _ => pure hinv) fun hvoted => ?_
  refine triple_check_bind (fun allows _ => ?_) fun p hp h hh => ?_
  · refine ite (fun _ => pure hinv) fun _ => ?_
    have hmay : MayCast h0.log (.notarize block.1 block.2) := by
      rw [decide_eq_true_eq, hI.sync.voted _ hroot] at hvoted
      exact hvoted
    refine bind (keeps (generateVoteMessage_triple henv hI hroot hmay) fun _ _ hs => hs.1)
      fun _ => ?_
    refine keeps_send.bind fun _ => Keeps.bind ?_ fun _ => Keeps.bind ?_ fun _ =>
      (keeps_tryFinal henv block).bind fun _ => keeps_pure
    · exact keeps_record trivial
    · exact modify fun h hI => hI.congr rfl rfl rfl rfl
  · rw [parentAllows_error hp]
    exact ⟨hinv h hh, by simp⟩

lemma keeps_checkPendingBlocks : Keeps F (checkPendingBlocks env) := by
  refine keeps_get_bind fun h0 hI => Keeps.of_eq (forM_const fun b _ => ?_) hI
  exact (keeps_tryNotar henv b.1 b.2).bind fun _ => keeps_pure

lemma trySkip_triple {r : ℕ} (done : List ℕ) (slot : ℕ) :
    Triple (fun h => HandlerInv F h ∧ h.root = r ∧ ∀ s ∈ done, VotedIn h.log s)
      (trySkip env slot)
      (fun _ h => HandlerInv F h ∧ h.root = r ∧ ∀ s ∈ done ++ [slot], VotedIn h.log s)
      (StopsSafe F) := by
  refine get_bind ?_
  rintro h0 ⟨hI, hr, hdone⟩
  refine triple_fromRoot_bind (fun h hh => hh ▸ hI) fun hroot => ?_
  refine ite (fun hvoted => ?_) fun hvoted => ?_ <;>
    rw [decide_eq_true_eq, hI.sync.voted slot hroot] at hvoted
  · rintro h rfl
    exact ⟨hI, hr, forall_mem_append.2 ⟨hdone, forall_mem_singleton.2 hvoted⟩⟩
  · have hmay : MayCast h0.log (.skip slot) := hvoted
    refine conseq (generateVoteMessage_triple henv hI hroot hmay) (fun _ hh => hh) ?_
    rintro - h ⟨hI', hC, hr'⟩
    unfold VotedIn
    rw [hC]
    refine ⟨hI', hr'.trans hr, forall_mem_append.2 ⟨fun s hs => ?_, forall_mem_singleton.2 ?_⟩⟩
    · obtain ⟨u, hu, hus⟩ := hdone s hs
      exact ⟨u, mem_append_left _ hu, hus⟩
    · exact ⟨.skip slot, by simp, rfl, .inr rfl⟩

lemma trySkipWindow_triple :
    Triple (fun h => HandlerInv F h ∧ h.root < slot) (trySkipWindow env slot)
      (fun _ h => HandlerInv F h ∧ VotedIn h.log slot) (StopsSafe F) := by
  refine get_bind ?_
  rintro h0 ⟨hI, hr⟩
  refine conseq (forM (I := fun done h => HandlerInv F h ∧ h.root = h0.root
    ∧ ∀ s ∈ done, VotedIn h.log s) fun done s _ => trySkip_triple henv done s) ?_ ?_
  · rintro h rfl
    exact ⟨hI, rfl, by simp⟩
  · rintro - h ⟨hI', -, hvoted⟩
    refine ⟨hI', hvoted slot ?_⟩
    have hw : firstOfConsecutiveLeaderSlots slot ≤ slot
        ∧ slot < firstOfConsecutiveLeaderSlots slot + 4 := by
      unfold firstOfConsecutiveLeaderSlots numConsecutiveLeaderSlots
      omega
    rw [mem_range'_1]
    unfold lastOfConsecutiveLeaderSlots numConsecutiveLeaderSlots
    omega

lemma keeps_refreshVotes (slot : ℕ) : Keeps F (refreshVotes env slot) := by
  refine keeps_get_bind fun h0 hI => ?_
  -- the loop casts nothing, so the votes of the history stay votes cast
  have hstart : ∀ h, h = h0 → Cast F (casts h0.log) h0.root h := by
    rintro h rfl
    exact ⟨hI, rfl, rfl⟩
  refine conseq (forM_const fun v hv => ?_) hstart fun _ _ hs => hs.1
  obtain ⟨⟨s, vs⟩, hmem, hv⟩ := mem_flatMap.1 hv
  have hcast := hI.sync.votesCast s vs (OrdMap.mem_entries.1 (mem_of_mem_filter hmem)) v hv
  exact (sendVote_triple henv true hcast).conseq (fun _ hs => ⟨hs, by simp⟩) fun _ _ hs => hs

lemma keeps_handleParentReadyEvent (slot : ℕ) (parent : Block) :
    Keeps F (handleParentReadyEvent env slot parent) := by
  refine keeps_get_bind fun h0 hI => ?_
  refine bind (Q := fun _ => HandlerInv F) ?_ fun _ => ?_
  · rintro h rfl
    exact hI.addParentReady slot parent
  refine (keeps_checkPendingBlocks henv).bind fun _ => Keeps.bind ?_ fun _ => ?_
  · exact ite (fun _ => keeps_record trivial) fun _ => keeps_pure
  · refine modify fun h hI => ?_
    split_ifs
    · exact hI.congr rfl rfl rfl rfl
    · exact hI

lemma keeps_handleMissingParentReady (slot : ℕ) (block : Block) :
    Keeps F (handleMissingParentReady env slot block) := by
  refine keeps_get_bind fun h0 hI => ?_
  split
  · exact keeps_pure.of_eq hI
  · exact (keeps_handleParentReadyEvent henv _ _).of_eq hI

lemma keeps_voteOrKeep (slot : ℕ) (block parent : Block) :
    Keeps F (voteOrKeep env slot block parent) := by
  refine (keeps_tryNotar henv block parent).bind fun voted => ?_
  refine ite (fun _ => keeps_checkPendingBlocks henv) fun _ => ?_
  refine keeps_get_bind fun h0 hI => triple_fromRoot_bind (fun h hh => hh ▸ hI) fun _ => ?_
  refine ite (fun _ => keeps_pure.of_eq hI) fun _ => modify ?_
  rintro h rfl
  exact hI.congr rfl rfl rfl rfl

lemma keeps_handleBlock (slot : ℕ) (bank : ReplayBank) : Keeps F (handleBlock env slot bank) := by
  refine keeps_send.bind fun _ => ?_
  split
  · exact throw fun h hI => ⟨hI, by simp⟩
  · exact (keeps_voteOrKeep henv _ _ _).bind fun _ => keeps_checkRootableBlocks.bind fun _ =>
      keeps_handleMissingParentReady henv _ _

lemma keeps_handleFinalized (block : Block) (fast : Bool) :
    Keeps F (handleEvent env (.finalized block fast)) := by
  refine Keeps.bind ?_ fun _ => (keeps_requestRepair block).bind fun _ =>
    keeps_checkRootableBlocks.bind fun _ => Keeps.bind ?_ fun _ =>
    (keeps_handleMissingParentReady henv _ _).bind fun _ => keeps_send
  · exact modify fun h hI => hI.congr rfl rfl rfl rfl
  · refine modify fun h hI => ?_
    split_ifs
    · exact hI.congr rfl rfl rfl rfl
    · exact hI

/-- A fallback vote: the window is skipped and then the vote is cast, unless the slot is over or the
vote was cast before. -/
lemma keeps_fallback {c : Handler → Bool}
    (hmay : ∀ h, HandlerInv F h → h.voteHistory.root ≤ v.slot → VotedIn h.log v.slot →
      .finalize v.slot ∉ casts h.log → ¬ c h = true → MayCast h.log v) :
    Triple (fun h => HandlerInv F h ∧ h.root < v.slot)
      (do
        trySkipWindow env v.slot
        let h ← get
        if ← check (h.voteHistory.isItsOver v.slot) then pure ()
        else if ← check (h.voteHistory.fromRoot v.slot (c h)) then pure ()
        else generateVoteMessage env v false)
      (fun _ => HandlerInv F) (StopsSafe F) := by
  refine bind (trySkipWindow_triple henv) fun _ => get_bind ?_
  rintro h0 ⟨hI, hvoted⟩
  have hinv : ∀ h, h = h0 → HandlerInv F h := fun h hh => hh ▸ hI
  refine triple_fromRoot_bind hinv fun hroot => ?_
  refine ite (fun _ => pure hinv) fun hover => ?_
  refine triple_fromRoot_bind hinv fun _ => ?_
  refine ite (fun _ => pure hinv) fun hcast => ?_
  rw [decide_eq_true_eq, hI.sync.itsOver _ hroot] at hover
  exact keeps (generateVoteMessage_triple henv hI hroot (hmay h0 hI hroot hvoted hover hcast))
    fun _ _ hs => hs.1

lemma keeps_skipUnless {c : Handler → Bool} :
    Triple (fun h => HandlerInv F h ∧ h.root < slot)
      (do
        let h ← get
        if (← check (h.voteHistory.hasVoted slot)) || c h then pure () else trySkipWindow env slot)
      (fun _ => HandlerInv F) (StopsSafe F) := by
  refine get_bind ?_
  rintro h0 ⟨hI, hr⟩
  refine triple_fromRoot_bind (fun h hh => hh ▸ hI) fun _ => ?_
  refine ite (fun _ => keeps_pure.of_eq hI) fun _ => ?_
  refine conseq (trySkipWindow_triple henv) ?_ fun _ _ hs => hs.1
  rintro h rfl
  exact ⟨hI, hr⟩

theorem handleEvent_triple {e : VotorEvent} (hrec : .received e ∈ F.log)
    (hid : e = .setIdentity → env.identity = F.me) :
    Triple (fun h => HandlerInv F h ∧ e.shouldIgnore h.root = false) (handleEvent env e)
      (fun _ => HandlerInv F) (StopsSafe F) := by
  have hkeeps : Keeps F (handleEvent env e) → Triple (fun h => HandlerInv F h
      ∧ e.shouldIgnore h.root = false) (handleEvent env e) (fun _ => HandlerInv F) (StopsSafe F) :=
    fun h => h.conseq (fun _ hs => hs.1) fun _ _ hs => hs
  have hslot : ∀ {slot}, (∀ root, e.shouldIgnore root = decide (slot ≤ root)) → ∀ h,
      HandlerInv F h ∧ e.shouldIgnore h.root = false → HandlerInv F h ∧ h.root < slot := by
    intro slot he h hs
    rw [he, decide_eq_false_iff_not, not_le] at hs
    exact hs
  cases e with
  | block slot bank => exact hkeeps (keeps_handleBlock henv slot bank)
  | blockNotarized block =>
    refine hkeeps (Keeps.bind ?_ fun _ => (keeps_tryFinal henv block).bind fun _ =>
      keeps_requestRepair block)
    exact modify fun h hI => hI.addBlockNotarized (hI.log_prefix.subset hrec)
  | blockNotarFallback block => exact hkeeps (keeps_requestRepair block)
  | firstShred slot => exact hkeeps (modify fun h hI => hI.congr rfl rfl rfl rfl)
  | parentReady slot parent =>
    exact hkeeps (keeps_send.bind fun _ => keeps_handleParentReadyEvent henv slot parent)
  | timeoutCrashedLeader slot =>
    exact conseq (keeps_skipUnless henv) (hslot fun _ => rfl) fun _ _ hs => hs
  | timeout slot =>
    refine conseq (bind (Q := fun _ h => HandlerInv F h ∧ h.root < slot) ?_
      fun _ => ?_) (hslot fun _ => rfl) fun _ _ hs => hs
    · exact ite (fun _ => triple_send fun _ hs => hs.1)
        fun _ => pure fun _ hs => hs
    · simpa using keeps_skipUnless henv (c := fun _ => false)
  | safeToNotar block =>
    refine conseq (keeps_fallback henv (v := .notarizeFallback block.1 block.2)
      fun h hI hroot hvoted hover hcast => ?_) (hslot fun _ => rfl) fun _ _ hs => hs
    rw [hI.sync.votedNotarFallback block.1 _ hroot] at hcast
    exact ⟨hover, hvoted, hcast, hI.log_prefix.subset hrec⟩
  | safeToSkip slot =>
    refine conseq (keeps_fallback henv (v := .skipFallback slot)
      fun h hI hroot hvoted hover hcast => ?_) (hslot fun _ => rfl) fun _ _ hs => hs
    rw [decide_eq_true_eq, hI.sync.votedSkipFallback slot hroot] at hcast
    exact ⟨hover, hvoted, hcast, hI.log_prefix.subset hrec⟩
  | produceWindow slot =>
    refine hkeeps (ite (fun _ => keeps_record trivial) fun _ => throw fun h hI => ?_)
    exact ⟨hI, by simp⟩
  | finalized block fast => exact hkeeps (keeps_handleFinalized henv block fast)
  | standstill slot =>
    refine hkeeps (Keeps.bind ?_ fun _ => keeps_refreshVotes henv slot)
    exact modify fun h hI => hI.congr rfl rfl rfl rfl
  | setIdentity => exact hkeeps (keeps_handleSetIdentity (hid rfl))

end Commands

theorem keeps_turn {e : VotorEvent × HandlerEnv} (henv : e.2.Sends F.own) (he : e.1 ∈ F.events)
    (hid : e.1 = .setIdentity → e.2.identity = F.me) : Keeps F (turn e) := by
  refine keeps_get_bind fun h0 hI => ?_
  refine ite (fun _ => keeps_pure.of_eq hI) fun hignore => ?_
  let F' : Since := { F with log := h0.log ++ [.received e.1] }
  have hback : ∀ h, HandlerInv F' h → HandlerInv F h := fun h hI' =>
    hI'.mono (List.Subset.refl _) (hI.log_prefix.trans (prefix_append _ _))
  have hstart : HandlerInv F' { h0 with votes := [], log := h0.log ++ [.received e.1] } := by
    exact { hI.quiet (e := .received e.1) he with log_prefix := prefix_refl _ }
  suffices Triple (· = h0) _ (fun _ => HandlerInv F) (StopsSafe F') from
    this.conseq_error fun _ h hs => ⟨hback h hs.1, hs.2⟩
  refine bind (Q := fun _ h => h = { h0 with votes := [] }) ?_ fun _ => ?_
  · exact modify fun h hh => by rw [hh]
  refine bind (Q := fun _ h => HandlerInv F' h ∧ e.1.shouldIgnore h.root = false) ?_
    fun _ => ?_
  · rintro h rfl
    exact ⟨hstart, by simpa using hignore⟩
  refine bind (handleEvent_triple (F := F') henv (by simp [F']) hid) fun _ => ?_
  exact conseq keeps_pushVotes (fun _ hs => hs) fun _ h hs => hback h hs

lemma handlerInv_new (me : Pubkey) (own : VoteMessage → Prop) (root : ℕ)
    (events : List VotorEvent) : HandlerInv ⟨me, own, events, []⟩ (.new me root) := by
  refine ⟨⟨by simp [new, casts], by simp [new, casts], fun before slot h => ?_,
    by simp [new, casts]⟩, ⟨nodup_nil, by simp [new, casts], by simp [new, casts],
    by simp [new, casts], by simp [new], fun before msg h => ?_⟩, ?_, Nat.zero_le _, rfl, rfl,
    by simp [new], by simp [new], prefix_refl _⟩
  · simp [new] at h
  · simp [new] at h
  · constructor <;> simp [new, VoteHistory.new, casts, VotedIn]

/-- However a node's event loop goes, its votes are safe: in a slot it casts one notarization or one
skip vote, a finalization vote only once, after it has voted for a block of the slot that was then
notarized, and never with a skip or fallback vote. No assertion of `addVote` fails. -/
theorem eventLoop_votesSafe (me : Pubkey) (root : ℕ) (events : List (VotorEvent × HandlerEnv))
    (hid : ∀ e ∈ events, e.1 = .setIdentity → e.2.identity = me) :
    match eventLoop events (.new me root) with
    | .ok _ h => VotesSafe h.log
    | .error e h => VotesSafe h.log ∧ e ≠ .panic .addVote := by
  have hloop : Keeps ⟨me, fun _ => True, events.map (·.1), []⟩ (eventLoop events) :=
    forM_const fun e he =>
      keeps_turn (fun _ _ _ => trivial) (mem_map_of_mem he) (hid e he)
  have hend := hloop _ (handlerInv_new me _ root _)
  rcases hr : eventLoop events (.new me root) with ⟨u, h⟩ | ⟨e, h⟩ <;> rw [hr] at hend
  · exact hend.safe
  · exact ⟨hend.1.safe, hend.2⟩

/-- All channels are open and every vote gets a message; `stored` is the stored vote history. -/
def votingEnv (identity : Pubkey) (stored : Option VoteHistory) : HandlerEnv where
  generateVoteTx := fun _ => .consensusMessage 0
  connected := fun _ => true
  banks := fun _ => none
  identity := identity
  restore := fun _ => stored

def notarizeFirst (me : Pubkey) : List (VotorEvent × HandlerEnv) :=
  [(.parentReady 1 (0, 0), votingEnv me none),
    (.block 1 ⟨1, some 5, 0, none, true, none⟩, votingEnv me none)]

def finalizeFirst : List (VotorEvent × HandlerEnv) :=
  notarizeFirst 1 ++ [(.blockNotarized (1, 5), votingEnv 1 none), (.setIdentity, votingEnv 1 none),
    (.safeToSkip 1, votingEnv 1 none)]

theorem eventLoop_votesSafe_finalized : ∃ h, eventLoop finalizeFirst (.new 1 0) = .ok () h
    ∧ casts h.log = [.notarize 1 5, .finalize 1, .skip 2, .skip 3] ∧ VotesSafe h.log :=
  ⟨_, rfl, by decide, eventLoop_votesSafe 1 0 finalizeFirst (by decide)⟩

/-- Set to another identity and back, with a stored vote history that misses the last vote, a node
votes skip for a slot it has notarized a block of. -/
theorem notarize_then_skip_after_restore : ∃ h,
    eventLoop (notarizeFirst 1 ++ [(.setIdentity, votingEnv 2 (some (.new 2 0))),
      (.setIdentity, votingEnv 1 (some (.new 1 0))), (.timeout 1, votingEnv 1 none)]) (.new 1 0)
      = .ok () h
    ∧ casts h.log = [.notarize 1 5, .skip 1, .skip 2, .skip 3] ∧ ¬ VotesSafe h.log := by
  refine ⟨_, rfl, by decide, fun hsafe => ?_⟩
  have := hsafe.first 1
  revert this
  decide

end BlackBull
