import BlackBull.Poh.RecordChannels

/-!
# What the record channel guarantees

A sender counts itself as active before it reserves room, and until its record is in the channel. So
once the channel is shut down and no sender is seen active, nothing more can come.
-/

namespace BlackBull.RecordChannel

open List State Function

variable {T : Type} [DecidableEq T] {tracking : Bool} {s s' : State T} {t : T}

lemma bankId_eq (value : ℕ) : bankId value = value / 2 ^ 10 % 2 ^ 54 := by
  unfold bankId allowedInsertionsBits disabledBankId bankIdBits allowedInsertionsBits
  rw [Nat.shiftRight_eq_div_pow, Nat.and_two_pow_sub_one_eq_mod]

lemma allowedInsertions_eq (value : ℕ) : allowedInsertions value = value % 2 ^ 10 := by
  unfold allowedInsertions maxAllowedInsertions allowedInsertionsBits
  rw [Nat.and_two_pow_sub_one_eq_mod]

lemma encodedValue_ok {b a w : ℕ} :
    encodedValue b a = .ok w ↔ b ≤ 2 ^ 54 - 1 ∧ a ≤ 2 ^ 10 - 1 ∧ w = b * 2 ^ 10 + a := by
  have hor (ha : a ≤ 2 ^ 10 - 1) : b <<< 10 ||| a = b * 2 ^ 10 + a := by
    rw [Nat.shiftLeft_eq, Nat.mul_comm]
    exact (Nat.two_pow_add_eq_or_of_lt (by omega) b).symm
  unfold encodedValue disabledBankId bankIdBits maxAllowedInsertions allowedInsertionsBits
  split_ifs with h
  · rw [Except.ok.injEq, hor h.2]
    exact ⟨fun hw => ⟨h.1, h.2, hw.symm⟩, fun hw => hw.2.2.symm⟩
  · exact ⟨nofun, fun hw => absurd ⟨hw.1, hw.2.1⟩ h⟩

lemma shutdownValue_eq : shutdownValue = disabledBankId * 2 ^ 10 := by decide

lemma disabledBankId_eq : disabledBankId = 2 ^ 54 - 1 := rfl

def SenderPc.pushed : SenderPc → Option Record
  | .sent r => some r
  | .finish r => some r
  | _ => none

def SenderPc.active : SenderPc → ℕ
  | .exchange _ _ => 1
  | .retry _ => 1
  | .send _ => 1
  | .sent _ => 1
  | _ => 0

def SenderPc.holds : SenderPc → Bool
  | .idle => false
  | .lock _ => false
  | _ => true

inductive Moves (s : State T) : ReceiverPc T → Prop
  | begin {c : Caller} (h : s.receiver = .idle) : Moves s (.receive c)
  | wait (h : s.receiver = .idle) : Moves s .wait
  | nothing {c : Caller} (h : s.receiver = .receive c) : Moves s (.checkSenders c)
  | spin {c : Caller} (h : s.receiver = .checkSenders c) : Moves s (.receive c)
  | again {c : Caller} (h : s.receiver = .checkSenders c) (hactive : s.activeSenders = 0) :
      Moves s (.receiveAgain c)
  | next (h : s.receiver = .between) : Moves s (.receive .drain)
  | timeout (h : s.receiver = .wait) : Moves s .idle
  | leave (h : s.receiver = .between) : Moves s .idle
  | restart {bank : ℕ} (h : s.receiver = .idle) (hphase : s.phase = .drained)
      (hbank : bank ≤ maxBankId) : Moves s (.restartLock bank)

inductive Step (tracking : Bool) (s : State T) : State T → Prop
  | call {t : T} {r : Record} (h : s.senders t = .idle) (hr : 1 ≤ r.numTransactions) :
      Step tracking s (s.setSender t (.lock r))
  | lock {t : T} {r : Record} (h : s.senders t = .lock r) (hfree : tracking → s.lock = none) :
      Step tracking s { s.setSender t (.load r) with
                        lock := if tracking then some (some t) else s.lock }
  | refuse {t : T} {r : Record} (h : s.senders t = .load r) : Step tracking s (s.endCall t)
  | accept {t : T} {r : Record} (h : s.senders t = .load r) (hne : bankId s.word ≠ disabledBankId)
      (hbank : bankId s.word = r.bankId) (hroom : r.numBatches ≤ allowedInsertions s.word) :
      Step tracking s (s.setSender t (.count r s.word))
  | count {t : T} {r : Record} {current : ℕ} (h : s.senders t = .count r current) :
      Step tracking s { s.setSender t (.exchange r current) with
                        activeSenders := s.activeSenders + 1 }
  | exchange {t : T} {r : Record} {new : ℕ} (h : s.senders t = .exchange r s.word)
      (hnew : encodedValue (bankId s.word)
        ((allowedInsertions s.word + 2 ^ 64 - r.numBatches) % 2 ^ 64) = .ok new) :
      Step tracking s { s.setSender t (.send r) with word := new }
  | fail {t : T} {r : Record} {current : ℕ} (h : s.senders t = .exchange r current) :
      Step tracking s (s.setSender t (.retry r))
  | retry {t : T} {r : Record} (h : s.senders t = .retry r) :
      Step tracking s { s.setSender t (.lock r) with
                        activeSenders := s.activeSenders - 1
                        lock := none }
  | send {t : T} {r : Record} (h : s.senders t = .send r) :
      Step tracking s (s.push t r)
  | sent {t : T} {r : Record} (h : s.senders t = .sent r) :
      Step tracking s { s.setSender t (.finish r) with activeSenders := s.activeSenders - 1 }
  | finish {t : T} {r : Record} (h : s.senders t = .finish r) :
      Step tracking s (s.finish tracking t r)
  | move {pc : ReceiverPc T} (h : Moves s pc) : Step tracking s { s with receiver := pc }
  | take {c : Caller} {e : Sent T} {queue : List (Sent T)} (h : s.taken = [])
      (hqueue : s.queue = e :: queue) (hreceiver : ∀ bank, s.receiver ≠ .restartStore bank) :
      Step tracking s { s with queue, receiver := .credit c e }
  | empty {c : Caller} (h : s.receiver = .receiveAgain c) (hqueue : s.queue = []) :
      Step tracking s (s.empty c)
  | credit {c : Caller} {e : Sent T} (h : s.receiver = .credit c e) :
      Step tracking s (s.credit c e)
  | shutdown (h : s.receiver = .idle) : Step tracking s s.shutdown
  | restartLock {bank : ℕ} (h : s.receiver = .restartLock bank) (hfree : tracking → s.lock = none) :
      Step tracking s { s with
                        lock := if tracking then some none else s.lock
                        transactionIndex := if tracking then 0 else s.transactionIndex
                        receiver := .restartStore bank }
  | restartStore {bank word : ℕ} (h : s.receiver = .restartStore bank)
      (hword : encodedValue bank capacity = .ok word) :
      Step tracking s (s.reopen tracking bank word)
  | restartUnlock (h : s.receiver = .restartUnlock) :
      Step tracking s { s with lock := none, receiver := .idle }

lemma senderStep_cases (h : senderStep tracking s t = .ok s') : Step tracking s s' := by
  unfold senderStep at h
  split at h
  · cases h
  · next r hr =>
    split_ifs at h with ht hl
    · cases h
      have := @Step.lock _ _ tracking s t r hr fun _ => hl
      rwa [if_pos ht] at this
    · cases h
      have := @Step.lock _ _ tracking s t r hr fun h => absurd h ht
      rwa [if_neg ht] at this
  · next r hr =>
    split_ifs at h with h1 h2 h3
    · cases h
      exact .refuse hr
    · cases h
      exact .refuse hr
    · cases h
      exact .refuse hr
    · cases h
      exact .accept hr h1 (not_not.1 h2) (not_lt.1 h3)
  · next r current hr =>
    cases h
    exact .count hr
  · next r current hr =>
    obtain ⟨new, hnew, h⟩ := Except.bind_eq_ok.1 h
    split_ifs at h with hw
    · cases h
      subst hw
      exact .exchange hr hnew
    · cases h
      exact .fail hr
  · next r hr =>
    cases h
    exact .retry hr
  · next r hr =>
    split_ifs at h
    cases h
    exact .send hr
  · next r hr =>
    cases h
    exact .sent hr
  · next r hr =>
    cases h
    exact .finish hr

lemma receiverStep_cases (h : receiverStep tracking s = .ok s') : Step tracking s s' := by
  unfold receiverStep at h
  split at h
  · cases h
  · next c hr =>
    split at h
    · next e queue hq =>
      cases h
      exact .take (by rw [taken, hr]) hq (by rw [hr]; exact nofun)
    · cases h
      exact .move (.nothing hr)
  · next c hr =>
    split_ifs at h with ha
    · cases h
      exact .move (.spin hr)
    · cases h
      exact .move (.again hr (not_not.1 ha))
  · next c hr =>
    split at h
    · next e queue hq =>
      cases h
      exact .take (by rw [taken, hr]) hq (by rw [hr]; exact nofun)
    · next hq =>
      cases h
      exact .empty hr hq
  · next c e hr =>
    cases h
    exact .credit hr
  · next hr =>
    cases h
    exact .move (.next hr)
  · next hr =>
    split at h
    · next e queue hq =>
      cases h
      exact .take (by rw [taken, hr]) hq (by rw [hr]; exact nofun)
    · cases h
  · next bank hr =>
    split_ifs at h with ht hl
    · cases h
      have := @Step.restartLock _ _ tracking s bank hr fun _ => hl
      rwa [if_pos ht, if_pos ht] at this
    · cases h
      have := @Step.restartLock _ _ tracking s bank hr fun h => absurd h ht
      rwa [if_neg ht, if_neg ht] at this
  · next bank hr =>
    obtain ⟨word, hword, h⟩ := Except.bind_eq_ok.1 h
    cases h
    exact .restartStore hr hword
  · next hr =>
    cases h
    exact .restartUnlock hr

omit [DecidableEq T] in
lemma whenIdle_ok {x : Except Stop (State T)} :
    s.whenIdle x = .ok s' ↔ s.receiver = .idle ∧ x = .ok s' := by
  unfold whenIdle
  split
  · next h => exact ⟨fun hx => ⟨h, hx⟩, fun hx => hx.2⟩
  · next h => exact ⟨nofun, fun hx => absurd hx.1 h⟩

lemma step_cases {a : Action T} (h : step tracking s a = .ok s') : Step tracking s s' := by
  cases a with
  | call t r =>
    dsimp only [step] at h
    split at h
    · next hidle =>
      split_ifs at h with hr
      cases h
      exact .call hidle (by omega)
    · cases h
  | sender t => exact senderStep_cases h
  | tryRecv | drain =>
    obtain ⟨hidle, h⟩ := whenIdle_ok.1 h
    cases h
    exact .move (.begin hidle)
  | recvTimeout =>
    obtain ⟨hidle, h⟩ := whenIdle_ok.1 h
    cases h
    exact .move (.wait hidle)
  | shutdown =>
    obtain ⟨hidle, h⟩ := whenIdle_ok.1 h
    cases h
    exact .shutdown hidle
  | restart bank =>
    obtain ⟨hidle, h⟩ := whenIdle_ok.1 h
    split_ifs at h with hphase hbank hqueue
    cases h
    exact .move (.restart hidle (not_not.1 hphase) hbank)
  | receiver => exact receiverStep_cases h
  | timeout =>
    dsimp only [step] at h
    split at h
    · next hr =>
      cases h
      exact .move (.timeout hr)
    · cases h
  | leaveDrain =>
    dsimp only [step] at h
    split at h
    · next hr =>
      cases h
      exact .move (.leave hr)
    · cases h

lemma sum_update [Fintype T] (g : SenderPc → ℕ) (f : T → SenderPc) (t : T) (pc : SenderPc) :
    ∑ u, g (update f t pc u) + g (f t) = ∑ u, g (f u) + g pc := by
  have hrest : ∑ u ∈ Finset.univ.erase t, g (update f t pc u)
      = ∑ u ∈ Finset.univ.erase t, g (f u) := by
    refine Finset.sum_congr rfl fun u hu => ?_
    rw [update_of_ne (Finset.ne_of_mem_erase hu)]
  rw [← Finset.add_sum_erase Finset.univ _ (Finset.mem_univ t), hrest,
    ← Finset.add_sum_erase Finset.univ (fun u => g (f u)) (Finset.mem_univ t), update_self]
  omega

/-- A record has a transaction, and the word that was loaded for it has its bank and room for it. -/
def SenderPc.Loaded : SenderPc → Prop
  | .idle => True
  | .lock r | .load r | .retry r | .send r | .sent r | .finish r => 1 ≤ r.numTransactions
  | .count r current | .exchange r current => 1 ≤ r.numTransactions ∧ bankId current = r.bankId
    ∧ r.bankId ≠ disabledBankId ∧ r.numBatches ≤ allowedInsertions current

lemma Record.one_le_numBatches {r : Record} (h : 1 ≤ r.numTransactions) : 1 ≤ r.numBatches := by
  rcases r with ⟨bank, _ | ⟨n, ns⟩⟩
  · exact absurd h (Nat.not_succ_le_zero 0)
  · exact Nat.succ_le_succ (Nat.zero_le _)

variable [Fintype T]

/-- The counters count, and no sender can still come once a drain has ended. -/
structure Counts (s : State T) : Prop where
  active : s.activeSenders = ∑ t, (s.senders t).active
  word : ∃ a, s.word = s.phaseBank * 2 ^ 10 + a ∧ a + s.reserved ≤ capacity
    ∧ (s.phase = .opened → a + s.reserved = capacity)
  bank_le : s.bank ≤ maxBankId
  loaded : ∀ t, (s.senders t).Loaded
  sending : ∀ t r, s.senders t = .send r → r.bankId = s.bank ∧ s.phase ≠ .drained
  again : ∀ c, s.receiver = .receiveAgain c → s.phase = .shut → ∀ t r, s.senders t ≠ .send r
  drained : s.phase = .drained → s.pending = []
  restarting : ∀ bank, s.receiver = .restartLock bank ∨ s.receiver = .restartStore bank →
    s.phase = .drained ∧ bank ≤ maxBankId
  positive : ∀ e ∈ s.pending, 1 ≤ e.record.numBatches

omit [DecidableEq T] in
lemma counts_init : Counts (init : State T) where
  active := by simp [init, SenderPc.active]
  word := ⟨0, by simp [init, phaseBank, shutdownValue_eq], by
    simp [init, reserved, pending, taken, SenderPc.reserved], nofun⟩
  bank_le := Nat.zero_le _
  loaded := fun _ => trivial
  sending := nofun
  again := nofun
  drained := fun _ => rfl
  restarting := by
    rintro _ (h | h) <;> cases h
  positive := nofun

namespace Counts

variable (hs : Counts s)
omit [DecidableEq T]
include hs

lemma phaseBank_le : s.phaseBank ≤ disabledBankId := by
  have := hs.bank_le
  unfold phaseBank
  split
  · exact le_trans this (Nat.sub_le _ _)
  · exact Nat.le_refl _

lemma bankId_word : bankId s.word = s.phaseBank := by
  obtain ⟨a, hword, hle, -⟩ := hs.word
  have hbank := hs.phaseBank_le
  rw [disabledBankId_eq] at hbank
  have hcap : capacity = 2 ^ 10 - 1 := rfl
  rw [bankId_eq, hword]
  omega

lemma setSender [DecidableEq T] {pc : SenderPc} {active word : ℕ} {queue : List (Sent T)}
    (hactive : active + (s.senders t).active = s.activeSenders + pc.active)
    (hword : ∀ a, s.word = s.phaseBank * 2 ^ 10 + a → (s.phase = .opened → a + s.reserved = capacity) →
      a + s.reserved ≤ capacity → ∃ a', word = s.phaseBank * 2 ^ 10 + a'
        ∧ a' + (pc.reserved + (queue.map fun e => e.record.numBatches).sum)
          = a + ((s.senders t).reserved + (s.queue.map fun e => e.record.numBatches).sum))
    (hloaded : pc.Loaded) (hqueue : s.phase = .drained → queue = s.queue)
    (hpositive : ∀ e ∈ queue, e ∉ s.queue → 1 ≤ e.record.numBatches)
    (hsend : ∀ r, pc = .send r → r.bankId = s.bank ∧ s.phase = .opened) :
    Counts { s.setSender t pc with activeSenders := active, word, queue } := by
  have hsumr := sum_update SenderPc.reserved s.senders t pc
  have hsuma := sum_update SenderPc.active s.senders t pc
  refine
    { active := ?_
      word := ?_
      bank_le := hs.bank_le
      loaded := fun u => ?_
      sending := fun u r h => ?_
      again := fun c hc hp u r h => ?_
      drained := fun hp => ?_
      restarting := hs.restarting
      positive := fun e he => ?_ }
  · have := hs.active
    show active = ∑ u, (update s.senders t pc u).active
    omega
  · obtain ⟨a, ha, hle, hopen⟩ := hs.word
    obtain ⟨a', ha', hsum⟩ := hword a ha hopen hle
    have hreserved : a' + State.reserved { s.setSender t pc with activeSenders := active, word, queue }
        = a + s.reserved := by
      simp only [State.reserved, pending, taken, State.setSender, map_append,
        sum_append] at hsum ⊢
      omega
    exact ⟨a', ha', hreserved.trans_le hle, fun hp => hreserved.trans (hopen hp)⟩
  · exact (forall_update_iff s.senders fun _ pc => pc.Loaded).2
      ⟨hloaded, fun u _ => hs.loaded u⟩ u
  · refine (forall_update_iff s.senders fun _ pc => pc = .send r →
      r.bankId = s.bank ∧ s.phase ≠ .drained).2 ⟨fun h => ?_, fun u _ => hs.sending u r⟩ u h
    obtain ⟨hbank, hphase⟩ := hsend r h
    exact ⟨hbank, by rw [hphase]; exact nofun⟩
  · refine (forall_update_iff s.senders fun _ pc => pc ≠ .send r).2
      ⟨fun h => ?_, fun u _ => hs.again c hc hp u r⟩ u h
    cases hp.symm.trans (hsend r h).2
  · have := hs.drained hp
    rw [hqueue hp]
    exact this
  · by_cases hold : e ∈ s.pending
    · exact hs.positive e hold
    · rw [pending, mem_append, not_or] at hold
      exact hpositive e ((mem_append.1 he).resolve_left hold.1) hold.2

lemma quiet [DecidableEq T] {old : SenderPc} (h : s.senders t = old) (pc : SenderPc) (active : ℕ)
    (hactive : active + old.active = s.activeSenders + pc.active) (hres : old.reserved = 0)
    (hpc : pc.reserved = 0) (hloaded : pc.Loaded) (hsend : ∀ r, pc ≠ .send r) :
    Counts { s.setSender t pc with activeSenders := active } := by
  subst h
  exact hs.setSender hactive (fun a ha _ _ => ⟨a, ha, by rw [hres, hpc]; rfl⟩) hloaded (fun _ => rfl)
    (fun _ he hne => absurd he hne) fun r h => absurd h (hsend r)

lemma loaded_of {pc : SenderPc} (h : s.senders t = pc) : pc.Loaded :=
  h ▸ hs.loaded t

lemma setReceiver {pc : ReceiverPc T} {queue : List (Sent T)}
    (hpending : pending { s with receiver := pc, queue } = s.pending)
    (hagain : ∀ c, pc = .receiveAgain c → s.phase = .shut → ∀ t r, s.senders t ≠ .send r)
    (hlock : ∀ bank, pc = .restartLock bank → s.phase = .drained ∧ bank ≤ maxBankId)
    (hstore : ∀ bank, pc = .restartStore bank → s.phase = .drained ∧ bank ≤ maxBankId) :
    Counts { s with receiver := pc, queue } where
  active := hs.active
  word := by
    obtain ⟨a, ha⟩ := hs.word
    refine ⟨a, ?_⟩
    simp only [reserved, hpending]
    exact ha
  bank_le := hs.bank_le
  loaded := hs.loaded
  sending := hs.sending
  again := hagain
  drained := fun hp => hpending.trans (hs.drained hp)
  restarting := fun bank h => h.elim (hlock bank) (hstore bank)
  positive := fun e he => hs.positive e (hpending ▸ he)

lemma active_le (t : T) : (s.senders t).active ≤ s.activeSenders := by
  rw [hs.active]
  exact Finset.single_le_sum (f := fun u => (s.senders u).active) (fun _ _ => Nat.zero_le _)
    (Finset.mem_univ t)

lemma not_send (h : s.activeSenders = 0) (t : T) (r : Record) : s.senders t ≠ .send r := by
  intro ht
  have hle := hs.active_le t
  rw [h, ht] at hle
  exact Nat.not_succ_le_zero 0 hle

lemma move {pc : ReceiverPc T} (h : Moves s pc) : Counts { s with receiver := pc } := by
  have hpending (hold : s.taken = []) (hnew : taken { s with receiver := pc } = []) :
      pending { s with receiver := pc } = s.pending := by
    rw [pending, pending, hold, hnew]
  cases h with
  | again h hactive =>
    exact hs.setReceiver (hpending (by rw [taken, h]) rfl) (fun _ _ _ => hs.not_send hactive)
      nofun nofun
  | restart h hphase hbank =>
    refine hs.setReceiver (hpending (by rw [taken, h]) rfl) nofun (fun _ h => ?_) nofun
    cases h
    exact ⟨hphase, hbank⟩
  | begin h | wait h | nothing h | spin h | next h | timeout h | leave h =>
    exact hs.setReceiver (hpending (by rw [taken, h]) rfl) nofun nofun nofun

/-- The word that was loaded is still there, so the channel is open and has room. -/
lemma exchange [DecidableEq T] {r : Record} {new : ℕ} (h : s.senders t = .exchange r s.word)
    (hnew : encodedValue (bankId s.word)
      ((allowedInsertions s.word + 2 ^ 64 - r.numBatches) % 2 ^ 64) = .ok new) :
    Counts { s.setSender t (.send r) with word := new } := by
  obtain ⟨hr, hbank, hne, hroom⟩ := hs.loaded_of h
  have hphase : s.phase = .opened := by
    rw [hs.bankId_word, phaseBank] at hbank
    split at hbank
    · assumption
    · exact absurd hbank.symm hne
  have hphaseBank : s.phaseBank = s.bank := by rw [phaseBank, hphase]
  obtain ⟨-, -, rfl⟩ := encodedValue_ok.1 hnew
  rw [hs.bankId_word] at hbank ⊢
  refine hs.setSender (by rw [h]; rfl) (fun a ha _ hle => ?_) hr (fun _ => rfl)
    (fun _ he hne => absurd he hne) fun r' hr' => ?_
  · refine ⟨_, rfl, ?_⟩
    have hcap : capacity = 2 ^ 10 - 1 := rfl
    rw [allowedInsertions_eq] at hroom ⊢
    rw [h]
    simp only [SenderPc.reserved, State.setSender]
    omega
  · cases hr'
    exact ⟨hbank.symm.trans hphaseBank, hphase⟩

lemma credit {c : Caller} {e : Sent T} (h : s.receiver = .credit c e) : Counts (s.credit c e) := by
  have hpending : s.pending = e :: s.queue := by rw [pending, taken, h]; rfl
  have hnext : taken { s with receiver := c.next } = [] := by cases c <;> rfl
  have hphase : s.phase ≠ .drained := fun hp => by
    have := hs.drained hp
    rw [hpending] at this
    cases this
  refine
    { hs with
      word := ?_
      again := fun c' hc' => by cases c <;> cases hc'
      drained := fun hp => absurd hp hphase
      restarting := fun b hb => by cases c <;> rcases hb with hb | hb <;> cases hb
      positive := fun e' he' => hs.positive e' ?_ }
  · obtain ⟨a, ha, hle, hopen⟩ := hs.word
    have hbank := hs.phaseBank_le
    rw [disabledBankId_eq] at hbank
    have hcap : capacity = 2 ^ 10 - 1 := rfl
    have hreserved : e.record.numBatches + reserved { s with receiver := c.next }
        = s.reserved := by
      rw [reserved, reserved, hpending, pending, hnext, nil_append,
        map_cons, sum_cons]
      exact Nat.add_left_comm _ _ _
    refine ⟨a + e.record.numBatches, ?_, ?_, fun hp => ?_⟩
    · show (s.word + e.record.numBatches) % 2 ^ 64 = s.phaseBank * 2 ^ 10 + _
      omega
    · show a + e.record.numBatches + reserved { s with receiver := c.next } ≤ capacity
      omega
    · have := hopen hp
      show a + e.record.numBatches + reserved { s with receiver := c.next } = capacity
      omega
  · rw [hpending]
    change e' ∈ taken { s with receiver := c.next } ++ s.queue at he'
    rw [hnext] at he'
    exact mem_cons_of_mem _ he'

lemma empty {c : Caller} (h : s.receiver = .receiveAgain c) (hqueue : s.queue = []) :
    Counts (s.empty c) := by
  have hpending : s.pending = [] := by rw [pending, taken, h, hqueue]; rfl
  have hidle : Counts { s with receiver := .idle } := by
    refine hs.setReceiver ?_ nofun nofun nofun
    rw [hpending, pending, taken, hqueue]
    rfl
  unfold State.empty
  split_ifs with hc
  · refine
      { hidle with
        word := ?_
        sending := fun t r ht => ?_
        again := nofun
        drained := fun _ => ?_
        restarting := ?_ }
    · obtain ⟨a, ha, hle, -⟩ := hidle.word
      refine ⟨a, ?_, hle, nofun⟩
      rw [phaseBank, show phase { s with receiver := .idle } = .shut from hc.2] at ha
      exact ha
    · exact absurd ht (hs.again c h hc.2 t r)
    · rw [hqueue]
      rfl
    · rintro _ (h | h) <;> cases h
  · exact hidle

lemma shutdown (h : s.receiver = .idle) : Counts s.shutdown := by
  have hopen : s.shutdown.phase ≠ .opened := by
    unfold State.shutdown
    split_ifs <;> exact nofun
  have hdrained : s.shutdown.phase = .drained → s.phase = .drained := by
    unfold State.shutdown
    split_ifs with hp
    · exact fun _ => hp
    · exact nofun
  have hbank : s.shutdown.phaseBank = disabledBankId := by
    unfold phaseBank
    split
    · exact absurd ‹_› hopen
    · rfl
  refine
    { hs with
      word := ?_
      sending := fun t r ht => (hs.sending t r ht).imp_right fun hp hd => hp (hdrained hd)
      again := fun c hc => ?_
      drained := fun hp => hs.drained (hdrained hp)
      restarting := fun b hb => ?_ }
  · obtain ⟨a, -, hle, -⟩ := hs.word
    refine ⟨0, ?_, le_trans (Nat.add_le_add_right (Nat.zero_le a) _) hle, fun hp => absurd hp hopen⟩
    rw [Nat.add_zero, hbank]
    exact shutdownValue_eq
  · cases h.symm.trans hc
  · rcases hb with hb | hb <;> cases h.symm.trans hb

lemma restartStore {bank word : ℕ} (h : s.receiver = .restartStore bank)
    (hword : encodedValue bank capacity = .ok word) : Counts (s.reopen tracking bank word) := by
  obtain ⟨hphase, hbank⟩ := hs.restarting bank (.inr h)
  obtain ⟨-, -, rfl⟩ := encodedValue_ok.1 hword
  have hnot (t : T) (r : Record) : s.senders t ≠ .send r := fun ht => (hs.sending t r ht).2 hphase
  have hpending : (s.reopen tracking bank (bank * 2 ^ 10 + capacity)).pending = [] := by
    cases tracking <;> exact (append_eq_nil_iff.1 (hs.drained hphase)).2
  have hreserved : (s.reopen tracking bank (bank * 2 ^ 10 + capacity)).reserved = 0 := by
    rw [State.reserved, hpending]
    refine Finset.sum_eq_zero fun t _ => ?_
    unfold SenderPc.reserved
    split
    · next r hr => exact absurd hr (hnot t r)
    · rfl
  refine
    { hs with
      word := ⟨capacity, rfl, by rw [hreserved]; exact ⟨Nat.le_refl _, fun _ => rfl⟩⟩
      bank_le := hbank
      sending := fun t r ht => absurd ht (hnot t r)
      again := fun c hc => by cases tracking <;> cases hc
      drained := nofun
      restarting := fun b hb => by cases tracking <;> rcases hb with hb | hb <;> cases hb
      positive := fun e he => absurd (hpending ▸ he) not_mem_nil }

lemma step [DecidableEq T] (h : Step tracking s s') : Counts s' := by
  cases h with
  | @call t r h hr =>
    exact hs.quiet h (.lock r) _ rfl rfl rfl hr nofun
  | @lock t r h hfree =>
    exact { hs.quiet h (.load r) s.activeSenders rfl rfl rfl (hs.loaded_of h :) nofun with }
  | @refuse t r h | @finish t r h => exact { hs.quiet h .idle s.activeSenders rfl rfl rfl trivial nofun with }
  | @accept t r h hne hbank hroom =>
    exact hs.quiet h (.count r s.word) _ rfl rfl rfl
      ⟨hs.loaded_of h, hbank, fun hd => hne (hbank.trans hd), hroom⟩ nofun
  | @count t r current h =>
    exact hs.quiet h (.exchange r current) _ rfl rfl rfl (hs.loaded_of h :) nofun
  | exchange h hnew => exact hs.exchange h hnew
  | @fail t r current h =>
    exact hs.quiet h (.retry r) _ rfl rfl rfl (hs.loaded_of h).1 nofun
  | @retry t r h =>
    have hactive := Nat.sub_add_cancel (h ▸ hs.active_le t)
    exact { hs.quiet h (.lock r) (s.activeSenders - 1) hactive rfl rfl (hs.loaded_of h :) nofun with }
  | @send t r h =>
    have hr := hs.loaded_of h
    refine hs.setSender (by rw [h]; rfl) (fun a ha _ _ => ⟨a, ha, ?_⟩) hr
      (fun hp => absurd hp (hs.sending t r h).2) (fun e he hne => ?_) nofun
    · rw [h]
      simp only [SenderPc.reserved, map_append, sum_append, map_cons, map_nil,
        sum_singleton]
      omega
    · rcases mem_append.1 he with he | he
      · exact absurd he hne
      · cases mem_singleton.1 he
        exact Record.one_le_numBatches hr
  | @sent t r h =>
    have hactive := Nat.sub_add_cancel (h ▸ hs.active_le t)
    exact hs.quiet h (.finish r) (s.activeSenders - 1) hactive rfl rfl (hs.loaded_of h :) nofun
  | move h => exact hs.move h
  | @take c e queue h hqueue hreceiver =>
    refine hs.setReceiver ?_ nofun nofun nofun
    show [e] ++ queue = s.taken ++ s.queue
    rw [h, hqueue]
    rfl
  | empty h hqueue => exact hs.empty h hqueue
  | credit h => exact hs.credit h
  | shutdown h => exact hs.shutdown h
  | @restartLock bank h hfree =>
    have hpending : pending { s with receiver := .restartStore bank } = s.pending := by
      rw [pending, pending, taken, taken, h]
    refine { hs.setReceiver hpending nofun nofun fun _ h' => ?_ with }
    cases h'
    exact hs.restarting bank (.inl h)
  | restartStore h hword => exact hs.restartStore h hword
  | restartUnlock h =>
    have hpending : pending { s with receiver := .idle } = s.pending := by
      rw [pending, pending, taken, taken, h]
    exact { hs.setReceiver hpending nofun nofun nofun with }

end Counts

end BlackBull.RecordChannel
