import BlackBull.Proofs.RecordChannels

/-!
# The order of receipt

What has been sent forms a log that only grows.
-/

namespace BlackBull.RecordChannel

open Function List State

variable {T : Type} [DecidableEq T] {tracking : Bool} {s s' : State T} {t : T} {r : Record}
  {pc : SenderPc}

/-! ### What the log sees of a step -/

structure SameLog (s s' : State T) : Prop where
  log : s'.log = s.log
  calls : s'.calls = s.calls
  results : s'.results = s.results
  pushed : ∀ t, (s'.senders t).pushed = (s.senders t).pushed

structure SameEpoch (s s' : State T) : Prop where
  bank : s'.bank = s.bank
  epoch : s'.epoch = s.epoch
  received_le : s.received.length ≤ s'.received.length
  index : s'.transactionIndex = s.transactionIndex
  storing : (∃ bank, s'.receiver = .restartStore bank) ↔ ∃ bank, s.receiver = .restartStore bank

inductive Effect (tracking : Bool) (s s' : State T) : Prop
  | same (h : SameLog s s') (he : SameEpoch s s')
  | refused {t : T} (hpushed : (s.senders t).pushed = none) (h : s' = s.endCall t)
  | sent {t : T} {r : Record} (h : s.senders t = .send r)
      (h' : s' = s.push t r)
  | finished {t : T} {r : Record} (h : s.senders t = .finish r)
      (h' : s' = s.finish tracking t r)
  | restarting (h : SameLog s s') (hbank : s'.bank = s.bank) (hepoch : s'.epoch = s.epoch)
      (hreceived : s'.received = s.received) (hindex : tracking → s'.transactionIndex = 0)
      (hstoring : ∃ bank, s'.receiver = .restartStore bank)
  | restarted {bank : ℕ} (h : SameLog s s') (hreceiver : s.receiver = .restartStore bank)
      (hreceived : s'.received = s.received) (hbank : s'.bank = bank)
      (hepoch : s'.epoch = s.received.length) (hindex : s'.transactionIndex = s.transactionIndex)
      (hstoring : ∀ bank, s'.receiver ≠ .restartStore bank)

lemma sameLog_setSender (hsenders : s'.senders = update s.senders t pc)
    (hpushed : pc.pushed = (s.senders t).pushed) (hlog : s'.log = s.log)
    (hcalls : s'.calls = s.calls) (hresults : s'.results = s.results) : SameLog s s' where
  log := hlog
  calls := hcalls
  results := hresults
  pushed := hsenders ▸ (forall_update_iff s.senders
    fun u pc => pc.pushed = (s.senders u).pushed).2 ⟨hpushed, fun _ _ => rfl⟩

omit [DecidableEq T] in
lemma log_eq (hreceived : s'.received = s.received) (htaken : s'.taken = s.taken)
    (hqueue : s'.queue = s.queue) : s'.log = s.log := by
  rw [log, pending, hreceived, htaken, hqueue]
  rfl

lemma log_push (s : State T) (t : T) (r : Record) :
    (s.push t r).log = s.log ++ [⟨t, s.calls t, r⟩] := by
  show s.received ++ (s.taken ++ (s.queue ++ _)) = s.received ++ (s.taken ++ s.queue) ++ _
  simp only [append_assoc]

lemma effect_receiver (hlog : s'.log = s.log) (hcalls : s'.calls = s.calls)
    (hresults : s'.results = s.results) (hsenders : s'.senders = s.senders) (hbank : s'.bank = s.bank)
    (hepoch : s'.epoch = s.epoch) (hreceived : s.received.length ≤ s'.received.length)
    (hindex : s'.transactionIndex = s.transactionIndex)
    (hs : ∀ bank, s.receiver ≠ .restartStore bank) (hs' : ∀ bank, s'.receiver ≠ .restartStore bank) :
    Effect tracking s s' :=
  .same ⟨hlog, hcalls, hresults, fun t => by rw [hsenders]⟩ ⟨hbank, hepoch, hreceived, hindex,
    iff_of_false (fun ⟨bank, h⟩ => hs' bank h) fun ⟨bank, h⟩ => hs bank h⟩

lemma effect_moves {pc : ReceiverPc T} (h : Moves s pc) :
    Effect tracking s { s with receiver := pc } := by
  cases h with
  | begin h | wait h | nothing h | spin h | again h | next h | timeout h | leave h | restart h =>
    exact effect_receiver (log_eq rfl (by simp only [taken, h]) rfl) rfl rfl rfl rfl rfl
      (Nat.le_refl _) rfl (by simp [h]) (by simp)

lemma effect_step (h : Step tracking s s') : Effect tracking s s' := by
  cases h with
  | call h | accept h | fail h | lock h | count h | exchange h | retry h | sent h =>
    exact .same (sameLog_setSender rfl (by rw [h]; rfl) rfl rfl rfl)
      ⟨rfl, rfl, Nat.le_refl _, rfl, Iff.rfl⟩
  | refuse h => exact .refused (by rw [h]; rfl) rfl
  | send h => exact .sent h rfl
  | finish h => exact .finished h rfl
  | move h => exact effect_moves h
  | @take c e queue h hqueue hreceiver =>
    refine effect_receiver ?_ rfl rfl rfl rfl rfl (Nat.le_refl _) rfl hreceiver (by simp)
    show s.received ++ ([e] ++ queue) = s.received ++ (s.taken ++ s.queue)
    rw [h, hqueue]
    rfl
  | empty h hqueue =>
    exact effect_receiver (log_eq rfl (by simp only [taken, State.empty, h]) rfl) rfl rfl rfl rfl
      rfl (Nat.le_refl _) rfl (by simp [h]) (by simp [State.empty])
  | @credit c e h =>
    have hnext : taken { s with receiver := c.next } = [] := by cases c <;> rfl
    refine effect_receiver ?_ rfl rfl rfl rfl rfl ?_ rfl (by simp [h])
      (by cases c <;> simp [State.credit, Caller.next])
    · show s.received ++ [e] ++ (taken { s with receiver := c.next } ++ s.queue)
        = s.received ++ (s.taken ++ s.queue)
      rw [hnext, taken, h, append_assoc]
      rfl
    · show s.received.length ≤ (s.received ++ [e]).length
      rw [length_append]
      exact Nat.le_add_right _ _
  | shutdown h => exact .same ⟨rfl, rfl, rfl, fun _ => rfl⟩ ⟨rfl, rfl, Nat.le_refl _, rfl, Iff.rfl⟩
  | @restartLock bank h hfree =>
    exact .restarting ⟨log_eq rfl (by simp only [taken, h]) rfl, rfl, rfl, fun _ => rfl⟩ rfl rfl
      rfl (fun ht => if_pos ht) ⟨bank, rfl⟩
  | @restartStore bank word h hword =>
    refine .restarted ⟨log_eq rfl ?_ rfl, rfl, rfl, fun _ => rfl⟩ h rfl rfl rfl rfl fun bank => ?_
    · cases tracking <;> simp only [taken, reopen, h] <;> rfl
    · cases tracking <;> simp [reopen]
  | restartUnlock h =>
    exact effect_receiver (log_eq rfl (by simp only [taken, h]) rfl) rfl rfl rfl rfl rfl
      (Nat.le_refl _) rfl (by simp [h]) (by simp)

/-! ### Every record is sent once -/

structure History (s : State T) : Prop where
  sent : ∀ e ∈ s.log, e.call < s.calls e.thread
    ∨ e.call = s.calls e.thread ∧ (s.senders e.thread).pushed = some e.record
  pushed : ∀ t r, (s.senders t).pushed = some r → ⟨t, s.calls t, r⟩ ∈ s.log
  nodup : (s.log.map fun e => (e.thread, e.call)).Nodup
  results : ∀ res ∈ s.results, res.sent ∈ s.log
  epoch_le : s.epoch ≤ s.received.length
  bank : ∀ e ∈ s.log.drop s.epoch, e.record.bankId = s.bank

namespace History

section Init

omit [DecidableEq T]

lemma init : History (init : State T) where
  sent := nofun
  pushed := nofun
  nodup := nodup_nil
  results := nofun
  epoch_le := Nat.le_refl _
  bank := nofun

lemma same (hs : History s) (h : SameLog s s') (hepoch : s'.epoch ≤ s'.received.length)
    (hbank : ∀ e ∈ s.log.drop s'.epoch, e.record.bankId = s'.bank) : History s' := by
  obtain ⟨hlog, hcalls, hresults, hpushed⟩ := h
  refine ⟨?_, ?_, ?_, ?_, hepoch, ?_⟩
  · rw [hlog, hcalls]
    intro e he
    rw [hpushed]
    exact hs.sent e he
  · intro t r ht
    rw [hlog, hcalls]
    rw [hpushed] at ht
    exact hs.pushed t r ht
  · rw [hlog]
    exact hs.nodup
  · rw [hlog, hresults]
    exact hs.results
  · rw [hlog]
    exact hbank

lemma sameBank (hs : History s) (h : SameLog s s') (hepoch : s'.epoch = s.epoch)
    (hbank : s'.bank = s.bank) (hle : s.received.length ≤ s'.received.length) : History s' := by
  refine hs.same h (hepoch.trans_le (hs.epoch_le.trans hle)) ?_
  rw [hepoch, hbank]
  exact hs.bank

end Init

lemma endCall (hs : History s) {results : List (SendResult T)} {index : ℕ}
    (hresults : ∀ res ∈ results, res ∈ s.results ∨ res.sent ∈ s.log) :
    History { s.endCall t with results, transactionIndex := index } where
  __ := hs
  sent := fun e he => by
    have hsent := hs.sent e he
    show e.call < update s.calls t (s.calls t + 1) e.thread ∨ _
    by_cases ht : e.thread = t
    · rw [ht, update_self]
      rw [ht] at hsent
      exact .inl (by omega)
    · rw [update_of_ne ht]
      refine hsent.imp_right fun ⟨hcall, hpushed⟩ => ?_
      refine ⟨hcall.trans (update_of_ne ht _ _).symm, ?_⟩
      show (update s.senders t .idle e.thread).pushed = _
      rw [update_of_ne ht, hpushed]
  pushed := fun u r hu => by
    change (update s.senders t .idle u).pushed = some r at hu
    show (⟨u, update s.calls t (s.calls t + 1) u, r⟩ : Sent T) ∈ s.log
    by_cases ht : u = t
    · rw [ht, update_self] at hu
      cases hu
    · rw [update_of_ne ht] at hu ⊢
      exact hs.pushed u r hu
  results := fun res hres => (hresults res hres).elim (hs.results res) id

lemma send (hs : History s) (h : s.senders t = .send r)
    (hbank : r.bankId = s.bank) : History (s.push t r) := by
  have hlog := log_push s t r
  have hbefore (e : Sent T) (he : e ∈ s.log) (ht : e.thread = t) : e.call < s.calls t := by
    have hsent := hs.sent e he
    rw [ht, h] at hsent
    exact hsent.resolve_right fun hc => nomatch hc.2
  refine
    { sent := fun e he => ?_
      pushed := fun u r' hu => ?_
      nodup := ?_
      results := fun res hres => ?_
      epoch_le := hs.epoch_le
      bank := fun e he => ?_ }
  · rw [hlog] at he
    show e.call < s.calls e.thread ∨ e.call = s.calls e.thread
      ∧ (update s.senders t (.sent r) e.thread).pushed = some e.record
    rcases mem_append.1 he with he | he
    · by_cases ht : e.thread = t
      · rw [ht]
        exact .inl (hbefore e he ht)
      · rw [update_of_ne ht]
        exact hs.sent e he
    · cases mem_singleton.1 he
      exact .inr ⟨rfl, by rw [update_self]; rfl⟩
  · change (update s.senders t (.sent r) u).pushed = some r' at hu
    rw [hlog]
    by_cases ht : u = t
    · rw [ht, update_self] at hu
      cases hu
      rw [ht]
      exact mem_append_right _ (mem_singleton_self _)
    · rw [update_of_ne ht] at hu
      exact mem_append_left _ (hs.pushed u r' hu)
  · rw [hlog, map_append, nodup_append]
    refine ⟨hs.nodup, nodup_singleton _, ?_⟩
    intro a ha b hb hab
    obtain ⟨e, he, rfl⟩ := mem_map.1 ha
    rw [map_singleton, mem_singleton] at hb
    obtain ⟨hthread, hcall⟩ := Prod.mk.inj (hab.trans hb)
    have := hbefore e he hthread
    dsimp only at hcall
    omega
  · rw [hlog]
    exact mem_append_left _ (hs.results res hres)
  · rw [hlog] at he
    have hlen : s.epoch ≤ s.log.length := by
      have := hs.epoch_le
      rw [log, length_append]
      omega
    change e ∈ (s.log ++ _).drop s.epoch at he
    rw [drop_append_of_le_length hlen] at he
    rcases mem_append.1 he with he | he
    · exact hs.bank e he
    · cases mem_singleton.1 he
      exact hbank

lemma step [Fintype T] (hc : Counts s) (hs : History s) (hstep : Step tracking s s') :
    History s' := by
  cases effect_step hstep with
  | same h he => exact hs.sameBank h he.epoch he.bank he.received_le
  | refused hpushed h =>
    subst h
    exact hs.endCall fun res hres => .inl hres
  | sent h h' =>
    subst h'
    exact hs.send h (hc.sending _ _ h).1
  | @finished t r h h' =>
    subst h'
    refine hs.endCall fun res hres => ?_
    refine (mem_append.1 hres).imp_right fun hres => ?_
    cases mem_singleton.1 hres
    exact hs.pushed t r (by rw [h]; rfl)
  | restarting h hbank hepoch hreceived =>
    exact hs.sameBank h hepoch hbank (by rw [hreceived])
  | @restarted bank h hreceiver hreceived hbank hepoch hindex hstoring =>
    have hpending := hc.drained (hc.restarting bank (.inr hreceiver)).1
    refine hs.same h ?_ ?_
    · rw [hepoch, hreceived]
    · rw [hepoch, log, hpending, append_nil, drop_length]
      exact nofun

end History

/-! ### The lock of the index -/

structure Locked (s : State T) : Prop where
  sender : ∀ t, (s.senders t).holds → s.lock = some (some t)
  receiver : (∃ bank, s.receiver = .restartStore bank) ∨ s.receiver = .restartUnlock →
    s.lock = some none

namespace Locked

omit [DecidableEq T] in
lemma init : Locked (init : State T) where
  sender := nofun
  receiver := by
    rintro (⟨_, h⟩ | h) <;> cases h

lemma setSender (hs : Locked s) (hsenders : s'.senders = update s.senders t pc)
    (hreceiver : s'.receiver = s.receiver) (hpc : pc.holds → s'.lock = some (some t))
    (hlock : s'.lock = s.lock ∨ s.lock = none ∨ s.lock = some (some t)) : Locked s' := by
  have hkeep {holder : Option T} (hheld : s.lock = some holder) (hne : holder ≠ some t) :
      s'.lock = some holder := by
    rcases hlock with hlock | hlock | hlock
    · rw [hlock, hheld]
    · rw [hheld] at hlock
      cases hlock
    · exact absurd (Option.some.inj (hheld.symm.trans hlock)) hne
  refine ⟨?_, fun h => hkeep (hs.receiver (hreceiver ▸ h)) nofun⟩
  rw [hsenders]
  exact (forall_update_iff s.senders fun u pc => pc.holds → s'.lock = some (some u)).2
    ⟨hpc, fun u hne hu => hkeep (hs.sender u hu) fun h => hne (Option.some.inj h)⟩

omit [DecidableEq T] in
lemma setReceiver (hs : Locked s) (hsenders : s'.senders = s.senders) (hlock : s'.lock = s.lock)
    (hreceiver : (∃ bank, s'.receiver = .restartStore bank) ∨ s'.receiver = .restartUnlock →
      (∃ bank, s.receiver = .restartStore bank) ∨ s.receiver = .restartUnlock) : Locked s' where
  sender := fun t ht => by
    rw [hsenders] at ht
    rw [hlock]
    exact hs.sender t ht
  receiver := fun h => by
    rw [hlock]
    exact hs.receiver (hreceiver h)

lemma step (hs : Locked s) (h : Step true s s') : Locked s' := by
  have hheld {t : T} {pc : SenderPc} (h : s.senders t = pc) (hpc : pc.holds) :
      s.lock = some (some t) := hs.sender t (by rw [h]; exact hpc)
  cases h with
  | call h => exact hs.setSender rfl rfl nofun (.inl rfl)
  | lock h hfree => exact hs.setSender rfl rfl (fun _ => rfl) (.inr (.inl (hfree rfl)))
  | refuse h | retry h | finish h =>
    exact hs.setSender rfl rfl nofun (.inr (.inr (hheld h rfl)))
  | accept h | count h | exchange h | fail h | send h | sent h =>
    exact hs.setSender rfl rfl (fun _ => hheld h rfl) (.inl rfl)
  | move h =>
    refine hs.setReceiver rfl rfl fun h' => ?_
    cases h <;> rcases h' with ⟨_, h'⟩ | h' <;> cases h'
  | take h | empty h =>
    refine hs.setReceiver rfl rfl fun h' => ?_
    rcases h' with ⟨_, h'⟩ | h' <;> cases h'
  | @credit c e h =>
    refine hs.setReceiver rfl rfl fun h' => ?_
    cases c <;> rcases h' with ⟨_, h'⟩ | h' <;> cases h'
  | shutdown h => exact hs.setReceiver rfl rfl id
  | restartLock h hfree =>
    refine ⟨fun t ht => ?_, fun _ => rfl⟩
    have := hs.sender t ht
    rw [hfree rfl] at this
    cases this
  | @restartStore bank word h hword => exact hs.setReceiver rfl rfl fun _ => .inl ⟨bank, h⟩
  | restartUnlock h =>
    refine ⟨fun t ht => ?_, ?_⟩
    · have := hs.sender t ht
      rw [hs.receiver (.inr h)] at this
      cases this
    · rintro (⟨_, h⟩ | h) <;> cases h

end Locked

/-! ### The indexes -/

lemma SenderPc.holds_of_pushed (h : pc.pushed = some r) : pc.holds := by
  cases pc with
  | idle | lock => cases h
  | load | count | exchange | retry | send | sent | finish => rfl

/-- The index counts the transactions of the records that were sent since the restart, but for the
last one as long as its call runs. -/
structure Indexes (s : State T) : Prop where
  index : (∀ bank, s.receiver ≠ .restartStore bank) → (∀ t, (s.senders t).pushed = none) →
    s.transactionIndex = numTransactions (s.log.drop s.epoch)
  storing : ∀ bank, s.receiver = .restartStore bank → s.transactionIndex = 0
  pushed : ∀ t r, (s.senders t).pushed = some r → ∃ before, s.log = before ++ [⟨t, s.calls t, r⟩]
    ∧ s.epoch ≤ before.length ∧ s.transactionIndex = numTransactions (before.drop s.epoch)
  results : ∀ res ∈ s.results, res.Positioned s.log

section Positions

omit [DecidableEq T]

lemma numTransactions_append (es es' : List (Sent T)) :
    numTransactions (es ++ es') = numTransactions es + numTransactions es' := by
  unfold numTransactions
  rw [map_append, sum_append]

lemma SendResult.Positioned.append {log : List (Sent T)} {res : SendResult T} (h : res.Positioned log)
    (es : List (Sent T)) : res.Positioned (log ++ es) := by
  obtain ⟨before, after, rfl, hepoch, hindex⟩ := h
  exact ⟨before, after ++ es, by rw [append_assoc, cons_append], hepoch, hindex⟩

lemma Locked.eq_of_pushed (hl : Locked s) {u : T} (ht : (s.senders t).holds)
    (h : (s.senders u).pushed = some r) : u = t := by
  have hu := hl.sender u (SenderPc.holds_of_pushed h)
  rw [hl.sender t ht] at hu
  cases hu
  rfl

lemma Locked.not_storing (hl : Locked s) (h : (s.senders t).holds) (bank : ℕ) :
    s.receiver ≠ .restartStore bank := by
  intro hstore
  have hheld := hl.receiver (.inl ⟨bank, hstore⟩)
  rw [hl.sender t h] at hheld
  cases hheld

lemma Locked.pushed_none {bank : ℕ} (hl : Locked s) (h : s.receiver = .restartStore bank) (t : T) :
    (s.senders t).pushed = none := by
  by_contra hsome
  obtain ⟨r, hr⟩ := Option.ne_none_iff_exists'.1 hsome
  exact hl.not_storing (SenderPc.holds_of_pushed hr) bank h

namespace Indexes

lemma init : Indexes (init : State T) where
  index := fun _ _ => rfl
  storing := nofun
  pushed := nofun
  results := nofun

lemma add_pushed (hs : Indexes s) (h : (s.senders t).pushed = some r) :
    s.transactionIndex + r.numTransactions = numTransactions (s.log.drop s.epoch) := by
  obtain ⟨before, hlog, hepoch, hindex⟩ := hs.pushed t r h
  rw [hlog, drop_append_of_le_length hepoch, numTransactions_append, hindex]
  rfl

lemma same (hs : Indexes s) (h : SameLog s s') (he : SameEpoch s s') : Indexes s' where
  index := fun hreceiver hpushed => by
    rw [he.index, h.log, he.epoch]
    refine hs.index (fun bank hbank => ?_) fun t => (h.pushed t).symm.trans (hpushed t)
    obtain ⟨bank', hbank'⟩ := he.storing.2 ⟨bank, hbank⟩
    exact hreceiver bank' hbank'
  storing := fun bank hbank => by
    obtain ⟨bank', hbank'⟩ := he.storing.1 ⟨bank, hbank⟩
    rw [he.index]
    exact hs.storing bank' hbank'
  pushed := fun t r ht => by
    rw [h.log, h.calls, he.epoch, he.index]
    exact hs.pushed t r ((h.pushed t).symm.trans ht)
  results := by
    rw [h.log, h.results]
    exact hs.results

end Indexes

end Positions

namespace Indexes

lemma refuse (hs : Indexes s) (hpushed : (s.senders t).pushed = none) :
    Indexes (s.endCall t) := by
  have hsame : ∀ u, (update s.senders t .idle u).pushed = (s.senders u).pushed :=
    (forall_update_iff s.senders fun u pc => pc.pushed = (s.senders u).pushed).2
      ⟨hpushed.symm, fun _ _ => rfl⟩
  refine
    { index := fun hreceiver hnone => hs.index hreceiver fun u => (hsame u).symm.trans (hnone u)
      storing := hs.storing
      pushed := fun u r hu => ?_
      results := hs.results }
  have hold := (hsame u).symm.trans hu
  have hne : u ≠ t := by
    rintro rfl
    rw [hpushed] at hold
    cases hold
  show ∃ before, s.log = before ++ [⟨u, update s.calls t (s.calls t + 1) u, r⟩] ∧ _
  rw [update_of_ne hne]
  exact hs.pushed u r hold

lemma send (hs : Indexes s) (hl : Locked s) (hh : History s) (h : s.senders t = .send r) :
    Indexes (s.push t r) := by
  have hlog := log_push s t r
  have hholds : (s.senders t).holds := by rw [h]; rfl
  have hnone (u : T) : (s.senders u).pushed = none := by
    by_contra hsome
    obtain ⟨r', hr'⟩ := Option.ne_none_iff_exists'.1 hsome
    rw [hl.eq_of_pushed hholds hr', h] at hr'
    cases hr'
  refine
    { index := fun _ hpushed => ?_
      storing := fun bank hbank => absurd hbank (hl.not_storing hholds bank)
      pushed := fun u r' hu => ?_
      results := fun res hres => ?_ }
  · have hnot : (SenderPc.sent r).pushed = none :=
      ((forall_update_iff s.senders fun _ pc => pc.pushed = none).1 hpushed).1
    cases hnot
  · change (update s.senders t (.sent r) u).pushed = some r' at hu
    by_cases ht : u = t
    · subst ht
      rw [update_self] at hu
      cases hu
      refine ⟨s.log, hlog, ?_, hs.index (hl.not_storing hholds) hnone⟩
      have := hh.epoch_le
      rw [log, length_append]
      exact le_trans this (Nat.le_add_right _ _)
    · rw [update_of_ne ht, hnone u] at hu
      cases hu
  · rw [hlog]
    exact (hs.results res hres).append _

lemma finish (hs : Indexes s) (hl : Locked s) (h : s.senders t = .finish r) :
    Indexes (s.finish true t r) := by
  have hpushed : (s.senders t).pushed = some r := by rw [h]; rfl
  have hholds : (s.senders t).holds := by rw [h]; rfl
  refine
    { index := fun _ _ => hs.add_pushed hpushed
      storing := fun bank hbank => absurd hbank (hl.not_storing hholds bank)
      pushed := fun u r' hu => ?_
      results := fun res hres => ?_ }
  · change (update s.senders t .idle u).pushed = some r' at hu
    by_cases ht : u = t
    · rw [ht, update_self] at hu
      cases hu
    · rw [update_of_ne ht] at hu
      exact absurd (hl.eq_of_pushed hholds hu) ht
  · rcases mem_append.1 hres with hres | hres
    · exact hs.results res hres
    · cases mem_singleton.1 hres
      obtain ⟨before, hlog, hepoch, hindex⟩ := hs.pushed t r hpushed
      exact ⟨before, [], hlog, hepoch, congrArg some hindex⟩

lemma step [Fintype T] (hc : Counts s) (hh : History s) (hl : Locked s) (hs : Indexes s)
    (hstep : Step true s s') : Indexes s' := by
  cases effect_step hstep with
  | same h he => exact hs.same h he
  | refused hpushed h =>
    subst h
    exact hs.refuse hpushed
  | sent h h' =>
    subst h'
    exact hs.send hl hh h
  | finished h h' =>
    subst h'
    exact hs.finish hl h
  | restarting h hbank hepoch hreceived hindex hstoring =>
    obtain ⟨bank, hbank⟩ := hstoring
    have hnone := (hl.step hstep).pushed_none hbank
    refine
      { index := fun hreceiver => absurd hbank (hreceiver bank)
        storing := fun _ _ => hindex rfl
        pushed := fun t r ht => ?_
        results := ?_ }
    · rw [hnone t] at ht
      cases ht
    · rw [h.log, h.results]
      exact hs.results
  | @restarted bank h hreceiver hreceived hbank hepoch hindex hstoring =>
    have hnone := hl.pushed_none hreceiver
    have hpending := hc.drained (hc.restarting bank (.inr hreceiver)).1
    refine
      { index := fun _ _ => ?_
        storing := fun bank' hbank' => absurd hbank' (hstoring bank')
        pushed := fun t r ht => ?_
        results := ?_ }
    · rw [hindex, hs.storing bank hreceiver, h.log, hepoch, log, hpending, append_nil,
        drop_length]
      rfl
    · rw [h.pushed, hnone t] at ht
      cases ht
    · rw [h.log, h.results]
      exact hs.results

end Indexes

/-! ### What the channel guarantees -/

variable [Fintype T]

structure Inv (tracking : Bool) (s : State T) : Prop where
  counts : Counts s
  history : History s
  locked : tracking → Locked s
  indexes : tracking → Indexes s

lemma Inv.step {a : Action T} (hs : Inv tracking s) (h : step tracking s a = .ok s') :
    Inv tracking s' where
  counts := hs.counts.step (step_cases h)
  history := hs.history.step hs.counts (step_cases h)
  locked := by
    rintro rfl
    exact (hs.locked rfl).step (step_cases h)
  indexes := by
    rintro rfl
    exact (hs.indexes rfl).step hs.counts hs.history (hs.locked rfl) (step_cases h)

lemma inv_interleave {as : List (Action T)} (h : interleave tracking init as = .ok s) :
    Inv tracking s :=
  foldlM_induction ⟨counts_init, .init, fun _ => .init, fun _ => .init⟩
    (fun _ _ _ _ hs hstep => hs.step hstep) h

omit [DecidableEq T] in
lemma Counts.length_lt (hs : Counts s) (h : s.senders t = .send r) : s.queue.length < capacity := by
  obtain ⟨a, -, hle, -⟩ := hs.word
  have hr := hs.loaded t
  rw [h] at hr
  have hone := Record.one_le_numBatches hr
  have hsum : r.numBatches ≤ ∑ u, (s.senders u).reserved := by
    have := Finset.single_le_sum (f := fun u => (s.senders u).reserved) (fun _ _ => Nat.zero_le _)
      (Finset.mem_univ t)
    rwa [h] at this
  have hpending : s.pending.length ≤ (s.pending.map fun e => e.record.numBatches).sum := by
    have := length_le_sum_of_one_le (s.pending.map fun e => e.record.numBatches) fun n hn => by
      obtain ⟨e, he, rfl⟩ := mem_map.1 hn
      exact hs.positive e he
    rwa [length_map] at this
  rw [pending, length_append] at hpending
  unfold reserved at hle
  rw [pending] at hle
  omega

lemma encodedValue_ne_panic {b a : ℕ} (hb : b ≤ 2 ^ 54 - 1) (ha : a ≤ 2 ^ 10 - 1) :
    encodedValue b a ≠ .error .panic := by
  have hok := encodedValue_ok.2 ⟨hb, ha, rfl⟩
  rw [hok]
  exact nofun

lemma Counts.senderStep_ne_panic (hs : Counts s) : senderStep tracking s t ≠ .error .panic := by
  have hloaded := hs.loaded t
  unfold senderStep
  split
  · exact nofun
  · split_ifs <;> exact nofun
  · split_ifs <;> exact nofun
  · exact nofun
  · next r current hr =>
    rw [hr] at hloaded
    obtain ⟨-, -, -, hroom⟩ := hloaded
    intro h
    rcases Except.bind_eq_error.1 h with h | ⟨new, -, h⟩
    · rw [allowedInsertions_eq] at hroom h
      refine encodedValue_ne_panic ?_ ?_ h
      · rw [bankId_eq]
        omega
      · omega
    · split_ifs at h
      all_goals cases h
  · exact nofun
  · next r hr =>
    rw [if_pos (hs.length_lt hr)]
    exact nofun
  · exact nofun
  · exact nofun

omit [DecidableEq T] in
lemma Counts.receiverStep_ne_panic (hs : Counts s) : receiverStep tracking s ≠ .error .panic := by
  unfold receiverStep
  split
  · exact nofun
  · split <;> exact nofun
  · split_ifs <;> exact nofun
  · split <;> exact nofun
  · exact nofun
  · exact nofun
  · split <;> exact nofun
  · split_ifs <;> exact nofun
  · next bank hr =>
    obtain ⟨-, hbank⟩ := hs.restarting bank (.inr hr)
    have hmax : maxBankId = 2 ^ 54 - 2 := rfl
    intro h
    rcases Except.bind_eq_error.1 h with h | ⟨word, -, h⟩
    · exact encodedValue_ne_panic (by omega) (Nat.le_refl _) h
    · cases h
  · exact nofun

lemma Counts.panic (hs : Counts s) {a : Action T}
    (h : RecordChannel.step tracking s a = .error .panic) :
    (∃ t r, a = .call t r ∧ r.numTransactions = 0) ∨ ∃ bank, a = .restart bank ∧ maxBankId < bank := by
  have hidle {x : Except Stop (State T)} (h : s.whenIdle x = .error .panic) : x = .error .panic := by
    unfold whenIdle at h
    split at h
    · exact h
    · cases h
  cases a with
  | call t r =>
    dsimp only [RecordChannel.step] at h
    split at h
    · split_ifs at h with hr
      exact .inl ⟨t, r, rfl, hr⟩
    · cases h
  | sender t => exact absurd h hs.senderStep_ne_panic
  | tryRecv | recvTimeout | drain | shutdown => cases hidle h
  | restart bank =>
    have h := hidle h
    split_ifs at h with hphase hbank hqueue
    · cases h
    · have hpending := hs.drained (not_not.1 hphase)
      exact absurd (append_eq_nil_iff.1 hpending).2 hqueue
    · exact .inr ⟨bank, rfl, not_le.1 hbank⟩
  | receiver => exact absurd h hs.receiverStep_ne_panic
  | timeout | leaveDrain =>
    dsimp only [RecordChannel.step] at h
    split at h <;> cases h

structure Guarantees (tracking : Bool) (s : State T) : Prop where
  once : (s.log.map fun e => (e.thread, e.call)).Nodup
  /-- a record whose call returned `Ok` has been received or is yet to be -/
  kept : ∀ res ∈ s.results, res.sent ∈ s.received ++ s.pending
  /-- a record that is in the channel is received when the receiver looks next -/
  received : ∀ e queue, s.receiver = .idle → s.queue = e :: queue →
    ∃ s', interleave tracking s [.tryRecv, .receiver, .receiver] = .ok s'
      ∧ s'.receiver = .idle ∧ s'.received = s.received ++ [e] ∧ s'.queue = queue
  /-- once a drain has ended all has been received, and nothing more is sent until the restart -/
  drained : s.phase = .drained → s.pending = [] ∧ (∀ res ∈ s.results, s.received.count res.sent = 1)
    ∧ ∀ a s', step tracking s a = .ok s' → s'.log = s.log
  /-- the word holds the bank of the last restart, or is disabled since a shutdown -/
  bankBits : bankId s.word = s.phaseBank
  budget : s.phase = .opened → allowedInsertions s.word + s.reserved = capacity
  bank : ∀ e ∈ (s.received ++ s.pending).drop s.epoch, e.record.bankId = s.bank
  positioned : tracking → ∀ res ∈ s.results, res.Positioned (s.received ++ s.pending)
  panics : ∀ a, step tracking s a = .error .panic →
    (∃ t r, a = .call t r ∧ r.numTransactions = 0) ∨ ∃ bank, a = .restart bank ∧ maxBankId < bank

theorem interleave_guarantees (tracking : Bool) (as : List (Action T)) (s : State T)
    (h : interleave tracking init as = .ok s) : Guarantees tracking s := by
  obtain ⟨hcounts, hhistory, hlocked, hindexes⟩ := inv_interleave h
  refine
    { once := hhistory.nodup
      kept := hhistory.results
      received := fun e queue hreceiver hqueue => ?_
      drained := fun hp => ⟨hcounts.drained hp, fun res hres => ?_, fun a s' hstep => ?_⟩
      bankBits := hcounts.bankId_word
      budget := fun hp => ?_
      bank := hhistory.bank
      positioned := fun ht => (hindexes ht).results
      panics := fun a => hcounts.panic }
  · refine ⟨_, by
      simp only [interleave, foldlM, step, whenIdle, hreceiver, receiverStep, hqueue]
      rfl, rfl, rfl, rfl⟩
  · have hmem := hhistory.results res hres
    rw [log, hcounts.drained hp, append_nil] at hmem
    have hnodup := hhistory.nodup
    rw [log, hcounts.drained hp, append_nil] at hnodup
    exact count_eq_one_of_mem hnodup.of_map hmem
  · cases effect_step (step_cases hstep) with
    | same h | restarting h | restarted h => exact h.log
    | refused hpushed h | finished h h' =>
      subst s'
      rfl
    | sent h => exact absurd hp (hcounts.sending _ _ h).2
  · obtain ⟨a, ha, -, hopen⟩ := hcounts.word
    have := hopen hp
    have hcap : capacity = 2 ^ 10 - 1 := rfl
    rw [allowedInsertions_eq, ha]
    omega

def twoSenders : List (Action (Fin 2)) :=
  [.restart 7, .receiver, .receiver, .receiver]
    ++ .call 0 ⟨7, [2, 1]⟩ :: List.replicate 7 (.sender 0)
    ++ .call 1 ⟨7, [4]⟩ :: List.replicate 5 (.sender 1)
    ++ [.tryRecv, .receiver, .receiver, .shutdown, .drain, .receiver, .receiver, .receiver, .receiver,
        .sender 1, .sender 1, .receiver, .receiver]

theorem interleave_guarantees_twoSenders :
    ∃ s, interleave true init twoSenders = .ok s
      ∧ (s.phase = .drained ∧ s.received.length = 2
        ∧ s.results.map SendResult.startingIndex = [some 0, some 3]) ∧ Guarantees true s := by
  obtain ⟨s, hs, hp⟩ := Except.exists_of_any (x := interleave true init twoSenders)
    (p := fun s => s.phase = .drained ∧ s.received.length = 2
      ∧ s.results.map SendResult.startingIndex = [some 0, some 3]) (by decide +kernel)
  exact ⟨s, hs, hp, interleave_guarantees true twoSenders s hs⟩

end BlackBull.RecordChannel
