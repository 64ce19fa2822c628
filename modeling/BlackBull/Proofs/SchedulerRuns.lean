import BlackBull.Lib.Trace
import BlackBull.Proofs.SchedulerFifo

/-!
# What holds of every run of the scheduler

With the arrivals as ids, every state of a machine without priorities is the image of one of a
machine with them (`FifoInv`), so both keep their lock table in every run.
-/

namespace BlackBull

open ShortCounter SchedulingStateMachine Session List BlackBull.Except

variable {φ : Task → Task} {inOrder : Prop} {s s' : Session} {t t' task : Task} {op : SchedulerOp}
  {replies : List Reply} {current : Option PriorityUsage} {n u : ℕ}

lemma Session.step_cases (h : s.step op = .ok (s', replies)) :
    ∃ r, replies = [r] ∧ s'.capability = s.capability
      ∧ (s'.active = s.active ++ r.accepted.toList ∧ s'.running = s.running ++ r.handedOut.toList
          ∧ (∀ t ∈ r.accepted, t ∈ op.given)
        ∨ (∃ task, op = .descheduleTask task ∧ s'.active = s.active.erase task
          ∧ s'.running = s.running.erase task ∧ r = {})
        ∨ op = .clearAndReinitializeState ∧ s'.active = [] ∧ s'.running = s.running
          ∧ r.accepted = none ∧ r.handedOut = none) := by
  have haccepted : ∀ task, ∀ t ∈ s.accepted task, t = task := by
    intro task t ht
    obtain ⟨m, -, rfl⟩ := Option.map_eq_some_iff.1 ht
    rfl
  have hnil : ∀ l : List Task, l = l ++ (none : Option Task).toList := fun l =>
    (append_nil l).symm
  cases op with
  | scheduleOrBufferTask task force =>
    obtain ⟨⟨m, out⟩, -, h⟩ := bind_eq_ok.1 h
    cases h
    exact ⟨_, rfl, rfl, .inl ⟨rfl, rfl, fun t ht => congrArg some (haccepted task t ht).symm⟩⟩
  | bufferTask task =>
    obtain ⟨m, -, h⟩ := bind_eq_ok.1 h
    cases h
    exact ⟨_, rfl, rfl, .inl ⟨rfl, hnil _, fun t ht => congrArg some (haccepted task t ht).symm⟩⟩
  | scheduleNextUnblockedTask =>
    obtain ⟨⟨m, out⟩, -, h⟩ := bind_eq_ok.1 h
    cases h
    exact ⟨_, rfl, rfl, .inl ⟨hnil _, rfl, nofun⟩⟩
  | descheduleTask task =>
    obtain ⟨m, -, h⟩ := bind_eq_ok.1 h
    cases h
    exact ⟨_, rfl, rfl, .inr (.inl ⟨task, rfl, rfl, rfl, rfl⟩)⟩
  | reinitializeState =>
    obtain ⟨m, -, h⟩ := bind_eq_ok.1 h
    cases h
    exact ⟨_, rfl, rfl, .inl ⟨hnil _, hnil _, nofun⟩⟩
  | clearAndReinitializeState =>
    obtain ⟨⟨m, n⟩, -, h⟩ := bind_eq_ok.1 h
    cases h
    exact ⟨_, rfl, rfl, .inr (.inr ⟨rfl, rfl, rfl, rfl, rfl⟩)⟩

/-- A state of a machine without priorities, as the image of one with the arrivals as ids. -/
structure FifoImage (φ : Task → Task) (s' s : Session) : Prop where
  relabels : Relabels φ
  inv : SchedInv True s'
  sorted : s'.active.Pairwise fun t t' => t.taskId < t'.taskId
  eq : s = s'.toFifo φ

def FifoInv (s : Session) : Prop := ∃ φ s', FifoImage φ s' s

lemma SchedInv.toFifo_congr (h : SchedInv inOrder s) {ψ : Task → Task}
    (hψ : ∀ t ∈ s.active, ψ t = φ t) : s.toFifo ψ = s.toFifo φ := by
  have hmap : ∀ l : List Task, (∀ t ∈ l, t ∈ s.active) → l.map ψ = l.map φ := fun l hl =>
    map_congr_left fun t ht => hψ t (hl t ht)
  have hqueues : (fun a => (s.machine.usageQueueToken a).toFifo ψ)
      = fun a => (s.machine.usageQueueToken a).toFifo φ := by
    funext a
    have hmem := fun w => h.mem_waiting (a := a) (w := w)
    obtain ⟨current, blocked, hq, -⟩ := (h.table.rows a).exists_priority
    rw [hq] at hmem ⊢
    refine congrArg (UsageQueueInner.fifo _) (map_congr_left fun w hw => ?_)
    rw [hψ _ (hmem w hw)]
  have hready : ∀ t ∈ s.running ++ s.machine.unblockedTaskQueue, t ∈ s.active := fun t ht =>
    (mem_filter.1 (h.ready.mem_iff.1 ht)).1
  unfold Session.toFifo SchedulingStateMachine.toFifo
  rw [hqueues, hmap _ fun t ht => ht, hmap s.running fun t ht => hready t (mem_append_left _ ht),
    hmap s.machine.unblockedTaskQueue fun t ht => hready t (mem_append_right _ ht)]

lemma FifoImage.exists_op {s1 : Session} (h : FifoImage φ s1 s) (hop : s.Allowed op) :
    ∃ ψ op1, FifoImage ψ s1 s ∧ op = op1.relabel ψ ∧ s1.Allowed op1
      ∧ ∀ t ∈ op1.given, ∀ t' ∈ s1.active, t'.taskId < t.taskId := by
  obtain ⟨hφ, hinv, hsorted, rfl⟩ := h
  have hgive : ∀ task, (s1.toFifo φ).MayGive task → ∃ ψ task1, FifoImage ψ s1 (s1.toFifo φ)
      ∧ ψ task1 = task ∧ s1.MayGive task1
      ∧ ∀ t ∈ some task1, ∀ t' ∈ s1.active, t'.taskId < t.taskId := by
    intro task htask
    obtain ⟨id, hid⟩ : ∃ id, ∀ t ∈ s1.active, t.taskId < id :=
      ⟨(s1.active.map Task.taskId).sum + 1, fun t ht =>
        Nat.lt_succ_of_le (single_le_sum (by simp) _ (mem_map_of_mem ht))⟩
    refine ⟨fun t => if t.taskId = id then { t with taskId := task.taskId } else φ t,
      { task with taskId := id }, ⟨⟨fun t => ?_, fun t => ?_, fun t => ?_⟩, hinv, hsorted, ?_⟩,
      if_pos rfl, ⟨htask.1, fun t ht => ⟨?_, fun _ => (hid t ht).ne⟩⟩, by simpa using hid⟩
    · split_ifs
      · rfl
      · exact hφ.ref t
    · split_ifs
      · rfl
      · exact hφ.hash t
    · split_ifs
      · rfl
      · exact hφ.lockContexts t
    · exact (hinv.toFifo_congr fun t ht => if_neg (hid t ht).ne).symm
    · have href := (htask.2 (φ t) (mem_map_of_mem ht)).1
      rwa [hφ.ref] at href
  cases op with
  | scheduleOrBufferTask task force =>
    obtain ⟨ψ, task1, himage, rfl, hmay, hlt⟩ := hgive task hop
    exact ⟨ψ, .scheduleOrBufferTask task1 force, himage, rfl, hmay, hlt⟩
  | bufferTask task =>
    obtain ⟨ψ, task1, himage, rfl, hmay, hlt⟩ := hgive task hop
    exact ⟨ψ, .bufferTask task1, himage, rfl, hmay, hlt⟩
  | scheduleNextUnblockedTask =>
    exact ⟨φ, .scheduleNextUnblockedTask, ⟨hφ, hinv, hsorted, rfl⟩, rfl, trivial, nofun⟩
  | descheduleTask task =>
    obtain ⟨task1, hmem, rfl⟩ := mem_map.1 hop
    exact ⟨φ, .descheduleTask task1, ⟨hφ, hinv, hsorted, rfl⟩, rfl, hmem, nofun⟩
  | reinitializeState =>
    exact ⟨φ, .reinitializeState, ⟨hφ, hinv, hsorted, rfl⟩, rfl, map_eq_nil_iff.1 hop, nofun⟩
  | clearAndReinitializeState =>
    exact ⟨φ, .clearAndReinitializeState, ⟨hφ, hinv, hsorted, rfl⟩, rfl,
      ⟨map_eq_nil_iff.1 hop.1, hop.2⟩, nofun⟩

lemma Session.active_sublist (h : s.step op = .ok (s', replies)) :
    s'.active.Sublist (s.active ++ op.given.toList) := by
  obtain ⟨r, -, -, ⟨hact, -, hgiven⟩ | ⟨task, -, hact, -⟩ | ⟨-, hact, -⟩⟩ := step_cases h
  · rw [hact]
    refine List.Sublist.append_left ?_ _
    cases hr : r.accepted with
    | none => exact nil_sublist _
    | some t => rw [hgiven t hr]
  · rw [hact]
    exact erase_sublist.trans (sublist_append_left _ _)
  · rw [hact]
    exact nil_sublist _

lemma Session.step_sorted (h : s.step op = .ok (s', replies))
    (hin : ∀ t ∈ op.given, ∀ t' ∈ s.active, t'.taskId < t.taskId)
    (hs : s.active.Pairwise fun t t' => t.taskId < t'.taskId) :
    s'.active.Pairwise fun t t' => t.taskId < t'.taskId := by
  refine List.Pairwise.sublist (active_sublist h) (pairwise_append.2 ⟨hs, ?_, fun t ht t' ht' => ?_⟩)
  · cases op.given <;> simp
  · exact hin t' (Option.mem_toList.1 ht') t ht

theorem FifoInv.step (h : FifoInv s) (hop : s.Allowed op) :
    Meets (s.step op)
      (fun r => FifoInv r.1 ∧ r.1.machine.maxRunningTaskCount = s.machine.maxRunningTaskCount)
      (fun e => e = .overflow ∧ ¬ s.Fits op) := by
  obtain ⟨φ, s1, himage⟩ := h
  obtain ⟨ψ, op1, ⟨hψ, hinv, hsorted, rfl⟩, rfl, hop1, hin⟩ := himage.exists_op hop
  have hstep := hinv.step hop1 fun _ => hin
  rw [hinv.step_toFifo hψ hop1 hin]
  rcases hr : s1.step op1 with e | ⟨s2, replies⟩
  · rw [hr] at hstep
    refine ⟨hstep.1, fun hfits => hstep.2 ?_⟩
    have hgiven : (op1.relabel ψ).given.toList.length = op1.given.toList.length := by
      cases op1 <;> rfl
    unfold Session.Fits at hfits ⊢
    rwa [hgiven] at hfits
  · rw [hr] at hstep
    exact ⟨⟨ψ, s2, hψ, hstep.1, step_sorted hr hin hsorted, rfl⟩, hstep.2⟩

lemma fifoInv_new {maxRunning maxUnique : Option ℕ}
    (h : new .fifoQueueing maxRunning maxUnique = .ok s) : FifoInv s := by
  obtain ⟨hle, rfl⟩ := new_ok.1 h
  exact ⟨id, _, ⟨fun _ => rfl, fun _ => rfl, fun _ => rfl⟩, schedInv_new (new_ok.2 ⟨hle, rfl⟩),
    List.Pairwise.nil, rfl⟩

lemma SchedInv.holds (h : SchedInv inOrder s) (ht : t ∈ s.active)
    (hz : s.machine.countToken t.ref = 0) {c : LockContext} (hc : c ∈ t.lockContexts)
    {blocked : OrdMap ℕ UsageFromTask}
    (hq : s.machine.usageQueueToken c.usageQueue = .priority current blocked) :
    (c.requestedUsage, t) ∈ holders current := by
  have hpa : s.active.Perm (s.active.erase t ++ [t]) :=
    (perm_cons_erase ht).trans (perm_append_singleton _ _).symm
  have hok := h.tasks.perm hpa
  exact ((h.table.perm hpa).unlockLoop hok hz).held hok hc hq

lemma Task.conflicts_comm : t.Conflicts t' ↔ t'.Conflicts t := by
  have hswap : ∀ {t t' : Task}, t.Conflicts t' → t'.Conflicts t := by
    rintro t t' ⟨c, hc, c', hc', ha, hw⟩
    exact ⟨c', hc', c, hc, ha.symm, hw.symm⟩
  exact ⟨hswap, hswap⟩

lemma readonly_of_holders {x y : UsageFromTask} (hx : x ∈ holders current)
    (hy : y ∈ holders current) (hne : x.2 ≠ y.2) :
    x.1 = .readonly ∧ y.1 = .readonly := by
  rcases current with _ | ⟨tasks⟩ | ⟨c⟩
  · cases hx
  · obtain ⟨_, -, rfl⟩ := mem_map.1 hx
    obtain ⟨_, -, rfl⟩ := mem_map.1 hy
    exact ⟨rfl, rfl⟩
  · obtain rfl := mem_singleton.1 hx
    obtain rfl := mem_singleton.1 hy
    exact absurd rfl hne

/-- A task that holds all its usages goes before each other one in conflict with it, where usages may
be taken back. -/
lemma SchedInv.lt_of_conflicts (h : SchedInv inOrder s) (ht : t ∈ s.active)
    (hz : s.machine.countToken t.ref = 0) (ht' : t' ∈ s.active) (hne : t' ≠ t)
    (hconf : t'.Conflicts t) : s.machine.countToken t'.ref ≠ 0
      ∧ (inOrder → t.taskId < t'.taskId) := by
  obtain ⟨c', hc', c, hc, ha, hw⟩ := hconf
  obtain ⟨current, blocked, hq, hrow⟩ := (h.table.rows c.usageQueue).exists_priority
  have hheld := h.holds ht hz hc hq
  have hnot : (c'.requestedUsage, t') ∉ holders current := fun hh => by
    obtain ⟨h1, h2⟩ := readonly_of_holders hh hheld hne
    rcases hw with hw | hw
    · exact RequestedUsage.noConfusion (h1.symm.trans hw)
    · exact RequestedUsage.noConfusion (h2.symm.trans hw)
  refine ⟨fun hz' => hnot (h.holds ht' hz' hc' (ha ▸ hq)), fun ho => ?_⟩
  have hreq : (c'.requestedUsage, t') ∈ requests c.usageQueue s.active := by
    refine mem_requests.2 ⟨ht', ?_⟩
    rwa [← ha]
  rcases mem_append.1 (hrow.perm.mem_iff.2 hreq) with hh | hwait
  · exact absurd hh hnot
  · exact hrow.order _ hheld (.inl ho) _ hwait

/-- Every active task is running, queued or waits at an address. -/
def Session.Placed (s : Session) : Prop :=
  ∀ t ∈ s.active, t ∈ s.running ∨ t ∈ s.machine.unblockedTaskQueue
    ∨ ∃ a, ∃ w ∈ (s.machine.usageQueueToken a).waiting, w.2 = t

structure SessionOk (s : Session) : Prop where
  nodup : s.active.Nodup
  running_nodup : s.running.Nodup
  running_mem : ∀ t ∈ s.running, t ∈ s.active
  conflictFree : s.running.Pairwise fun t t' => ¬ t.Conflicts t'
  running_eq : s.machine.runningTaskCount = s.running.length
  running_le : s.running.length ≤ s.machine.maxRunningTaskCount
  active_eq : s.machine.activeTaskCount = s.active.length
  placed : s.Placed
  live : s.active ≠ [] → ∃ t ∈ s.active, t ∈ s.running ∨ t ∈ s.machine.unblockedTaskQueue
  idle : s.active = [] → ∀ a, s.machine.usageQueueToken a = .new s.capability
  clears : s.running = [] → 0 < s.machine.maxRunningTaskCount →
    Meets s.machine.clearAndReinitializeState (fun r => r.2 = s.active.length)
      (fun e => e = .overflow ∧ 2 ^ 31 ≤ s.machine.totalTaskCount)

lemma LockOk.eq_new {soft : Task → Prop} {blocked : OrdMap ℕ UsageFromTask}
    (h : LockOk soft [] current blocked) :
    UsageQueueInner.priority current blocked = .new .priorityQueueing := by
  obtain ⟨hcur, -⟩ := append_eq_nil_iff.1 h.perm.eq_nil
  have hnone : current = none := by
    rcases hc : current with _ | ⟨tasks⟩ | ⟨c⟩ <;> rw [hc] at hcur
    · exact absurd (OrdMap.values_eq_nil.1 (map_eq_nil_iff.1 hcur)) (h.readers tasks hc).1
    · cases hcur
  rw [hnone, h.idle hnone]
  rfl

lemma SchedInv.sessionOk (h : SchedInv inOrder s) : SessionOk s := by
  have hnd : s.active.Nodup := h.tasks.distinct.imp fun hxy he => hxy.2 (by rw [he])
  have hready : (s.running ++ s.machine.unblockedTaskQueue).Nodup :=
    h.ready.nodup_iff.2 (hnd.filter _)
  have hrun : s.running.Nodup := (nodup_append.1 hready).1
  refine ⟨hnd, hrun, fun t ht => (h.zero_of_running ht).1, ?_, h.counters.running_eq,
    h.counters.running_le, h.counters.active_eq, fun t ht => ?_, fun hne => ?_, fun hact a => ?_,
    fun hr hmax => ?_⟩
  · refine List.Pairwise.imp_of_mem (fun {t t'} ht ht' hne hconf => ?_) hrun
    obtain ⟨hact, hz⟩ := h.zero_of_running ht
    obtain ⟨hact', hz'⟩ := h.zero_of_running ht'
    exact (h.lt_of_conflicts hact' hz' hact hne hconf).1 hz
  · by_cases hz : s.machine.countToken t.ref = 0
    · have hmem := h.ready.mem_iff.2 (mem_filter.2 ⟨ht, decide_eq_true hz⟩)
      exact (mem_append.1 hmem).imp_right .inl
    · exact .inr (.inr (h.exists_waiting ht hz))
  · by_contra hcon
    have hnone : s.running ++ s.machine.unblockedTaskQueue = [] := by
      refine eq_nil_iff_forall_not_mem.2 fun t ht => hcon ⟨t, ?_, mem_append.1 ht⟩
      exact (mem_filter.1 (h.ready.mem_iff.1 ht)).1
    obtain ⟨hrun, hqueue⟩ := append_eq_nil_iff.1 hnone
    exact hne (h.active_eq_nil hrun hqueue)
  · obtain ⟨current, blocked, hq, hrow⟩ := (h.table.rows a).exists_priority
    rw [hact] at hrow
    rw [hq, h.capability]
    exact hrow.eq_new
  · exact (h.clearAndReinitializeState hr hmax).mono fun r hr => hr.1

lemma FifoInv.sessionOk (h : FifoInv s) : SessionOk s := by
  obtain ⟨φ, s1, hφ, hinv, hsorted, rfl⟩ := h
  have hok := hinv.sessionOk
  have hinj : ∀ t ∈ s1.active, ∀ t' ∈ s1.active, φ t = φ t' → t = t' := fun t ht t' ht' he =>
    hinv.tasks.eq_of_ref ht ht' (by rw [← hφ.ref t, ← hφ.ref t', he])
  have hconf : ∀ t t' : Task, (φ t).Conflicts (φ t') ↔ t.Conflicts t' := by
    intro t t'
    unfold Task.Conflicts
    rw [hφ.lockContexts, hφ.lockContexts]
  refine ⟨List.Nodup.map_on hinj hok.nodup, List.Nodup.map_on (fun t ht t' ht' =>
      hinj t (hok.running_mem t ht) t' (hok.running_mem t' ht')) hok.running_nodup, ?_, ?_, ?_, ?_, ?_,
    ?_, fun hne => ?_, fun hact a => ?_, fun hr hmax => ?_⟩
  · intro t ht
    obtain ⟨t1, ht1, rfl⟩ := mem_map.1 ht
    exact mem_map_of_mem (hok.running_mem t1 ht1)
  · exact pairwise_map.2 (hok.conflictFree.imp fun {t t'} hn => mt (hconf t t').1 hn)
  · exact hok.running_eq.trans (length_map _).symm
  · exact (length_map _).trans_le hok.running_le
  · exact hok.active_eq.trans (length_map _).symm
  · intro t ht
    obtain ⟨t1, ht1, rfl⟩ := mem_map.1 ht
    refine (hok.placed t1 ht1).imp mem_map_of_mem (.imp mem_map_of_mem ?_)
    rintro ⟨a, w, hw, rfl⟩
    refine ⟨a, (w.1, φ w.2), ?_, rfl⟩
    obtain ⟨current, blocked, hq, -⟩ := (hinv.table.rows a).exists_priority
    show _ ∈ ((s1.machine.usageQueueToken a).toFifo φ).waiting
    rw [hq] at hw ⊢
    exact mem_map_of_mem (f := fun w => (w.1, φ w.2)) hw
  · obtain ⟨t, ht, hplace⟩ := hok.live fun hnil => hne (map_eq_nil_iff.2 hnil)
    exact ⟨φ t, mem_map_of_mem ht, hplace.imp mem_map_of_mem mem_map_of_mem⟩
  · have hq := hok.idle (map_eq_nil_iff.1 hact) a
    show (s1.machine.usageQueueToken a).toFifo φ = _
    rw [hq, hinv.capability]
    rfl
  · have hclear := hok.clears (map_eq_nil_iff.1 hr) hmax
    show Meets (s1.machine.toFifo φ).clearAndReinitializeState _ _
    rw [hinv.clearAndReinitializeState_toFifo hφ]
    rcases hres : s1.machine.clearAndReinitializeState with e | r <;> rw [hres] at hclear
    · exact hclear
    · exact hclear.trans (length_map _).symm

lemma FifoInv.ordered (h : FifoInv s) :
    s.active.Pairwise fun t t' => t' ∈ s.running → ¬ t.Conflicts t' := by
  obtain ⟨φ, s1, hφ, hinv, hsorted, rfl⟩ := h
  refine pairwise_map.2 (List.Pairwise.imp_of_mem (fun {t t'} ht ht' hlt hrun hconf => ?_) hsorted)
  obtain ⟨t'', hrun'', he⟩ := mem_map.1 hrun
  obtain ⟨hact, hz⟩ := hinv.zero_of_running hrun''
  obtain rfl := hinv.tasks.eq_of_ref hact ht' (by rw [← hφ.ref t'', ← hφ.ref t', he])
  unfold Task.Conflicts at hconf
  rw [hφ.lockContexts, hφ.lockContexts] at hconf
  have hne : t ≠ t'' := fun he => hlt.ne (by rw [he])
  exact absurd ((hinv.lt_of_conflicts hact hz ht hne hconf).2 trivial) hlt.asymm

def Session.pending (s : Session) : List Task := s.active.filter (· ∉ s.running)

def acceptedTasks (replies : List Reply) : List Task := replies.filterMap Reply.accepted

def handedOutTasks (replies : List Reply) : List Task := replies.filterMap Reply.handedOut

lemma acceptedTasks_append (replies : List Reply) (r : Reply) :
    acceptedTasks (replies ++ [r]) = acceptedTasks replies ++ r.accepted.toList := by
  unfold acceptedTasks
  cases h : r.accepted <;> simp [h]

lemma handedOutTasks_append (replies : List Reply) (r : Reply) :
    handedOutTasks (replies ++ [r]) = handedOutTasks replies ++ r.handedOut.toList := by
  unfold handedOutTasks
  cases h : r.handedOut <;> simp [h]

lemma TraceEq.of_filter_ne {indep : Task → Task → Prop} : ∀ {l : List Task}, l.Nodup → t ∈ l →
    l.Pairwise (fun x y => y = t → indep t x) → TraceEq indep (t :: l.filter (· ≠ t)) l
  | x :: l, hnd, ht, hp => by
    obtain ⟨hx, hnd⟩ := nodup_cons.1 hnd
    obtain ⟨hpx, hp⟩ := pairwise_cons.1 hp
    rcases eq_or_ne x t with rfl | hne
    · rw [filter_cons_of_neg (by simp), filter_eq_self.2 fun y hy => ?_]
      exact decide_eq_true fun he => hx (he ▸ hy)
    · have htl : t ∈ l := (mem_cons.1 ht).resolve_left fun he => hne he.symm
      rw [filter_cons_of_pos (by simpa using hne)]
      exact (TraceEq.swap _ (hpx t htl rfl)).trans (.cons x (of_filter_ne hnd htl hp))

/-- What one call does to the order: the accepted tasks, in the order they arrived in and without
those cleared, are those handed out and then the pending ones, up to exchanges of independent
ones. -/
structure Ordered (indep : Task → Task → Prop) (ops : List SchedulerOp) (replies : List Reply)
    (s : Session) (l : List Task) : Prop where
  sub : l.Sublist (acceptedTasks replies)
  all : .clearAndReinitializeState ∉ ops → l = acceptedTasks replies
  eq : TraceEq indep (handedOutTasks replies ++ s.pending) l

lemma Ordered.step {indep : Task → Task → Prop} {ops : List SchedulerOp} {replies' : List Reply}
    {l : List Task} (h : Ordered indep ops replies s l) (hok : SessionOk s) (hok' : SessionOk s')
    (hindep : s'.active.Pairwise fun x y => y ∈ s'.running → indep y x) (hop : s.Allowed op)
    (hstep : s.step op = .ok (s', replies')) :
    ∃ l', Ordered indep (ops ++ [op]) (replies ++ replies') s' l' := by
  obtain ⟨r, rfl, -, ⟨hact, hrun, -⟩ | ⟨task, rfl, hact, hrun, rfl⟩ | ⟨rfl, hact, hrun, hacc, hout⟩⟩ :=
    step_cases hstep
  · -- the tasks that may be handed out next
    have hnew : ∀ t ∈ r.accepted, t ∉ s.running := fun t ht hmem => by
      have hnd := hok'.nodup
      rw [hact] at hnd
      exact disjoint_of_nodup_append hnd (hok.running_mem t hmem) (Option.mem_toList.2 ht)
    have hall : s'.active.filter (· ∉ s.running) = s.pending ++ r.accepted.toList := by
      rw [hact, filter_append]
      refine congrArg (s.pending ++ ·) (filter_eq_self.2 fun t ht => ?_)
      exact decide_eq_true (hnew t (Option.mem_toList.1 ht))
    refine ⟨l ++ r.accepted.toList, ?_, fun hno => ?_, ?_⟩
    · rw [acceptedTasks_append]
      exact h.sub.append_right _
    · rw [acceptedTasks_append, h.all fun hm => hno (mem_append_left _ hm)]
    · rw [handedOutTasks_append, append_assoc]
      have hmove : TraceEq indep (r.handedOut.toList ++ s'.pending) (s.pending ++ r.accepted.toList) := by
        rw [← hall]
        unfold pending
        rcases hh : r.handedOut with _ | t <;> rw [hh] at hrun
        · rw [hrun, Option.toList_none, append_nil]
          exact TraceEq.refl _
        · have hnd := hok'.running_nodup
          rw [hrun] at hnd
          have ht : t ∉ s.running := fun hm =>
            disjoint_of_nodup_append hnd hm (Option.mem_toList.2 rfl)
          have ht' : t ∈ s'.running := hrun ▸ mem_append_right _ (Option.mem_toList.2 rfl)
          have hfilter : s'.active.filter (· ∉ s'.running)
              = (s'.active.filter (· ∉ s.running)).filter (· ≠ t) := by
            rw [filter_filter, hrun]
            simp [and_comm]
          rw [hfilter]
          refine TraceEq.of_filter_ne (hok'.nodup.filter _)
            (mem_filter.2 ⟨hok'.running_mem t ht', decide_eq_true ht⟩) ?_
          exact (hindep.imp fun hxy he => he ▸ hxy (he ▸ ht')).filter _
      refine (hmove.append_left _).trans ?_
      rw [← append_assoc]
      exact h.eq.append_right _
  · -- a task that was handed out leaves
    have hpending : s'.pending = s.pending := by
      unfold pending
      rw [hact, hrun, hok.nodup.erase_eq_filter, filter_filter]
      refine filter_congr fun x _ => ?_
      rcases eq_or_ne x task with rfl | hne
      · have hmem : x ∈ s.running := hop
        simp [hmem]
      · simp [hne]
    refine ⟨l, ?_, fun hno => ?_, ?_⟩
    · rw [acceptedTasks_append]
      exact h.sub.trans (sublist_append_left _ _)
    · rw [acceptedTasks_append, h.all fun hm => hno (mem_append_left _ hm)]
      exact (append_nil _).symm
    · rw [handedOutTasks_append, hpending]
      show TraceEq indep (handedOutTasks replies ++ [] ++ s.pending) l
      rw [append_nil]
      exact h.eq
  · -- the pending tasks are cleared
    obtain ⟨l', hl', heq⟩ := h.eq.exists_sublist (sublist_append_left _ _)
    refine ⟨l', ?_, fun hno => absurd mem_concat_self hno, ?_⟩
    · rw [acceptedTasks_append, hacc, Option.toList_none, append_nil]
      exact hl'.trans h.sub
    · rw [handedOutTasks_append, hout, Option.toList_none, append_nil]
      unfold pending
      rwa [hact, filter_nil, append_nil]

def SessionInv (s : Session) : Prop :=
  s.capability = .priorityQueueing ∧ SchedInv False s ∨ s.capability = .fifoQueueing ∧ FifoInv s

lemma SessionInv.sessionOk (h : SessionInv s) : SessionOk s :=
  h.elim (fun h => h.2.sessionOk) fun h => h.2.sessionOk

theorem SessionInv.step (h : SessionInv s) (hop : s.Allowed op) :
    Meets (s.step op)
      (fun r => SessionInv r.1 ∧ r.1.machine.maxRunningTaskCount = s.machine.maxRunningTaskCount)
      (fun e => e = .overflow ∧ ¬ s.Fits op) := by
  rcases h with ⟨hcap, h⟩ | ⟨hcap, h⟩
  · refine (h.step hop fun hin => hin.elim).imp_of_ok fun r hr hinv => ?_
    obtain ⟨_, -, hsame, -⟩ := step_cases hr
    exact ⟨.inl ⟨hsame.trans hcap, hinv.1⟩, hinv.2⟩
  · refine (h.step hop).imp_of_ok fun r hr hinv => ?_
    obtain ⟨_, -, hsame, -⟩ := step_cases hr
    exact ⟨.inr ⟨hsame.trans hcap, hinv.1⟩, hinv.2⟩

section Runs

variable {capability : Capability} {maxRunning maxUnique : Option ℕ} {s₀ : Session}
  {ops : List SchedulerOp}

lemma new_eq (h : new capability maxRunning maxUnique = .ok s) :
    s.capability = capability ∧ s.machine.maxRunningTaskCount = maxRunning.getD counterMax
      ∧ s.active = [] ∧ s.running = [] := by
  obtain ⟨-, rfl⟩ := new_ok.1 h
  exact ⟨rfl, rfl, rfl, rfl⟩

lemma sessionInv_new (h : new capability maxRunning maxUnique = .ok s) : SessionInv s := by
  obtain ⟨hcap, -⟩ := new_eq h
  rcases capability with _ | _
  · exact .inr ⟨hcap, fifoInv_new h⟩
  · exact .inl ⟨hcap, schedInv_new h⟩

/-- The invariant, the bound of the configuration, and each task that was handed out was accepted
before, and not handed out already. -/
def Tracked (capability : Capability) (maxRunning : Option ℕ) (ops : List SchedulerOp)
    (replies : List Reply) (s : Session) : Prop :=
  SessionInv s ∧ s.capability = capability
    ∧ s.machine.maxRunningTaskCount = maxRunning.getD counterMax
    ∧ ∃ l, Ordered (fun _ _ => True) ops replies s l

lemma session_run (hnew : new capability maxRunning maxUnique = .ok s₀)
    (hops : Guarded step Session.Allowed s₀ ops) :
    Meets (run step s₀ ops)
      (fun r => Tracked capability maxRunning ops r.2 r.1)
      (fun e => e = .overflow ∧ ¬ Guarded step Session.Fits s₀ ops) := by
  obtain ⟨hcap, hmax, hact, hrun⟩ := new_eq hnew
  refine run_meets (P := Tracked capability maxRunning)
    ⟨sessionInv_new hnew, hcap, hmax, [], .refl _, fun _ => rfl, ?_⟩ ?_ hops
  · unfold pending
    rw [hact]
    exact .nil
  · rintro ops replies s op ⟨hinv, hcap, hmax, l, hl⟩ hop
    refine (hinv.step hop).imp_of_ok fun r hr hinv' => ?_
    obtain ⟨_, -, hsame, -⟩ := step_cases hr
    exact ⟨hinv'.1, hsame.trans hcap, hinv'.2.trans hmax, hl.step hinv.sessionOk hinv'.1.sessionOk
      (pairwise_of_forall fun _ _ _ => trivial) hop hr⟩

/-- Tasks that run at the same time do not conflict and are no more than allowed. -/
structure ConflictFree (maxRunning : Option ℕ) (s : Session) : Prop where
  pairwise : s.running.Pairwise fun t t' => ¬ t.Conflicts t'
  count : s.machine.runningTaskCount = s.running.length
  le : s.machine.runningTaskCount ≤ maxRunning.getD counterMax

/-- The running tasks are free of conflicts. The run fails only as a counter overflows, and then at
least `2 ^ 31` tasks were given since an initialization. -/
theorem running_conflict_free (hnew : Session.new capability maxRunning maxUnique = .ok s₀)
    (hops : Guarded step Session.Allowed s₀ ops) :
    Meets (run step s₀ ops) (fun r => ConflictFree maxRunning r.1)
      (fun e => e = .overflow ∧ ¬ Guarded step Session.Fits s₀ ops) := by
  refine (session_run hnew hops).mono ?_
  rintro r ⟨hinv, -, hmax, -⟩
  have hok := hinv.sessionOk
  exact ⟨hok.conflictFree, hok.running_eq, hok.running_eq ▸ hmax ▸ hok.running_le⟩

theorem running_conflict_free_pair : ∃ s₀, Session.new .priorityQueueing (some 2) none = .ok s₀
    ∧ ∃ ops, Guarded step Session.Allowed s₀ ops
    ∧ (run step s₀ ops).toOption.any (fun r => r.1.running.length = 2) = true
    ∧ Meets (run step s₀ ops) (fun r => ConflictFree (some 2) r.1)
      (fun e => e = .overflow ∧ ¬ Guarded step Session.Fits s₀ ops) := by
  refine ⟨_, rfl, [.scheduleOrBufferTask ⟨0, 7, 0, [⟨0, .readonly⟩, ⟨1, .writable⟩]⟩ false,
      .scheduleOrBufferTask ⟨1, 5, 1, [⟨1, .writable⟩]⟩ false,
      .scheduleOrBufferTask ⟨2, 3, 2, [⟨0, .readonly⟩]⟩ false], ?_, ?_,
    running_conflict_free rfl ?_⟩
  all_goals decide +kernel

def emptyTask (k : ℕ) : Task := { ref := k, taskId := k, hash := k, lockContexts := [] }

def Session.handled (n unblocked : ℕ) : Session where
  capability := .fifoQueueing
  machine := {
    peakActiveTaskCount := if n = 0 then 0 else 1
    maxUniqueActiveTaskCount := none
    handledTaskCount := n
    unblockedTaskCount := unblocked
    totalTaskCount := n
    maxRunningTaskCount := counterMax
    usageQueueToken := fun _ => .new .fifoQueueing }

lemma counterMax_pos : 0 < counterMax := by decide

lemma new_handled : new .fifoQueueing none none = .ok (.handled 0 0) := new_ok.2 ⟨le_rfl, rfl⟩

lemma handled_peak (n : ℕ) : max (if n = 0 then 0 else 1) (0 + 1) = 1 := by
  split_ifs <;> rfl

def Session.giving (n unblocked : ℕ) (queue running : List Task) : Session :=
  { handled n unblocked with
    machine := { (handled n unblocked).machine with
      unblockedTaskQueue := queue
      peakActiveTaskCount := 1
      activeTaskCount := 1
      runningTaskCount := running.length
      totalTaskCount := n + 1 }
    active := [emptyTask n]
    running := running }

lemma mayGive_handled (n u : ℕ) : (handled n u).MayGive (emptyTask n) :=
  ⟨⟨nodup_nil, counterMax_pos⟩, nofun⟩

lemma step_schedule_handled (hn : n < counterMax) :
    (handled n u).step (.scheduleOrBufferTask (emptyTask n) false)
      = .ok (.giving n u [] [emptyTask n], [{ accepted := emptyTask n, handedOut := emptyTask n }]) := by
  have h0 := increment_ok counterMax_pos
  have hpeak := handled_peak n
  simp only [step, scheduleOrBufferTask, handled, insertHash, increment_ok hn, h0,
    tryLockUsageQueues, emptyTask, foldlM_nil, runOrBuffer, isTaskRunnable,
    accepted, hpeak, bind, Except.bind, pure, Except.pure]
  rfl

lemma step_buffer_handled (hn : n < counterMax) (hu : u < counterMax) :
    (handled n u).step (.bufferTask (emptyTask n))
      = .ok (.giving n (u + 1) [emptyTask n] [], [{ accepted := emptyTask n }]) := by
  have h0 := increment_ok counterMax_pos
  have hpeak := handled_peak n
  simp only [step, bufferTask, scheduleOrBufferTask, handled, insertHash,
    increment_ok hn, h0, tryLockUsageQueues, emptyTask, foldlM_nil, runOrBuffer, hpeak,
    accepted, bind, Except.bind, pure, Except.pure, if_true, Bool.or_true, increment_ok hu]
  rfl

lemma next_giving (n u : ℕ) :
    (giving n u [emptyTask n] []).machine.scheduleNextUnblockedTask
      = (increment u).map fun u' => ((giving n u' [] [emptyTask n]).machine,
        some (emptyTask n)) := by
  have h0 := increment_ok counterMax_pos
  simp only [scheduleNextUnblockedTask, giving, handled, isTaskRunnable,
    length_nil, counterMax_pos, decide_true, if_true, h0]
  cases increment u <;> rfl

lemma step_next_giving (hu : u < counterMax) :
    (giving n u [emptyTask n] []).step .scheduleNextUnblockedTask
      = .ok (.giving n (u + 1) [] [emptyTask n], [{ handedOut := emptyTask n }]) := by
  show ((giving n u [emptyTask n] []).machine.scheduleNextUnblockedTask >>= _) = _
  rw [next_giving, increment_ok hu]
  rfl

lemma step_deschedule_giving (hn : n < counterMax) :
    (giving n u [] [emptyTask n]).step (.descheduleTask (emptyTask n))
      = .ok (.handled (n + 1) u, [{}]) := by
  simp only [step, descheduleTask, giving, handled, increment_ok hn,
    removeHash, unlockUsageQueues, emptyTask, foldlM_nil, bind, Except.bind, pure, Except.pure,
    length_singleton, decrement, Option.isSome_none, erase_cons_head, Nat.succ_ne_zero,
    Bool.false_eq_true, if_false]

/-- The count of all tasks overflows in a machine that is never reinitialized. -/
theorem total_task_count_overflows : ∃ s₀, Session.new .fifoQueueing none none = .ok s₀
    ∧ ∃ ops, Guarded step Session.Allowed s₀ ops
    ∧ run step s₀ ops = .error .overflow := by
  let round (n : ℕ) : List SchedulerOp :=
    [.scheduleOrBufferTask (emptyTask n) false, .descheduleTask (emptyTask n)]
  have hround : ∀ n < counterMax, Guarded step Session.Allowed (.handled n 0) (round n)
      ∧ run step (.handled n 0) (round n) = .ok (.handled (n + 1) 0, [{ accepted := emptyTask n, handedOut := emptyTask n }, {}]) := by
    intro n hn
    refine ⟨⟨mayGive_handled n 0, fun s' o h => ⟨?_, fun _ _ _ => trivial⟩⟩, ?_⟩
    · cases (step_schedule_handled hn).symm.trans h
      exact mem_cons_self
    · refine run_cons_ok.2 ⟨_, _, _, step_schedule_handled hn, ?_, rfl⟩
      exact run_cons_ok.2 ⟨_, _, _, step_deschedule_giving hn, rfl, rfl⟩
  obtain ⟨N, hN⟩ : ∃ N, N = counterMax := ⟨_, rfl⟩
  rw [← hN] at hround
  obtain ⟨hG, hrun⟩ := run_rounds (S := fun n => handled n 0) hround
  refine ⟨_, new_handled, _, guarded_append.2 ⟨hG, fun s' o h => ?_⟩, run_append_error hrun
    (?_ : run _ _ [.scheduleOrBufferTask (emptyTask N) false] = _)⟩
  · cases hrun.symm.trans h
    exact ⟨mayGive_handled _ _, fun _ _ _ => trivial⟩
  · have hover : increment N = .error .overflow := if_neg (hN ▸ lt_irrefl _)
    show ((increment N >>= _) >>= _) >>= _ = _
    rw [hover]
    rfl

/-- No task is lost: it is handed out at most once; while it is active it is running, queued or waits
at an address, and some active task is running or queued; the queues of an inactive machine are new;
and a machine that runs nothing clears all active tasks. -/
structure NoTaskLost (capability : Capability) (replies : List Reply) (s : Session) : Prop where
  once : (handedOutTasks replies).Subperm (acceptedTasks replies)
  placed : s.Placed
  live : s.machine.hasNoActiveTask
    ∨ ∃ t ∈ s.active, t ∈ s.running ∨ t ∈ s.machine.unblockedTaskQueue
  idle : s.machine.hasNoActiveTask → ∀ a, s.machine.usageQueueToken a = .new capability
  clears : s.machine.hasNoRunningTask → Meets s.machine.clearAndReinitializeState
    (fun c => c.2 = s.active.length) (fun e => e = .overflow ∧ 2 ^ 31 ≤ s.machine.totalTaskCount)

/-- A run loses no task. It fails only as a counter overflows. -/
theorem no_task_lost (hpos : maxRunning ≠ some 0)
    (hnew : Session.new capability maxRunning maxUnique = .ok s₀)
    (hops : Guarded step Session.Allowed s₀ ops) :
    Meets (run step s₀ ops) (fun r => NoTaskLost capability r.2 r.1)
      (fun e => e = .overflow ∧ ¬ Guarded step Session.Fits s₀ ops) := by
  refine (session_run hnew hops).mono ?_
  rintro ⟨s, replies⟩ ⟨hinv, hcap, hmax, l, hl⟩
  have hok := hinv.sessionOk
  have hactive : s.machine.hasNoActiveTask ↔ s.active = [] := by
    unfold hasNoActiveTask
    rw [decide_eq_true_eq, hok.active_eq, length_eq_zero_iff]
  have hrunning : s.machine.hasNoRunningTask ↔ s.running = [] := by
    unfold hasNoRunningTask
    rw [decide_eq_true_eq, hok.running_eq, length_eq_zero_iff]
  have hmaxpos : 0 < s.machine.maxRunningTaskCount := by
    rw [hmax]
    rcases maxRunning with _ | _ | n
    · decide
    · exact absurd rfl hpos
    · exact Nat.succ_pos n
  refine ⟨?_, hok.placed, ?_, fun hno => hcap ▸ hok.idle (hactive.1 hno),
    fun hno => hok.clears (hrunning.1 hno) hmaxpos⟩
  · exact (sublist_append_left _ _).subperm.trans (hl.eq.perm.subperm.trans hl.sub.subperm)
  · rw [hactive]
    exact or_iff_not_imp_left.2 hok.live

theorem no_task_lost_reblocked : ∃ s₀, Session.new .priorityQueueing (some 1) none = .ok s₀
    ∧ ∃ ops, Guarded step Session.Allowed s₀ ops
    ∧ (run step s₀ ops).toOption.any (fun r => r.1.active.length = 3
      ∧ r.1.machine.unblockedTaskQueue = []) = true
    ∧ Meets (run step s₀ ops) (fun r => NoTaskLost .priorityQueueing r.2 r.1)
      (fun e => e = .overflow ∧ ¬ Guarded step Session.Fits s₀ ops) := by
  refine ⟨_, rfl, [.scheduleOrBufferTask ⟨0, 7, 0, [⟨0, .writable⟩]⟩ false,
      .scheduleOrBufferTask ⟨1, 5, 1, [⟨0, .writable⟩, ⟨1, .writable⟩]⟩ false,
      .scheduleOrBufferTask ⟨2, 3, 2, [⟨0, .readonly⟩, ⟨1, .writable⟩]⟩ false], ?_, ?_,
    @no_task_lost _ (some 1) none _ _ ?_ rfl ?_⟩
  all_goals decide +kernel

/-- A task that is buffered and taken from the queue counts twice, so fewer tasks make
`clearAndReinitializeState` fail. -/
theorem clear_overflows : ∃ s₀, Session.new .fifoQueueing none none = .ok s₀
    ∧ ∃ ops s replies, Guarded step Session.Allowed s₀ ops
    ∧ run step s₀ ops = .ok (s, replies) ∧ s.machine.hasNoRunningTask
    ∧ s.machine.clearAndReinitializeState = .error .overflow := by
  have hround : ∀ n < 2 ^ 31 - 1, Guarded step Session.Allowed (.handled n (2 * n))
        [.bufferTask (emptyTask n), .scheduleNextUnblockedTask, .descheduleTask (emptyTask n)]
      ∧ run step (.handled n (2 * n))
          [.bufferTask (emptyTask n), .scheduleNextUnblockedTask, .descheduleTask (emptyTask n)]
        = .ok (.handled (n + 1) (2 * (n + 1)), [{ accepted := emptyTask n },
          { handedOut := emptyTask n }, {}]) := by
    intro n hn
    obtain ⟨hn0, hu0, hu1⟩ : n < counterMax ∧ 2 * n < counterMax ∧ 2 * n + 1 < counterMax := by
      rw [counterMax]
      omega
    refine ⟨⟨mayGive_handled n _, fun s' o h => ⟨trivial, fun s2 o2 h2 => ⟨?_, fun _ _ _ => trivial⟩⟩⟩,
      ?_⟩
    · cases (step_buffer_handled hn0 hu0).symm.trans h
      cases (step_next_giving hu1).symm.trans h2
      exact mem_cons_self
    · refine run_cons_ok.2 ⟨_, _, _, step_buffer_handled hn0 hu0, ?_, rfl⟩
      refine run_cons_ok.2 ⟨_, _, _, step_next_giving hu1, ?_, rfl⟩
      exact run_cons_ok.2 ⟨_, _, _, step_deschedule_giving hn0, rfl, rfl⟩
  obtain ⟨N, hN⟩ : ∃ N, N = 2 ^ 31 - 1 := ⟨_, rfl⟩
  rw [← hN] at hround
  have hlt : N < counterMax ∧ 2 * N < counterMax ∧ ¬ 2 * N + 1 < counterMax := by
    rw [counterMax]
    omega
  obtain ⟨hG, hrun⟩ := run_rounds (S := fun n => handled n (2 * n)) hround
  have hlast : run step (.handled N (2 * N)) [.bufferTask (emptyTask N)]
      = .ok (.giving N (2 * N + 1) [emptyTask N] [], [{ accepted := emptyTask N }]) :=
    run_cons_ok.2 ⟨_, _, _, step_buffer_handled hlt.1 hlt.2.1, rfl, rfl⟩
  refine ⟨_, new_handled, _, _, _, guarded_append.2 ⟨hG, fun s' o h => ?_⟩,
    run_append_ok.2 ⟨_, _, _, hrun, hlast, rfl⟩, ?_, ?_⟩
  · cases hrun.symm.trans h
    exact ⟨mayGive_handled _ _, fun _ _ _ => trivial⟩
  · rfl
  · have hover : increment (2 * N + 1) = .error .overflow := if_neg hlt.2.2
    unfold clearAndReinitializeState SchedulingStateMachine.clear
    rw [next_giving, hover]
    rfl

lemma Session.allowed_of_toFifo (hop : (s.toFifo id).Allowed op)
    (hin : ∀ t ∈ op.given, ∀ t' ∈ s.active, t'.taskId < t.taskId) : s.Allowed op := by
  have hactive : (s.toFifo id).active = s.active := map_id _
  have hrunning : (s.toFifo id).running = s.running := map_id _
  have hgive : ∀ task, task ∈ op.given → (s.toFifo id).MayGive task → s.MayGive task := by
    intro task htask hmay
    refine ⟨hmay.1, fun t ht => ⟨(hmay.2 t (hactive ▸ ht)).1, fun _ => (hin task htask t ht).ne⟩⟩
  cases op with
  | scheduleOrBufferTask task force | bufferTask task => exact hgive task rfl hop
  | scheduleNextUnblockedTask => trivial
  | descheduleTask task =>
    have hmem : task ∈ (s.toFifo id).running := hop
    rwa [hrunning] at hmem
  | reinitializeState => exact hactive.symm.trans hop
  | clearAndReinitializeState => exact ⟨hrunning.symm.trans hop.1, hop.2⟩

lemma run_toFifo {s1 : Session} (hinv : SchedInv True s1)
    (hops : Guarded step Session.Allowed (s1.toFifo id) ops)
    (hids : (ops.filterMap SchedulerOp.given).Pairwise fun t t' => t.taskId < t'.taskId)
    (hactive : s1.active = []) : run step (s1.toFifo id) ops
      = (run step s1 ops).map fun r => (r.1.toFifo id, r.2) := by
  refine run_eq_map (I := fun s ops => SchedInv True s
    ∧ Guarded step Session.Allowed (s.toFifo id) ops
    ∧ (s.active ++ ops.filterMap SchedulerOp.given).Pairwise fun t t' => t.taskId < t'.taskId) ?_
    ⟨hinv, hops, by rwa [hactive]⟩
  rintro s op ops ⟨hinv, hG, hids⟩
  rw [filterMap_cons] at hids
  have hin : ∀ t ∈ op.given, ∀ t' ∈ s.active, t'.taskId < t.taskId := by
    intro t ht t' ht'
    rw [ht] at hids
    exact (pairwise_append.1 hids).2.2 t' ht' t mem_cons_self
  have hop := allowed_of_toFifo hG.1 hin
  have heq : (s.toFifo id).step op = (s.step op).map fun r => (r.1.toFifo id, r.2) := by
    have hid : Relabels id := ⟨fun _ => rfl, fun _ => rfl, fun _ => rfl⟩
    have hstep := hinv.step_toFifo hid hop hin
    have hop' : op.relabel id = op := by cases op <;> rfl
    have hreply : Reply.relabel id = id := by
      funext r
      simp [Reply.relabel]
    rwa [hop', hreply, map_id_fun] at hstep
  refine ⟨heq, fun s' replies hs' => ?_⟩
  have hinv' := hinv.step hop fun _ => hin
  rw [hs'] at hinv' heq
  refine ⟨hinv'.1, hG.2 _ _ heq, ?_⟩
  -- the ids of the active tasks and of those to come still grow
  have hrest : (s.active ++ op.given.toList ++ ops.filterMap SchedulerOp.given).Pairwise
      fun t t' => t.taskId < t'.taskId := by
    cases hg : op.given <;> rw [hg] at hids
    · rwa [Option.toList_none, append_nil]
    · rwa [Option.toList_some, append_assoc]
  exact hrest.sublist ((active_sublist hs').append_right _)

/-- Without priorities, a task runs only when all tasks that were accepted before it and conflict with
it have left; so the order the tasks are handed out in has the effect of the order they arrived in. And
with priorities the answers are the same, where the ids grow with the arrivals. -/
theorem fifo_serial {s₁ : Session} (hnew : Session.new .fifoQueueing maxRunning maxUnique = .ok s₀)
    (hops : Guarded step Session.Allowed s₀ ops)
    (hprio : Session.new .priorityQueueing maxRunning maxUnique = .ok s₁) :
    Meets (run step s₀ ops)
      (fun r => r.1.active.Pairwise (fun t t' => t' ∈ r.1.running → ¬ t.Conflicts t')
        ∧ ∃ l, l.Sublist (acceptedTasks r.2)
          ∧ (.clearAndReinitializeState ∉ ops → l = acceptedTasks r.2)
          ∧ TraceEq (fun t t' => ¬ t.Conflicts t') (handedOutTasks r.2 ++ r.1.pending) l
          ∧ ∀ (σ : Type) (exec : σ → Task → σ),
            (∀ t t', ¬ t.Conflicts t' → ∀ x, exec (exec x t) t' = exec (exec x t') t) →
              ∀ x, (handedOutTasks r.2 ++ r.1.pending).foldl exec x = l.foldl exec x)
      (fun e => e = .overflow ∧ ¬ Guarded step Session.Fits s₀ ops)
    ∧ ((ops.filterMap SchedulerOp.given).Pairwise (fun t t' => t.taskId < t'.taskId) →
      (run step s₁ ops).map Prod.snd = (run step s₀ ops).map Prod.snd) := by
  obtain ⟨-, -, hactive, -⟩ := new_eq hnew
  constructor
  · refine (run_meets (P := fun ops replies s => FifoInv s
      ∧ ∃ l, Ordered (fun t t' => ¬ t.Conflicts t') ops replies s l)
      ⟨fifoInv_new hnew, [], .refl _, fun _ => rfl, ?_⟩ ?_ hops).mono ?_
    · unfold pending
      rw [hactive]
      exact .nil
    · rintro ops replies s op ⟨hinv, l, hl⟩ hop
      refine (hinv.step hop).imp_of_ok fun r hr hinv' => ⟨hinv'.1, ?_⟩
      refine hl.step hinv.sessionOk hinv'.1.sessionOk ?_ hop hr
      exact hinv'.1.ordered.imp fun hxy hrun hconf => hxy hrun (Task.conflicts_comm.1 hconf)
    · rintro r ⟨hinv, l, hl⟩
      exact ⟨hinv.ordered, l, hl.sub, hl.all, hl.eq, fun σ exec hexec x => hl.eq.foldl_eq hexec x⟩
  · intro hids
    have hs0 : s₀ = s₁.toFifo id := by
      rw [(new_ok.1 hnew).2, (new_ok.1 hprio).2]
      rfl
    rw [hs0, run_toFifo (schedInv_new hprio) (hs0 ▸ hops) hids (new_eq hprio).2.2.1]
    cases run step s₁ ops <;> rfl

theorem fifo_serial_reader : ∃ s₀ s₁, Session.new .fifoQueueing none none = .ok s₀
    ∧ Session.new .priorityQueueing none none = .ok s₁
    ∧ ∃ ops, Guarded step Session.Allowed s₀ ops
    ∧ (ops.filterMap SchedulerOp.given).Pairwise (fun t t' => t.taskId < t'.taskId)
    ∧ (run step s₀ ops).toOption.any (fun r => (handedOutTasks r.2).map Task.ref = [0, 3, 1])
      = true
    ∧ (run step s₁ ops).map Prod.snd = (run step s₀ ops).map Prod.snd := by
  refine ⟨_, _, rfl, rfl, [.scheduleOrBufferTask ⟨0, 1, 0, [⟨0, .writable⟩]⟩ false,
      .scheduleOrBufferTask ⟨1, 2, 1, [⟨0, .readonly⟩, ⟨1, .writable⟩]⟩ false,
      .scheduleOrBufferTask ⟨2, 3, 2, [⟨1, .writable⟩]⟩ false,
      .scheduleOrBufferTask ⟨3, 4, 3, [⟨2, .writable⟩]⟩ false,
      .descheduleTask ⟨0, 1, 0, [⟨0, .writable⟩]⟩, .scheduleNextUnblockedTask], ?_, ?_, ?_,
    (@fifo_serial none none _ _ _ rfl ?_ rfl).2 ?_⟩
  all_goals decide +kernel

/-- A task that was dropped does not hold up one that conflicts with it. -/
theorem dropped_task_overtaken : ∃ s₀, Session.new .fifoQueueing none (some 1) = .ok s₀
    ∧ ∃ x t t' : Task, t.Conflicts t' ∧ ∃ ops, ops = [.scheduleOrBufferTask x false,
      .scheduleOrBufferTask t false, .descheduleTask x, .scheduleOrBufferTask t' false]
    ∧ Guarded step Session.Allowed s₀ ops
    ∧ (run step s₀ ops).toOption.any (fun r => handedOutTasks r.2 = [x, t']) = true := by
  refine ⟨_, rfl, emptyTask 0, ⟨1, 1, 1, [⟨0, .writable⟩]⟩, ⟨2, 2, 2, [⟨0, .writable⟩]⟩, ?_, _, rfl,
    ?_, ?_⟩
  all_goals decide +kernel

end Runs

end BlackBull
