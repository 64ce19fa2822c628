import BlackBull.Proofs.LockTable

/-!
# The state machine keeps its lock table

Every call that the protocol allows keeps `SchedInv`. It can only fail as a counter overflows, and
then many tasks were given since the last initialization.
-/

namespace BlackBull

open ShortCounter SchedulingStateMachine List Option SchedulingStateMachine

structure CountersOk (m : SchedulingStateMachine) (active running : List Task) : Prop where
  active_eq : m.activeTaskCount = active.length
  running_eq : m.runningTaskCount = running.length
  running_le : running.length ≤ m.maxRunningTaskCount
  max_le : m.maxRunningTaskCount ≤ counterMax
  total_eq : m.droppedTaskCount + m.handledTaskCount + active.length = m.totalTaskCount
  total_le : m.totalTaskCount ≤ counterMax
  /-- A task is counted as unblocked when it is buffered and when it is taken from the queue. -/
  unblocked_le : m.unblockedTaskCount + active.length
    ≤ 2 * (m.handledTaskCount + active.length) + running.length
  hashes : if m.maxUniqueActiveTaskCount.isSome then
      m.uniqueActiveTaskHashes.Perm (active.map Task.hash)
    else m.uniqueActiveTaskHashes = []

structure SchedInv (inOrder : Prop) (s : Session) : Prop where
  capability : s.capability = .priorityQueueing
  tasks : TasksOk s.active
  table : LockTable (softOf inOrder s.machine.countToken) (requests · s.active) s.active
    s.machine.countToken s.machine.usageQueueToken
  idle : ∀ r, (∀ t ∈ s.active, t.ref ≠ r) → s.machine.countToken r = 0
  ready : (s.running ++ s.machine.unblockedTaskQueue).Perm
    (s.active.filter fun t => s.machine.countToken t.ref = 0)
  counters : CountersOk s.machine s.active s.running

variable {inOrder : Prop} {s : Session} {task : Task}

def Overflows (given : ℕ) (m : SchedulingStateMachine) (e : SchedulerPanic) : Prop :=
  e = .overflow ∧ 2 ^ 31 ≤ m.totalTaskCount + given

lemma insertHash_cases (m : SchedulingStateMachine) (hash total : ℕ) :
    m.insertHash hash = none ∧ insertHash hash { m with totalTaskCount := total } = none
      ∨ ∃ hashes, (m.insertHash hash).isSome = true
        ∧ insertHash hash { m with totalTaskCount := total }
          = some { m with totalTaskCount := total, uniqueActiveTaskHashes := hashes }
        ∧ hashes = if m.maxUniqueActiveTaskCount.isSome then hash :: m.uniqueActiveTaskHashes
          else m.uniqueActiveTaskHashes := by
  rcases hm : m.maxUniqueActiveTaskCount with _ | max
  · refine .inr ⟨m.uniqueActiveTaskHashes, ?_, ?_, rfl⟩ <;> simp [insertHash, hm]
  · by_cases hdrop : max ≤ m.uniqueActiveTaskHashes.length ∨ hash ∈ m.uniqueActiveTaskHashes
    · refine .inl ?_
      unfold insertHash
      simp only [hm]
      rcases hdrop with hlen | hmem
      · simp only [if_pos hlen, and_self]
      · simp only [if_pos hmem, ite_self, and_self]
    · rw [not_or] at hdrop
      refine .inr ⟨hash :: m.uniqueActiveTaskHashes, ?_, ?_, rfl⟩ <;> simp [insertHash, hm, hdrop]

lemma SchedInv.tasksOk_append (h : SchedInv inOrder s) (hgive : s.MayGive task) :
    TasksOk (s.active ++ [task]) := by
  refine ⟨forall_mem_append.2 ⟨h.tasks.wellFormed, forall_mem_singleton.2 hgive.1⟩,
    pairwise_append.2 ⟨h.tasks.distinct, pairwise_singleton _ _, fun t ht => ?_⟩⟩
  exact forall_mem_singleton.2 ⟨(hgive.2 t ht).2 h.capability, (hgive.2 t ht).1⟩

lemma runOrBuffer_spec {m : SchedulingStateMachine} {force : Bool} {active running : List Task}
    (hc : CountersOk m (active ++ [task]) running) (hlen : running.length ≤ active.length)
    (hroom : m.unblockedTaskCount + active.length
      ≤ 2 * (m.handledTaskCount + active.length) + running.length) {given : ℕ}
    (hgiven : m.totalTaskCount ≤ given) :
    Meets (m.runOrBuffer task force)
      (fun r => ∃ unblockedCount runningCount queue,
        r.1 = { m with
          unblockedTaskCount := unblockedCount
          runningTaskCount := runningCount
          unblockedTaskQueue := queue }
        ∧ CountersOk r.1 (active ++ [task]) (running ++ r.2.toList)
        ∧ (running ++ r.2.toList ++ queue).Perm (running ++ m.unblockedTaskQueue ++ [task])
        ∧ (force = true → r.2 = none))
      (fun e => e = .overflow ∧ 2 ^ 31 ≤ given) := by
  unfold runOrBuffer
  have hle := hc.total_eq
  have hun := hc.unblocked_le
  rw [length_append, length_singleton] at hle hun
  split_ifs with hbuf
  · by_cases hlt : m.unblockedTaskCount < counterMax
    · rw [increment_ok hlt]
      refine ⟨_, m.runningTaskCount, _, rfl, ⟨hc.active_eq, ?_, ?_, hc.max_le, hc.total_eq,
        hc.total_le, ?_, hc.hashes⟩, ?_, fun _ => rfl⟩
      · rw [toList_none, append_nil]
        exact hc.running_eq
      · rw [toList_none, append_nil]
        exact hc.running_le
      · rw [toList_none, append_nil, length_append, length_singleton]
        dsimp only
        omega
      · rw [toList_none, append_nil, append_assoc]
    · unfold increment
      rw [if_neg hlt]
      refine ⟨rfl, ?_⟩
      rw [counterMax] at hlt
      omega
  · rw [Bool.or_eq_true, not_or, Bool.not_eq_true', Bool.not_eq_false] at hbuf
    have hrun : m.runningTaskCount < m.maxRunningTaskCount := of_decide_eq_true hbuf.1
    rw [increment_ok (lt_of_lt_of_le hrun hc.max_le)]
    refine ⟨m.unblockedTaskCount, _, _, rfl, ⟨hc.active_eq, ?_, ?_, hc.max_le, hc.total_eq,
      hc.total_le, ?_, hc.hashes⟩, ?_, fun hf => absurd hf hbuf.2⟩
    · rw [toList_some, length_append, length_singleton]
      rw [hc.running_eq]
    · rw [toList_some, length_append, length_singleton, ← hc.running_eq]
      exact hrun
    · rw [toList_some, length_append, length_append, length_singleton]
      dsimp only
      omega
    · rw [toList_some, append_assoc, append_assoc]
      exact perm_append_comm.append_left _

lemma SchedInv.running_le (h : SchedInv inOrder s) :
    s.running.length + s.machine.unblockedTaskQueue.length ≤ s.active.length := by
  rw [← length_append, h.ready.length_eq]
  exact length_filter_le _ _

theorem SchedInv.scheduleOrBufferTask (h : SchedInv inOrder s) (hgive : s.MayGive task)
    (hin : inOrder → ∀ t ∈ s.active, t.taskId < task.taskId) (force : Bool) :
    Meets (s.machine.scheduleOrBufferTask task force)
      (fun r => SchedInv inOrder { s with
          machine := r.1
          active := s.active ++ (s.accepted task).toList
          running := s.running ++ r.2.toList }
        ∧ r.1.maxRunningTaskCount = s.machine.maxRunningTaskCount ∧ (force = true → r.2 = none))
      (Overflows 1 s.machine) := by
  have hc := h.counters
  have htotal := hc.total_eq
  unfold SchedulingStateMachine.scheduleOrBufferTask
  by_cases hlt : s.machine.totalTaskCount < counterMax
  case neg =>
    unfold increment
    rw [if_neg hlt]
    refine ⟨rfl, ?_⟩
    rw [counterMax] at hlt
    omega
  rw [Except.bind_of_ok (increment_ok hlt)]
  dsimp only
  rcases insertHash_cases s.machine task.hash (s.machine.totalTaskCount + 1) with
    ⟨hnone, hdrop⟩ | ⟨hashes, hsome, haccept, hhashes⟩
  · -- dropped
    rw [hdrop]
    rw [increment_ok (by omega)]
    have hacc : s.accepted task = none := by
      unfold Session.accepted
      rw [hnone]
      rfl
    show SchedInv inOrder { s with
        machine := { s.machine with
          totalTaskCount := s.machine.totalTaskCount + 1
          droppedTaskCount := s.machine.droppedTaskCount + 1 }
        active := s.active ++ (s.accepted task).toList
        running := s.running ++ [] } ∧ _
    rw [hacc, toList_none, append_nil, append_nil]
    refine ⟨⟨h.capability, h.tasks, h.table, h.idle, h.ready, hc.active_eq, hc.running_eq,
      hc.running_le, hc.max_le, ?_, hlt, hc.unblocked_le, hc.hashes⟩, rfl, fun _ => rfl⟩
    dsimp only
    omega
  · -- accepted
    have hok := h.tasksOk_append hgive
    have hlen := h.running_le
    rw [haccept]
    show Meets (increment s.machine.activeTaskCount >>= _) _ _
    rw [increment_ok (by rw [hc.active_eq]; omega)]
    have hacc : s.accepted task = some task := by
      unfold Session.accepted
      obtain ⟨m, hm⟩ := isSome_iff_exists.1 hsome
      rw [hm]
      rfl
    let m := { s.machine with
      totalTaskCount := s.machine.totalTaskCount + 1
      uniqueActiveTaskHashes := hashes
      activeTaskCount := s.machine.activeTaskCount + 1
      peakActiveTaskCount := max s.machine.peakActiveTaskCount (s.machine.activeTaskCount + 1) }
    obtain ⟨counts, queue, locked, hlock, htable, hlocked, hzero⟩ := tryLockUsageQueues_spec
      (m := m) hok h.table (h.idle _ fun t ht => (hgive.2 t ht).1) hin
    show Meets (tryLockUsageQueues task _ >>= _) _ _
    rw [hlock]
    -- the tasks that miss no usage are those of before, and the new one if it is among them
    have hfilter : (s.active ++ [task]).filter (fun t => counts t.ref = 0)
        = s.active.filter (fun t => s.machine.countToken t.ref = 0)
          ++ if counts task.ref = 0 then [task] else [] := by
      rw [filter_append]
      congr 1
      · refine filter_congr fun t ht => ?_
        rw [decide_eq_decide]
        exact hzero t.ref (hgive.2 t ht).1
      · by_cases hz : counts task.ref = 0 <;> simp [hz]
    have hidle : ∀ r, (∀ t ∈ s.active ++ [task], t.ref ≠ r) → counts r = 0 := fun r hr =>
      (hzero r (hr task mem_concat_self).symm).2
        (h.idle r fun t ht => hr t (mem_append_left _ ht))
    have hun := hc.unblocked_le
    have hc3 : CountersOk { m with countToken := counts, usageQueueToken := queue }
        (s.active ++ [task]) s.running := by
      refine ⟨?_, hc.running_eq, hc.running_le, hc.max_le, ?_, hlt, ?_, ?_⟩
      · rw [length_append, length_singleton, ← hc.active_eq]
      · rw [length_append, length_singleton]
        dsimp only [m]
        omega
      · rw [length_append, length_singleton]
        dsimp only [m]
        omega
      · have hh := hc.hashes
        dsimp only [m]
        split_ifs at hh hhashes ⊢
        · rw [hhashes, map_append]
          exact (hh.cons _).trans (perm_append_singleton _ _).symm
        · rw [hhashes, hh]
    rw [hacc, toList_some]
    rcases locked with _ | _
    · have hz : counts task.ref ≠ 0 := fun hz => Bool.false_ne_true (hlocked.2 hz)
      refine ⟨⟨h.capability, hok, htable, hidle, ?_, ?_⟩, rfl, fun _ => rfl⟩
      · rw [hfilter, if_neg hz, toList_none, append_nil, append_nil]
        exact h.ready
      · rwa [toList_none, append_nil]
    · refine (runOrBuffer_spec hc3 (Nat.le_of_add_right_le hlen) hun le_rfl).mono ?_
      rintro ⟨m', out⟩ ⟨u, r, q, rfl, hc', hq, hforce⟩
      refine ⟨⟨h.capability, hok, htable, hidle, ?_, hc'⟩, rfl, hforce⟩
      rw [hfilter, if_pos (hlocked.1 rfl)]
      exact hq.trans (h.ready.append_right _)

theorem SchedInv.scheduleNextUnblockedTask (h : SchedInv inOrder s) :
    Meets s.machine.scheduleNextUnblockedTask
      (fun r => SchedInv inOrder { s with machine := r.1, running := s.running ++ r.2.toList }
        ∧ r.1.totalTaskCount = s.machine.totalTaskCount
        ∧ r.1.maxRunningTaskCount = s.machine.maxRunningTaskCount
        ∧ (r.2 = none → s.running.length < s.machine.maxRunningTaskCount →
          s.machine.unblockedTaskQueue = []))
      (Overflows 0 s.machine) := by
  have hc := h.counters
  have hsame : SchedInv inOrder { s with machine := s.machine, running := s.running ++ [] } := by
    rwa [append_nil]
  unfold SchedulingStateMachine.scheduleNextUnblockedTask
  by_cases hrun : s.machine.isTaskRunnable
  case neg =>
    rw [if_neg hrun]
    refine ⟨hsame, rfl, rfl, fun _ hlt => absurd ?_ hrun⟩
    exact decide_eq_true (hc.running_eq ▸ hlt)
  have hlt : s.machine.runningTaskCount < s.machine.maxRunningTaskCount := of_decide_eq_true hrun
  rw [if_pos hrun]
  rcases hq : s.machine.unblockedTaskQueue with _ | ⟨t, queue⟩
  · exact ⟨hsame, rfl, rfl, fun _ _ => rfl⟩
  have hlen := h.running_le
  have htotal := hc.total_eq
  have hun := hc.unblocked_le
  rw [increment_ok (lt_of_lt_of_le hlt hc.max_le)]
  by_cases hu : s.machine.unblockedTaskCount < counterMax
  case neg =>
    unfold increment
    rw [if_neg hu]
    refine ⟨rfl, ?_⟩
    rw [counterMax] at hu
    omega
  rw [increment_ok hu]
  refine ⟨⟨h.capability, h.tasks, h.table, h.idle, ?_, hc.active_eq, ?_, ?_, hc.max_le, hc.total_eq,
    hc.total_le, ?_, hc.hashes⟩, rfl, rfl, nofun⟩
  · have hready := h.ready
    rw [hq] at hready
    rwa [toList_some, append_assoc]
  · rw [toList_some, length_append, length_singleton, ← hc.running_eq]
  · rw [toList_some, length_append, length_singleton, ← hc.running_eq]
    exact hlt
  · rw [toList_some, length_append, length_singleton]
    dsimp only
    omega

lemma TasksOk.perm {tasks tasks' : List Task} (h : TasksOk tasks) (hp : tasks.Perm tasks') :
    TasksOk tasks' :=
  ⟨fun t ht => h.wellFormed t (hp.mem_iff.2 ht),
    (hp.pairwise_iff fun {_ _} hxy => ⟨hxy.1.symm, hxy.2.symm⟩).1 h.distinct⟩

lemma LockTable.perm {soft : Task → Prop} {tasks tasks' : List Task} {counts : ℕ → ℕ}
    {queue : ℕ → UsageQueueInner} (h : LockTable soft (requests · tasks) tasks counts queue)
    (hp : tasks.Perm tasks') : LockTable soft (requests · tasks') tasks' counts queue := by
  refine ⟨fun a => ?_, fun t ht => h.counts_eq t (hp.mem_iff.2 ht)⟩
  obtain ⟨current, blocked, hq, hrow⟩ := (h.rows a).exists_priority
  rw [hq]
  exact hrow.congr (hp.flatMap_right _)

namespace SchedInv

variable (h : SchedInv inOrder s)
include h

lemma zero_of_running {t : Task} (ht : t ∈ s.running) :
    t ∈ s.active ∧ s.machine.countToken t.ref = 0 := by
  have hm := mem_filter.1 (h.ready.mem_iff.1 (mem_append_left _ ht))
  exact ⟨hm.1, of_decide_eq_true hm.2⟩

theorem descheduleTask (hrun : task ∈ s.running) :
    ∃ m, s.machine.descheduleTask task = .ok m
      ∧ SchedInv inOrder { s with
          machine := m
          active := s.active.erase task
          running := s.running.erase task }
      ∧ m.totalTaskCount = s.machine.totalTaskCount
      ∧ m.maxRunningTaskCount = s.machine.maxRunningTaskCount := by
  have hc := h.counters
  obtain ⟨hact, hzero⟩ := h.zero_of_running hrun
  have hpa : s.active.Perm (s.active.erase task ++ [task]) :=
    (perm_cons_erase hact).trans (perm_append_singleton _ _).symm
  have hpr := perm_cons_erase hrun
  have hok := h.tasks.perm hpa
  have hla : s.active.length = (s.active.erase task).length + 1 := (perm_cons_erase hact).length_eq
  have hlr : s.running.length = (s.running.erase task).length + 1 := hpr.length_eq
  have htotal := hc.total_eq
  have htotal' := hc.total_le
  have hun := hc.unblocked_le
  obtain ⟨hashes, hhash, hhashes⟩ : ∃ hashes, removeHash task.hash
      { s.machine with runningTaskCount := (s.running.erase task).length }
        = .ok { s.machine with
          runningTaskCount := (s.running.erase task).length
          uniqueActiveTaskHashes := hashes }
      ∧ if s.machine.maxUniqueActiveTaskCount.isSome then
          hashes.Perm ((s.active.erase task).map Task.hash) else hashes = [] := by
    have hh := hc.hashes
    unfold removeHash
    split_ifs at hh ⊢ with hsome hmem
    · refine ⟨_, rfl, ?_⟩
      have hp := (hh.trans ((perm_cons_erase hact).map _)).erase task.hash
      rwa [map_cons, erase_cons_head] at hp
    · exact absurd (hh.mem_iff.2 (mem_map_of_mem hact)) hmem
    · exact ⟨_, rfl, hh⟩
  obtain ⟨m, hunlock, htable, hub⟩ := unlockUsageQueues_spec
    (m := { s.machine with
      runningTaskCount := (s.running.erase task).length
      uniqueActiveTaskHashes := hashes
      activeTaskCount := (s.active.erase task).length
      handledTaskCount := s.machine.handledTaskCount + 1 }) hok (h.table.perm hpa) hzero
  have hm := hub.eq
  refine ⟨m, ?_, ⟨h.capability, hok.left, htable, fun r hr => ?_, ?_, ?_⟩, ?_, ?_⟩
  · unfold SchedulingStateMachine.descheduleTask
    rw [hc.running_eq, hlr]
    show (removeHash task.hash _ >>= _) = _
    rw [hhash]
    show (decrement s.machine.activeTaskCount >>= _) = _
    rw [hc.active_eq, hla]
    show (increment s.machine.handledTaskCount >>= _) = _
    rw [increment_ok (by omega)]
    exact hunlock
  · rw [hub.same r hr]
    rcases eq_or_ne task.ref r with rfl | hne
    · exact hzero
    · refine h.idle r fun t ht => ?_
      rcases mem_append.1 (hpa.mem_iff.1 ht) with ht | ht
      · exact hr t ht
      · rwa [mem_singleton.1 ht]
  · refine hub.queued _ ?_
    have hp := (hpr.symm.append_right _).trans (h.ready.trans
      ((perm_cons_erase hact).filter fun t => s.machine.countToken t.ref = 0))
    rw [filter_cons_of_pos (by simpa using hzero)] at hp
    exact hp.cons_inv
  · rw [hm]
    refine ⟨rfl, rfl, ?_, hc.max_le, ?_, hc.total_le, ?_, hhashes⟩
    · have hle := hc.running_le
      dsimp only
      omega
    · dsimp only
      omega
    · dsimp only
      omega
  · rw [hm]
  · rw [hm]

lemma mem_waiting {a : ℕ} {w : UsageFromTask} (hw : w ∈ (s.machine.usageQueueToken a).waiting) :
    w.2 ∈ s.active := by
  obtain ⟨current, blocked, hq, hrow⟩ := (h.table.rows a).exists_priority
  rw [hq] at hw
  exact (mem_requests.1 (hrow.mem_waiting hw)).1

lemma exists_waiting {t : Task} (ht : t ∈ s.active) (hz : s.machine.countToken t.ref ≠ 0) :
    ∃ a, ∃ w ∈ (s.machine.usageQueueToken a).waiting, w.2 = t := by
  rw [h.table.counts_eq t ht, waitsIn_eq, ne_eq, sum_eq_zero_iff] at hz
  push Not at hz
  obtain ⟨k, hk, hk0⟩ := hz
  obtain ⟨a, -, rfl⟩ := mem_map.1 hk
  obtain ⟨w, hw, hwt⟩ := countP_pos_iff.1 (Nat.pos_of_ne_zero hk0)
  exact ⟨a, w, hw, h.tasks.eq_of_ref (h.mem_waiting hw) ht (of_decide_eq_true hwt)⟩

theorem exists_ready (hne : s.active ≠ []) : ∃ t ∈ s.active, s.machine.countToken t.ref = 0 := by
  obtain ⟨t, ht⟩ := exists_mem_of_ne_nil _ hne
  induction hid : t.taskId using Nat.strong_induction_on generalizing t with
  | _ id ih =>
    by_cases hz : s.machine.countToken t.ref = 0
    · exact ⟨t, ht, hz⟩
    -- it waits at some address, and somebody holds that
    obtain ⟨a, w, hw, rfl⟩ := h.exists_waiting ht hz
    obtain ⟨current, blocked, hq, hrow⟩ := (h.table.rows a).exists_priority
    rw [hq] at hw
    obtain ⟨x, hx⟩ : ∃ x, x ∈ holders current := by
      rcases hc : current with _ | ⟨tasks⟩ | ⟨c⟩
      · have hempty := hrow.idle hc
        rw [hempty] at hw
        cases hw
      · obtain ⟨y, hy⟩ := exists_mem_of_ne_nil _
          (mt OrdMap.values_eq_nil.1 (hrow.readers tasks hc).1)
        exact ⟨_, mem_map_of_mem hy⟩
      · exact ⟨_, mem_cons_self⟩
    obtain ⟨hx1, -⟩ := mem_requests.1 (hrow.mem_holders hx)
    by_cases hxz : s.machine.countToken x.2.ref = 0
    · exact ⟨x.2, hx1, hxz⟩
    · have hlt := hrow.order x hx (.inr (Nat.pos_of_ne_zero hxz)) w hw
      exact ih x.2.taskId (hid ▸ hlt) x.2 hx1 rfl

lemma inactive (hact : s.active = []) : s.running = [] ∧ s.machine.unblockedTaskQueue = [] := by
  have hready := h.ready
  rw [hact, filter_nil] at hready
  exact append_eq_nil_iff.1 hready.eq_nil

theorem reinitializeState (hact : s.active = []) :
    ∃ m, s.machine.reinitializeState = .ok m ∧ SchedInv inOrder { s with machine := m }
      ∧ m.maxRunningTaskCount = s.machine.maxRunningTaskCount := by
  have hc := h.counters
  obtain ⟨hrun, hq⟩ := h.inactive hact
  have hhashes : s.machine.uniqueActiveTaskHashes = [] := by
    have hh := hc.hashes
    rw [hact, map_nil] at hh
    split_ifs at hh
    · exact hh.eq_nil
    · exact hh
  refine ⟨_, if_pos ⟨decide_eq_true ?_, hhashes, ?_, hq⟩, ⟨h.capability, h.tasks, h.table, h.idle, h.ready, ?_, hc.running_eq,
    hc.running_le, hc.max_le, ?_, Nat.zero_le _, ?_, hc.hashes⟩, rfl⟩
  · rw [hact]
    rfl
  · rw [hact]
    rfl
  · rw [hact]
    exact Nat.zero_le _
  · rw [hc.active_eq, hact]
    rfl
  · rw [hc.running_eq, hrun]
    rfl

lemma active_eq_nil (hrun : s.running = []) (hq : s.machine.unblockedTaskQueue = []) :
    s.active = [] := by
  by_contra hne
  obtain ⟨t, ht, hz⟩ := h.exists_ready hne
  have hmem := h.ready.mem_iff.2 (mem_filter.2 ⟨ht, decide_eq_true hz⟩)
  rw [hrun, hq] at hmem
  cases hmem

end SchedInv

lemma SchedInv.clear (turns count : ℕ) (h : SchedInv inOrder s) (hrun : s.running = [])
    (hmax : 0 < s.machine.maxRunningTaskCount) (hturns : s.active.length ≤ turns)
    (hcount : count + s.active.length ≤ counterMax) :
    Meets (clear turns count s.machine)
      (fun r => r.2 = count + s.active.length
        ∧ SchedInv inOrder { s with machine := r.1, active := [] }
        ∧ r.1.maxRunningTaskCount = s.machine.maxRunningTaskCount)
      (Overflows 0 s.machine) := by
  induction turns generalizing count s with
  | zero =>
    have hact : s.active = [] := eq_nil_of_length_eq_zero (Nat.le_zero.1 hturns)
    unfold clear
    refine h.scheduleNextUnblockedTask.bind ?_
    rintro ⟨m, out⟩ ⟨h1, -, hmax1, -⟩
    have hout : out = none := by
      have hnil := (h1.inactive hact).1
      rw [hrun] at hnil
      exact toList_eq_nil_iff.1 hnil
    subst hout
    rw [toList_none, append_nil] at h1
    rw [hact] at h1 ⊢
    exact ⟨rfl, h1, hmax1⟩
  | succ turns ih =>
    unfold clear
    refine h.scheduleNextUnblockedTask.bind ?_
    rintro ⟨m, out⟩ ⟨h1, htotal1, hmax1, hout⟩
    rcases out with _ | t
    · have hact := h.active_eq_nil hrun (hout rfl (by rwa [hrun]))
      rw [toList_none, append_nil] at h1
      rw [hact] at h1 ⊢
      exact ⟨rfl, h1, hmax1⟩
    · have hmem : t ∈ s.active := (h1.zero_of_running mem_concat_self).1
      have hlen : s.active.length = (s.active.erase t).length + 1 :=
        (perm_cons_erase hmem).length_eq
      obtain ⟨m2, hdes, h2, htotal2, hmax2⟩ :=
        h1.descheduleTask mem_concat_self
      show Meets (SchedulingStateMachine.descheduleTask t m >>= _) _ _
      rw [hdes]
      show Meets (increment count >>= _) _ _
      rw [increment_ok (by omega)]
      have hrun2 : (s.running ++ [t]).erase t = [] := by
        rw [hrun]
        simp
      have hmax' : 0 < m2.maxRunningTaskCount := by
        rw [hmax2]
        exact hmax1.symm ▸ hmax
      have ih := ih (count + 1) h2 hrun2 hmax' (by dsimp only; omega) (by dsimp only; omega)
      unfold Overflows at ih ⊢
      dsimp only at ih htotal1 htotal2
      rw [htotal2, htotal1] at ih
      refine ih.mono fun r hr => ⟨by omega, ?_, hr.2.2.trans (hmax2.trans hmax1)⟩
      have hr2 := hr.2.1
      rwa [toList_some, hrun2.trans hrun.symm] at hr2

theorem SchedInv.clearAndReinitializeState (h : SchedInv inOrder s) (hrun : s.running = [])
    (hmax : 0 < s.machine.maxRunningTaskCount) :
    Meets s.machine.clearAndReinitializeState
      (fun r => r.2 = s.active.length ∧ SchedInv inOrder { s with machine := r.1, active := [] }
        ∧ r.1.maxRunningTaskCount = s.machine.maxRunningTaskCount)
      (Overflows 0 s.machine) := by
  have hc := h.counters
  refine (h.clear _ 0 hrun hmax hc.active_eq.ge ?_).bind ?_
  · have htotal := hc.total_eq
    have hle := hc.total_le
    omega
  · rintro ⟨m, count⟩ ⟨hcount, h1, hmax1⟩
    obtain ⟨m2, hre, h2, hmax2⟩ := h1.reinitializeState rfl
    show Meets (SchedulingStateMachine.reinitializeState m >>= _) _ _
    rw [hre]
    exact ⟨hcount.trans (Nat.zero_add _), h2, hmax2.trans hmax1⟩

/-- Every call that is allowed keeps the invariant, and fails only as a counter overflows. -/
theorem SchedInv.step (h : SchedInv inOrder s) {op : SchedulerOp} (hop : s.Allowed op)
    (hin : inOrder → ∀ t ∈ op.given, ∀ t' ∈ s.active, t'.taskId < t.taskId) :
    Meets (s.step op)
      (fun r => SchedInv inOrder r.1
        ∧ r.1.machine.maxRunningTaskCount = s.machine.maxRunningTaskCount)
      (fun e => e = .overflow ∧ ¬ s.Fits op) := by
  cases op with
  | scheduleOrBufferTask task force =>
    refine ((h.scheduleOrBufferTask hop (fun ho => hin ho task rfl) force).imp
      (fun r hr => hr) fun e he => ⟨he.1, not_lt.2 he.2⟩).bind fun r hr => ?_
    exact ⟨hr.1, hr.2.1⟩
  | bufferTask task =>
    refine Meets.bind ?_ fun r hr => hr
    refine ((h.scheduleOrBufferTask hop (fun ho => hin ho task rfl) true).imp
      (fun r hr => hr) fun e he => ⟨he.1, not_lt.2 he.2⟩).bind ?_
    rintro ⟨m, out⟩ ⟨hr, hmax, hnone⟩
    obtain rfl : out = none := hnone rfl
    rw [toList_none, append_nil] at hr
    exact ⟨hr, hmax⟩
  | scheduleNextUnblockedTask =>
    refine (h.scheduleNextUnblockedTask.imp (fun r hr => hr)
      fun e he => ⟨he.1, not_lt.2 he.2⟩).bind fun r hr => ?_
    exact ⟨hr.1, hr.2.2.1⟩
  | descheduleTask task =>
    obtain ⟨m, hdes, hm, -, hmax⟩ := h.descheduleTask hop
    show Meets (s.machine.descheduleTask task >>= _) _ _
    rw [hdes]
    exact ⟨hm, hmax⟩
  | reinitializeState =>
    obtain ⟨m, hre, hm⟩ := h.reinitializeState hop
    show Meets (s.machine.reinitializeState >>= _) _ _
    rw [hre]
    exact hm
  | clearAndReinitializeState =>
    refine ((h.clearAndReinitializeState hop.1 hop.2).imp (fun r hr => hr)
      fun e he => ⟨he.1, not_lt.2 he.2⟩).bind fun r hr => ?_
    exact hr.2

section New

variable {capability : Capability} {maxRunning maxUnique : Option ℕ}

lemma Session.new_ok : Session.new capability maxRunning maxUnique = .ok s ↔
    maxRunning.getD counterMax ≤ counterMax ∧ s = { capability, machine := {
      maxUniqueActiveTaskCount := maxUnique
      maxRunningTaskCount := maxRunning.getD counterMax
      usageQueueToken := fun _ => .new capability } } := by
  unfold Session.new exclusivelyInitializeCurrentThreadForScheduling
  dsimp only
  split_ifs with hle
  · exact ⟨fun h => ⟨hle, (Except.ok.inj h).symm⟩, fun h => congrArg Except.ok h.2.symm⟩
  · exact ⟨nofun, fun h => absurd h.1 hle⟩

lemma schedInv_new (h : Session.new .priorityQueueing maxRunning maxUnique = .ok s) :
    SchedInv inOrder s := by
  obtain ⟨hle, rfl⟩ := Session.new_ok.1 h
  refine ⟨rfl, ⟨nofun, List.Pairwise.nil⟩, ⟨fun a => ?_, nofun⟩, fun _ _ => rfl, .refl _, rfl, rfl,
    Nat.zero_le _, hle, rfl, Nat.zero_le _, Nat.zero_le _, ?_⟩
  · exact ⟨.refl _, nofun, OrdMap.Keyed.empty _, fun _ => rfl, nofun, nofun⟩
  · split_ifs
    · exact .refl _
    · rfl

end New

end BlackBull
