import BlackBull.Proofs.UsageQueueFifo

/-!
# The machine without priorities

Where every new task has a greater id than all active ones, a call on the machine with priorities
and the same call on the machine without do the same: `toFifo` commutes with every call
(`step_toFifo`).
-/

namespace BlackBull

open ShortCounter List

variable {φ : Task → Task} {soft : Task → Prop} {others : List Task} {n t task : Task}
  {m : SchedulingStateMachine} {inOrder : Prop} {s : Session}

namespace SchedulingStateMachine

lemma toFifo_update (φ : Task → Task) (m : SchedulingStateMachine) (queue : List Task)
    (counts : ℕ → ℕ) (a : ℕ) (q : UsageQueueInner) :
    toFifo φ { m with
      unblockedTaskQueue := queue
      countToken := counts
      usageQueueToken := Function.update m.usageQueueToken a q }
    = { m.toFifo φ with
      unblockedTaskQueue := queue.map φ
      countToken := counts
      usageQueueToken := Function.update (m.toFifo φ).usageQueueToken a (q.toFifo φ) } := by
  unfold toFifo
  congr 1
  exact Function.comp_update (UsageQueueInner.toFifo φ) m.usageQueueToken a q

section Lock

variable (hok : TasksOk (others ++ [n])) (hgt : ∀ t ∈ others, t.taskId < n.taskId)
  (hroom : others.length < counterMax)

include hok hgt hroom in
lemma tryLockUsageQueue_toFifo {done todo : List LockContext} {c : LockContext} {b : ℕ}
    (h : LockLoop soft others n done m b) (hcs : done ++ c :: todo = n.lockContexts) :
    tryLockUsageQueue (φ n) (m.toFifo φ, b) c
      = (tryLockUsageQueue n (m, b) c).map fun r => (r.1.toFifo φ, r.2) := by
  obtain ⟨current, blocked, hq, hrow⟩ := (h.table.rows c.usageQueue).exists_priority
  rw [requestsAt_eq_nil (hok.new_notMem hcs), append_nil] at hrow
  have hlock := UsageQueueInner.lockOrBlock_toFifo (φ := φ) hrow (fun x hx => hgt _ (mem_requests.1 hx).1)
    ((hok.left.requests_length_le _).trans_lt hroom) c.requestedUsage m.countToken
  unfold tryLockUsageQueue
  dsimp only
  rw [hq]
  show (((m.usageQueueToken c.usageQueue).toFifo φ).lockOrBlock (φ n) _ m.countToken >>= _) = _
  rw [hq]
  refine bind_eq_map hlock fun r _ => ?_
  obtain ⟨counts', q, isBlocked⟩ := r
  have hupd := toFifo_update φ m m.unblockedTaskQueue counts' c.usageQueue q
  show (if isBlocked then increment b >>= _ else Except.ok (_, b))
    = Except.map _ (if isBlocked then increment b >>= _ else Except.ok (_, b))
  rcases isBlocked with _ | _
  · exact congrArg (fun m' => Except.ok (m', b)) hupd.symm
  · refine bind_eq_map_self fun b' _ => ?_
    exact congrArg (fun m' => Except.ok (m', b')) hupd.symm

include hok hgt hroom in
lemma foldlM_tryLockUsageQueue_toFifo : ∀ (todo : List LockContext) {done : List LockContext}
    {m : SchedulingStateMachine} {b : ℕ}, LockLoop soft others n done m b →
    done ++ todo = n.lockContexts →
    todo.foldlM (tryLockUsageQueue (φ n)) (m.toFifo φ, b)
      = (todo.foldlM (tryLockUsageQueue n) (m, b)).map fun r => (r.1.toFifo φ, r.2)
  | [], _, _, _, _, _ => rfl
  | c :: todo, done, m, b, h, hcs => by
    rw [foldlM_cons, foldlM_cons]
    refine bind_eq_map (tryLockUsageQueue_toFifo hok hgt hroom h hcs) fun r hr => ?_
    obtain ⟨counts, queue, b', hstep, h', -⟩ := h.step hok hcs
    obtain rfl := Except.ok.inj (hstep.symm.trans hr)
    exact foldlM_tryLockUsageQueue_toFifo todo h' (by rw [← hcs]; simp)

include hok hgt hroom in
lemma tryLockUsageQueues_toFifo (hφ : Relabels φ)
    (h : LockTable (softOf inOrder m.countToken) (requests · others) others m.countToken
      m.usageQueueToken) (hnew : m.countToken n.ref = 0) :
    (m.toFifo φ).tryLockUsageQueues (φ n)
      = (m.tryLockUsageQueues n).map fun r => (r.1.toFifo φ, r.2) := by
  unfold tryLockUsageQueues
  rw [hφ.lockContexts, hφ.ref]
  refine bind_eq_map (foldlM_tryLockUsageQueue_toFifo hok hgt hroom _
    (h.lockLoop hok hnew fun _ => hgt) (nil_append _)) fun r _ => ?_
  show (if r.2 = 0 then _ else _) = Except.map _ (if r.2 = 0 then _ else _)
  split_ifs <;> rfl

end Lock

section Unlock

variable (hok : TasksOk (others ++ [t])) (hroom : (others ++ [t]).length ≤ counterMax)

include hok hroom in
lemma unlockUsageQueue_toFifo (hφ : Relabels φ) {done todo : List LockContext} {c : LockContext}
    (h : UnlockLoop soft others t (c :: todo) m) (hcs : done ++ c :: todo = t.lockContexts) :
    unlockUsageQueue (φ t) (m.toFifo φ) c = (unlockUsageQueue t m c).map (toFifo φ) := by
  have hsub : (c :: todo).Sublist t.lockContexts := hcs ▸ sublist_append_right _ _
  obtain ⟨current, blocked, hq, hrow⟩ := (h.table.rows c.usageQueue).exists_priority
  have hlen : (requests c.usageQueue others ++ requestsAt c.usageQueue t (c :: todo)).length
      ≤ counterMax := by
    refine le_trans ?_ ((hok.requests_length_le c.usageQueue).trans hroom)
    rw [requests_append, requests_singleton]
    exact (((hsub.filter _).map _).append_left _).length_le
  have hunlock := @UsageQueueInner.unlockAndLock_toFifo _ _ _ _ _ m.countToken _ _ hφ hrow
    (hok.distinct_requestsAt hsub c.usageQueue) hlen (h.held hok mem_cons_self hq)
  unfold unlockUsageQueue
  rw [hq]
  show (((m.usageQueueToken c.usageQueue).toFifo φ).unlockAndLock (φ t) _ m.countToken >>= _) = _
  rw [hq]
  refine bind_eq_map hunlock fun r _ => ?_
  obtain ⟨counts, q, unblocked⟩ := r
  refine congrArg Except.ok ?_
  dsimp only
  rw [toFifo_update, map_append]
  rfl

include hok hroom in
lemma foldlM_unlockUsageQueue_toFifo (hφ : Relabels φ) : ∀ (todo : List LockContext)
    {done : List LockContext} {m : SchedulingStateMachine}, UnlockLoop soft others t todo m →
    done ++ todo = t.lockContexts → todo.foldlM (unlockUsageQueue (φ t)) (m.toFifo φ)
      = (todo.foldlM (unlockUsageQueue t) m).map (toFifo φ)
  | [], _, _, _, _ => rfl
  | c :: todo, done, m, h, hcs => by
    rw [foldlM_cons, foldlM_cons]
    refine bind_eq_map (unlockUsageQueue_toFifo hok hroom hφ h hcs) fun m' hm' => ?_
    obtain ⟨m1, hstep, h1, -⟩ := h.step hok hcs
    obtain rfl := Except.ok.inj (hstep.symm.trans hm')
    exact foldlM_unlockUsageQueue_toFifo hφ todo h1
      (show (done ++ [c]) ++ todo = _ by rw [← hcs]; simp)

end Unlock

lemma insertHash_toFifo (hφ : Relabels φ) :
    insertHash (φ task).hash (m.toFifo φ) = (insertHash task.hash m).map (toFifo φ) := by
  rw [hφ.hash]
  rcases hmax : m.maxUniqueActiveTaskCount with _ | max
  · simp only [insertHash, toFifo, hmax, Option.map_some]
  · simp only [insertHash, toFifo, hmax]
    split_ifs <;> rfl

lemma runOrBuffer_toFifo (force : Bool) : (m.toFifo φ).runOrBuffer (φ task) force
    = (m.runOrBuffer task force).map fun r => (r.1.toFifo φ, r.2.map φ) := by
  show (if !m.isTaskRunnable || force then _ else _) = Except.map _ (if _ then _ else _)
  split_ifs
  · refine bind_eq_map_self fun c _ => congrArg Except.ok ?_
    simp [toFifo]
  · exact bind_eq_map_self fun c _ => rfl

lemma scheduleNextUnblockedTask_toFifo : (m.toFifo φ).scheduleNextUnblockedTask
    = m.scheduleNextUnblockedTask.map fun r => (r.1.toFifo φ, r.2.map φ) := by
  unfold scheduleNextUnblockedTask
  rcases hq : m.unblockedTaskQueue with _ | ⟨t, queue⟩
  · show (if m.isTaskRunnable then _ else _) = Except.map _ (if _ then _ else _)
    split_ifs
    · simp only [toFifo, hq, map_nil, Except.map, Option.map_none]
    · rfl
  · show (if m.isTaskRunnable then _ else _) = Except.map _ (if _ then _ else _)
    split_ifs
    · simp only [toFifo, hq, map_cons]
      refine bind_eq_map_self fun c _ => ?_
      exact bind_eq_map_self fun c _ => rfl
    · rfl

lemma reinitializeState_toFifo : (m.toFifo φ).reinitializeState
    = m.reinitializeState.map (toFifo φ) := by
  unfold reinitializeState
  split_ifs with h hm hm
  · rfl
  · exact absurd ⟨h.1, h.2.1, h.2.2.1, map_eq_nil_iff.1 h.2.2.2⟩ hm
  · exact absurd ⟨hm.1, hm.2.1, hm.2.2.1, map_eq_nil_iff.2 hm.2.2.2⟩ h
  · rfl

lemma removeHash_toFifo (hφ : Relabels φ) :
    removeHash (φ task).hash (m.toFifo φ) = (removeHash task.hash m).map (toFifo φ) := by
  rw [hφ.hash]
  show (if m.maxUniqueActiveTaskCount.isSome then if task.hash ∈ m.uniqueActiveTaskHashes then _
    else _ else _) = Except.map _ (if _ then if _ then _ else _ else _)
  split_ifs <;> rfl

end SchedulingStateMachine

open SchedulingStateMachine

lemma SchedInv.scheduleOrBufferTask_toFifo (h : SchedInv True s) (hφ : Relabels φ)
    (hgive : s.MayGive task) (hin : ∀ t ∈ s.active, t.taskId < task.taskId) (force : Bool) :
    (s.machine.toFifo φ).scheduleOrBufferTask (φ task) force
      = (s.machine.scheduleOrBufferTask task force).map fun r => (r.1.toFifo φ, r.2.map φ) := by
  have hc := h.counters
  unfold SchedulingStateMachine.scheduleOrBufferTask
  refine bind_eq_map_self fun total htotal => ?_
  have hlt : s.machine.totalTaskCount < counterMax := by
    by_contra hge
    have herr : increment s.machine.totalTaskCount = .error .overflow := if_neg hge
    cases herr.symm.trans htotal
  dsimp only
  rw [show insertHash (φ task).hash { toFifo φ s.machine with totalTaskCount := total } = _ from
    insertHash_toFifo (m := { s.machine with totalTaskCount := total }) hφ]
  rcases insertHash_cases s.machine task.hash total with ⟨-, hdrop⟩ | ⟨hashes, -, haccept, -⟩
  · rw [hdrop]
    show (increment s.machine.droppedTaskCount >>= _)
      = Except.map _ (increment s.machine.droppedTaskCount >>= _)
    exact bind_eq_map_self fun _ _ => rfl
  · rw [haccept]
    show (increment s.machine.activeTaskCount >>= _)
      = Except.map _ (increment s.machine.activeTaskCount >>= _)
    refine bind_eq_map_self fun active _ => ?_
    have hroom : s.active.length < counterMax := by
      have heq := hc.total_eq
      omega
    refine bind_eq_map (tryLockUsageQueues_toFifo (m := { s.machine with
        totalTaskCount := total
        uniqueActiveTaskHashes := hashes
        activeTaskCount := active
        peakActiveTaskCount := max s.machine.peakActiveTaskCount active })
      (h.tasksOk_append hgive) hin hroom hφ h.table (h.idle _ fun t ht => (hgive.2 t ht).1))
      fun r _ => ?_
    obtain ⟨m, locked⟩ := r
    rcases locked with _ | _
    · rfl
    · exact runOrBuffer_toFifo force

lemma SchedInv.descheduleTask_toFifo (h : SchedInv inOrder s) (hφ : Relabels φ)
    (hrun : task ∈ s.running) : (s.machine.toFifo φ).descheduleTask (φ task)
      = (s.machine.descheduleTask task).map (toFifo φ) := by
  have hc := h.counters
  obtain ⟨hact, hzero⟩ := h.zero_of_running hrun
  have hpa : s.active.Perm (s.active.erase task ++ [task]) :=
    (perm_cons_erase hact).trans (perm_append_singleton _ _).symm
  unfold SchedulingStateMachine.descheduleTask
  refine bind_eq_map_self fun running _ => ?_
  show (removeHash (φ task).hash (toFifo φ { s.machine with runningTaskCount := running }) >>= _) = _
  refine bind_eq_map (removeHash_toFifo hφ) fun m hm => ?_
  obtain ⟨hashes, rfl⟩ : ∃ hashes, m = { s.machine with
      runningTaskCount := running, uniqueActiveTaskHashes := hashes } := by
    unfold removeHash at hm
    split_ifs at hm
    all_goals
      cases hm
      exact ⟨_, rfl⟩
  refine bind_eq_map_self fun active _ => ?_
  refine bind_eq_map_self fun handled _ => ?_
  unfold unlockUsageQueues
  rw [hφ.lockContexts]
  have hroom : (s.active.erase task ++ [task]).length ≤ counterMax := by
    have heq := hc.total_eq
    have hle := hc.total_le
    rw [← hpa.length_eq]
    omega
  exact foldlM_unlockUsageQueue_toFifo (h.tasks.perm hpa) hroom hφ _
    ((h.table.perm hpa).unlockLoop (m := { s.machine with
      runningTaskCount := running
      uniqueActiveTaskHashes := hashes
      activeTaskCount := active
      handledTaskCount := handled }) (h.tasks.perm hpa) hzero) (nil_append _)

lemma SchedInv.clear_toFifo (hφ : Relabels φ) (turns count : ℕ) (h : SchedInv inOrder s) :
    SchedulingStateMachine.clear turns count (s.machine.toFifo φ)
      = (SchedulingStateMachine.clear turns count s.machine).map fun r => (r.1.toFifo φ, r.2) := by
  induction turns generalizing count s with
  | zero =>
    unfold SchedulingStateMachine.clear
    refine bind_eq_map scheduleNextUnblockedTask_toFifo fun r _ => ?_
    obtain ⟨m, _ | t⟩ := r <;> rfl
  | succ turns ih =>
    unfold SchedulingStateMachine.clear
    refine bind_eq_map scheduleNextUnblockedTask_toFifo fun r hr => ?_
    obtain ⟨m, _ | t⟩ := r
    · rfl
    have h1 := h.scheduleNextUnblockedTask
    rw [hr] at h1
    have hrun : t ∈ s.running ++ [t] := mem_concat_self
    refine bind_eq_map (h1.1.descheduleTask_toFifo hφ hrun) fun m' hm' => ?_
    obtain ⟨m2, hdes, h2, -⟩ := h1.1.descheduleTask hrun
    obtain rfl := Except.ok.inj (hdes.symm.trans hm')
    exact bind_eq_map_self fun count' _ => ih count' h2

lemma SchedInv.clearAndReinitializeState_toFifo (h : SchedInv inOrder s) (hφ : Relabels φ) :
    (s.machine.toFifo φ).clearAndReinitializeState
      = s.machine.clearAndReinitializeState.map fun r => (r.1.toFifo φ, r.2) := by
  unfold SchedulingStateMachine.clearAndReinitializeState
  refine bind_eq_map (h.clear_toFifo hφ _ _) fun r _ => ?_
  exact bind_eq_map reinitializeState_toFifo fun m _ => rfl

lemma map_erase_of_eq {α β : Type} [DecidableEq α] [DecidableEq β] {f : α → β} {a : α} :
    ∀ {l : List α}, (∀ x ∈ l, f x = f a → x = a) → (l.map f).erase (f a) = (l.erase a).map f
  | [], _ => rfl
  | x :: l, h => by
    rcases eq_or_ne x a with rfl | hne
    · rw [map_cons, erase_cons_head, erase_cons_head]
    · have hne' : f x ≠ f a := fun he => hne (h x mem_cons_self he)
      rw [map_cons, erase_cons_tail (by simpa using hne'),
        erase_cons_tail (by simpa using hne), map_cons,
        map_erase_of_eq fun y hy => h y (mem_cons_of_mem _ hy)]

/-- Tasks that arrive in order: both machines answer the same to every call. -/
theorem SchedInv.step_toFifo (h : SchedInv True s) (hφ : Relabels φ) {op : SchedulerOp}
    (hop : s.Allowed op) (hin : ∀ t ∈ op.given, ∀ t' ∈ s.active, t'.taskId < t.taskId) :
    (s.toFifo φ).step (op.relabel φ)
      = (s.step op).map fun r => (r.1.toFifo φ, r.2.map (Reply.relabel φ)) := by
  have haccepted : ∀ task, (s.toFifo φ).accepted (φ task) = (s.accepted task).map φ := by
    intro task
    show (insertHash (φ task).hash (s.machine.toFifo φ)).map _ = _
    rw [insertHash_toFifo hφ, Option.map_map]
    unfold Session.accepted
    rw [Option.map_map]
    rfl
  have happend : ∀ (l : List Task) (o : Option Task),
      l.map φ ++ (o.map φ).toList = (l ++ o.toList).map φ := by
    intro l o
    rw [map_append]
    cases o <;> rfl
  cases op with
  | scheduleOrBufferTask task force =>
    refine bind_eq_map (h.scheduleOrBufferTask_toFifo hφ hop (hin task rfl) force) fun r _ => ?_
    refine congrArg Except.ok ?_
    dsimp only
    rw [haccepted]
    show (Session.mk _ _ (s.active.map φ ++ _) (s.running.map φ ++ _), _) = _
    rw [happend, happend]
    rfl
  | bufferTask task =>
    refine bind_eq_map (Φ := toFifo φ) ?_ fun m _ => ?_
    · refine bind_eq_map (h.scheduleOrBufferTask_toFifo hφ hop (hin task rfl) true) fun r _ => ?_
      obtain ⟨m, _ | t⟩ := r <;> rfl
    · refine congrArg Except.ok ?_
      dsimp only
      rw [haccepted]
      show (Session.mk _ _ (s.active.map φ ++ _) _, _) = _
      rw [happend]
      rfl
  | scheduleNextUnblockedTask =>
    refine bind_eq_map scheduleNextUnblockedTask_toFifo fun r _ => congrArg Except.ok ?_
    show (Session.mk _ _ _ (s.running.map φ ++ _), _) = _
    rw [happend]
    rfl
  | descheduleTask task =>
    refine bind_eq_map (h.descheduleTask_toFifo hφ hop) fun m _ => congrArg Except.ok ?_
    have hinj : ∀ t ∈ s.active, φ t = φ task → t = task := fun t ht he =>
      h.tasks.eq_of_ref ht (h.zero_of_running hop).1 (by rw [← hφ.ref t, ← hφ.ref task, he])
    show (Session.mk _ _ ((s.active.map φ).erase (φ task)) ((s.running.map φ).erase (φ task)), _) = _
    rw [map_erase_of_eq hinj, map_erase_of_eq fun t ht => hinj t (h.zero_of_running ht).1]
    rfl
  | reinitializeState =>
    exact bind_eq_map reinitializeState_toFifo fun m _ => rfl
  | clearAndReinitializeState =>
    exact bind_eq_map (h.clearAndReinitializeState_toFifo hφ) fun r _ => rfl

end BlackBull
