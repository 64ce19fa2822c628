import BlackBull.Proofs.Scheduler
import BlackBull.Scheduler.Fifo

/-!
# Fifo queues are priority queues for tasks that arrive in order

At a queue with priorities, a task that goes after all others takes nothing back and waits last.
-/

namespace BlackBull

open ShortCounter List OrdMap

variable {φ : Task → Task} {soft : Task → Prop} {req : List UsageFromTask}
  {current : Option PriorityUsage} {blocked : OrdMap ℕ UsageFromTask} {counts : ℕ → ℕ} {n t : Task}
  {u : RequestedUsage} {q : UsageQueueInner}

namespace UsageQueueInner

lemma toFifo_priority (current : Option PriorityUsage) (blocked : OrdMap ℕ UsageFromTask) :
    (priority current blocked).toFifo φ = .fifo (current.map PriorityUsage.toFifo)
      (blocked.values.map fun w => (w.1, φ w.2)) := rfl

lemma pushBlocked_toFifo {c : PriorityUsage} (hk : blocked.Keyed (·.2.taskId))
    (hgt : ∀ w ∈ blocked.values, w.2.taskId < n.taskId) (u : RequestedUsage) :
    ((priority (some c) blocked).toFifo φ).pushBlocked (u, φ n)
      = ((priority (some c) blocked).pushBlocked (u, n)).map (toFifo φ) := by
  obtain ⟨hins, -⟩ := insertUsageFromTask_ok (u := u) hk fun w hw => (hgt w hw).ne
  have hvalues : (blocked.insert n.taskId (u, n)).values = blocked.values ++ [(u, n)] := by
    refine values_insert_of_lt (fun e he => ?_) _
    rw [hk e he]
    exact hgt e.2 (mem_map_of_mem he)
  have hpush : (priority (some c) blocked).pushBlocked (u, n)
      = .ok (.priority (some c) (blocked.insert n.taskId (u, n))) := by
    exact Except.bind_of_ok hins
  rw [hpush]
  show Except.ok _ = Except.ok _
  rw [toFifo_priority, hvalues, map_append]
  rfl

lemma foldlM_reblockReader_of_lt {acc : (ℕ → ℕ) × OrdMap ℕ Task × OrdMap ℕ UsageFromTask} :
    ∀ {es : List (ℕ × Task)}, (∀ e ∈ es, e.1 < n.taskId) →
      es.foldlM (reblockReader n) acc = .ok acc
  | [], _ => rfl
  | e :: es, h => by
    rw [foldlM_cons]
    unfold reblockReader
    rw [if_pos (h e mem_cons_self)]
    exact foldlM_reblockReader_of_lt fun e' he' => h e' (mem_cons_of_mem _ he')

/-- A task that goes after all others takes nothing back. It is let in only where it reads, others
read and nobody waits. -/
lemma prepareLock_of_lt {c : PriorityUsage} (h : LockOk soft req (some c) blocked)
    (hgt : ∀ x ∈ req, x.2.taskId < n.taskId) (u : RequestedUsage) :
    (priority (some c) blocked).prepareLock n u counts
      = .ok (counts, .priority (some c) blocked,
        c.requestedUsage = .readonly ∧ u = .readonly ∧ blocked.values = []) := by
  rcases c with tasks | t
  · rcases u with _ | _
    · rcases hhead : blocked.values.head? with _ | ⟨peekedUsage, peekedTask⟩
      · have hnil : blocked.values = [] := head?_eq_none_iff.1 hhead
        unfold prepareLock
        simp [hnil, Usage.requestedUsage]
      · obtain rfl : peekedUsage = .writable := h.head tasks rfl _ hhead
        have hne : blocked.values ≠ [] := fun hnil => by
          rw [hnil] at hhead
          cases hhead
        have hpeek := hgt _ (h.mem_waiting (mem_of_mem_head? hhead))
        unfold prepareLock
        simp only [hhead]
        rw [Task.isHigherPriority_of_gt hpeek]
        simp [hne]
        rfl
    · obtain ⟨hne, hk⟩ := h.readers tasks rfl
      have hlt : ∀ e ∈ tasks.entries, e.1 < n.taskId := by
        intro e he
        rw [hk e he]
        exact hgt _ (h.mem_holders (x := (.readonly, e.2))
          (mem_map_of_mem (mem_map_of_mem he)))
      show (tasks.entries.foldlM (reblockReader n) (counts, tasks, blocked) >>= _) = _
      rw [foldlM_reblockReader_of_lt hlt]
      have hempty : tasks.entries.isEmpty = false := by
        rw [Bool.eq_false_iff]
        exact fun he => hne (entries_eq_nil.1 (isEmpty_iff.1 he))
      show (if tasks.entries.isEmpty then _ else _) = _
      rw [hempty]
      simp
  · have hlt := hgt _ (h.mem_holders (x := (.writable, t)) mem_cons_self)
    show (n.isHigherPriority t >>= _) = _
    rw [Task.isHigherPriority_of_gt hlt]
    rfl

lemma tryLock_toFifo
    (hreaders : ∀ tasks, current = some (.readonly tasks) → tasks.get? t.taskId = none
      ∧ tasks.entries.length < counterMax) :
    ((priority current blocked).toFifo φ).tryLock (φ t) u
      = ((priority current blocked).tryLock t u).map (Option.map (toFifo φ)) := by
  rcases hc : current with _ | ⟨tasks⟩ | ⟨c⟩
  · rcases u with _ | _ <;> rfl
  · rcases u with _ | _
    · obtain ⟨hget, hlen⟩ := hreaders tasks hc
      have hlen' : (tasks.insert t.taskId t).entries.length = tasks.entries.length + 1 := by
        rw [← length_values, (perm_insert hget t).length_eq, length_cons,
          length_values]
      show (increment tasks.entries.length >>= _)
        = Except.map _ (insertNew tasks t.taskId t >>= _)
      rw [increment_ok hlen, insertNew_ok hget, ← hlen']
      rfl
    · rfl
  · rfl

lemma length_holders_readonly {tasks : OrdMap ℕ Task} (h : LockOk soft req (some (.readonly tasks)) blocked) :
    tasks.entries.length ≤ req.length := by
  have hlen := h.perm.length_eq
  rw [length_append, holders_readonly, length_map, length_values] at hlen
  omega

lemma lockOrBlock_toFifo (h : LockOk soft req current blocked)
    (hgt : ∀ x ∈ req, x.2.taskId < n.taskId) (hlen : req.length < counterMax)
    (u : RequestedUsage) (counts : ℕ → ℕ) :
    ((priority current blocked).toFifo φ).lockOrBlock (φ n) u counts
      = ((priority current blocked).lockOrBlock n u counts).map
        fun r => (r.1, r.2.1.toFifo φ, r.2.2) := by
  have hprep : ((priority current blocked).toFifo φ).prepareLock (φ n) u counts
      = .ok (counts, (priority current blocked).toFifo φ, blocked.values.isEmpty) := by
    show Except.ok (counts, _, isEmpty (blocked.values.map _)) = _
    rw [isEmpty_map]
    rfl
  rcases hc : current with _ | c
  · have hempty := h.idle hc
    subst hc hempty
    rcases u with _ | _ <;> rfl
  subst hc
  have hp : (priority (some c) blocked).prepareLock n u counts = _ := prepareLock_of_lt h hgt u
  by_cases hjoin : c.requestedUsage = .readonly ∧ u = .readonly ∧ blocked.values = []
  · -- it reads along
    obtain ⟨hcr, rfl, hnil⟩ := hjoin
    rcases c with tasks | t
    case writable => cases hcr
    obtain ⟨-, hk⟩ := h.readers tasks rfl
    have hnew : ∀ x ∈ tasks.values, x.taskId ≠ n.taskId := fun x hx =>
      (hgt _ (h.mem_holders (x := (.readonly, x)) (mem_map_of_mem hx))).ne
    obtain ⟨hlock, -⟩ := @tryLock_readonly blocked n tasks hk hnew
    rw [decide_eq_true ⟨hcr, rfl, hnil⟩] at hp
    rw [lockOrBlock_locked hp hlock]
    refine lockOrBlock_locked (by rw [hprep, hnil]; rfl) ?_
    rw [tryLock_toFifo, hlock]
    · rfl
    · rintro tasks' ⟨⟩
      exact ⟨hk.get?_eq_none hnew, lt_of_le_of_lt (length_holders_readonly h) hlen⟩
  · rw [lockOrBlock_push hp fun he => absurd (of_decide_eq_true he) hjoin,
      lockOrBlock_push hprep fun he => ?_, pushBlocked_toFifo h.keyed
        (fun w hw => hgt w (h.mem_waiting hw))]
    · rcases (priority (some c) blocked).pushBlocked (u, n) with e | q <;> rfl
    · have hnil : blocked.values = [] := isEmpty_iff.1 he
      rcases c with tasks | t
      · rcases u with _ | _
        · exact absurd ⟨rfl, rfl, hnil⟩ hjoin
        · rfl
      · rfl

lemma pop_toFifo : ((priority current blocked).toFifo φ).pop
    = ((priority current blocked).pop.1.toFifo φ,
      (priority current blocked).pop.2.map fun w => (w.1, φ w.2)) := by
  rcases hpop : blocked.popFirst with _ | ⟨w, blocked1⟩
  · obtain rfl := popFirst_eq_none.1 hpop
    rfl
  · rw [toFifo_priority, values_of_popFirst hpop]
    simp only [pop, hpop, map_cons, toFifo_priority, Option.map_some]

lemma currentUsage_toFifo : ((priority current blocked).toFifo φ).currentUsage
    = (priority current blocked).currentUsage := by
  rcases current with _ | ⟨tasks⟩ | ⟨c⟩ <;> rfl

lemma popLockableReadonly_toFifo : ((priority current blocked).toFifo φ).popLockableReadonly
    = (priority current blocked).popLockableReadonly.map
      fun r => (r.1.toFifo φ, r.2.map fun w => (w.1, φ w.2)) := by
  unfold popLockableReadonly
  rw [currentUsage_toFifo, pop_toFifo]
  have hpeek : ((priority current blocked).toFifo φ).peekBlocked
      = (priority current blocked).peekBlocked.map fun w => (w.1, φ w.2) := head?_map
  rw [hpeek]
  rcases (priority current blocked).peekBlocked with _ | ⟨_ | _, t⟩
  · rfl
  · split_ifs <;> rfl
  · rfl

lemma pop_spec : ∃ blocked', (priority current blocked).pop.1 = .priority current blocked'
    ∧ blocked.values = (priority current blocked).pop.2.toList ++ blocked'.values := by
  rcases hpop : blocked.popFirst with _ | ⟨w, blocked1⟩
  · refine ⟨blocked, ?_, ?_⟩
    · simp only [pop, hpop]
    · simp only [pop, hpop]
      rfl
  · refine ⟨blocked1, ?_, ?_⟩
    · simp only [pop, hpop]
    · simp only [pop, hpop]
      exact values_of_popFirst hpop

lemma popLockableReadonly_spec {newly : Option UsageFromTask}
    (h : (priority current blocked).popLockableReadonly = .ok (q, newly)) :
    ∃ blocked', q = .priority current blocked'
      ∧ blocked.values = newly.toList ++ blocked'.values := by
  unfold popLockableReadonly at h
  split at h
  · split_ifs at h
    rw [Except.ok.injEq] at h
    have hpop := @pop_spec current blocked
    rwa [h] at hpop
  · cases h
    exact ⟨blocked, rfl, rfl⟩

lemma unlock_spec {newly : Option UsageFromTask} (h : LockOk soft req current blocked)
    (hheld : (u, t) ∈ holders current)
    (hunlock : (priority current blocked).unlock t u = .ok (q, newly)) :
    ∃ current' blocked', q = .priority current' blocked'
      ∧ (∀ tasks, current' = some (.readonly tasks) → tasks.Keyed Task.taskId)
      ∧ (holders current' ++ newly.toList ++ blocked'.values).Sublist
        (holders current ++ blocked.values) := by
  rcases unlock_cases h hheld with ⟨-, hlast⟩ | ⟨-, tasks, rfl, -, -, hkept⟩
  · obtain ⟨blocked', hq, hvalues⟩ := @pop_spec none blocked
    rw [hlast, Except.ok.injEq] at hunlock
    rw [hunlock] at hq hvalues
    refine ⟨none, blocked', hq, nofun, ?_⟩
    rw [hvalues]
    exact sublist_append_right _ _
  · cases hkept.symm.trans hunlock
    refine ⟨_, blocked, rfl, fun tasks' htasks' => ?_, ?_⟩
    · cases htasks'
      exact (h.readers tasks rfl).2.remove _
    · rw [Option.toList_none, append_nil]
      exact ((filter_sublist.map _).map _).append_right _

lemma tryLock_some (hk : ∀ tasks, current = some (.readonly tasks) → tasks.Keyed Task.taskId)
    (h : (priority current blocked).tryLock t u = .ok (some q)) :
    ∃ c, q = .priority (some c) blocked ∧ (holders (some c)).Perm ((u, t) :: holders current)
      ∧ ∀ tasks, some c = some (.readonly tasks) → tasks.Keyed Task.taskId := by
  rcases hc : current with _ | ⟨tasks⟩ | ⟨c⟩ <;> rw [hc] at h
  · cases h
    refine ⟨.ofTask t u, rfl, by rw [holders_ofTask]; exact .refl _, fun tasks htasks => ?_⟩
    rcases u with _ | _
    · cases htasks
      exact (OrdMap.Keyed.empty Task.taskId).insert t
    · cases htasks
  · rcases u with _ | _
    · obtain ⟨tasks', hins, hq⟩ := Except.bind_eq_ok.1 h
      cases hq
      unfold insertNew at hins
      split_ifs at hins with hcontains
      cases hins
      have hget : tasks.get? t.taskId = none := Option.not_isSome_iff_eq_none.1 hcontains
      refine ⟨_, rfl, (perm_insert hget t).map _, fun tasks' htasks' => ?_⟩
      cases htasks'
      exact (hk tasks hc).insert t
    · cases h
  · cases h

lemma lockLockable_toFifo (hφ : Relabels φ) : ∀ (turns : ℕ) {newly : Option UsageFromTask}
    {counts : ℕ → ℕ} {current : Option PriorityUsage} {blocked : OrdMap ℕ UsageFromTask}
    {unblocked : List Task}, (∀ tasks, current = some (.readonly tasks) → tasks.Keyed Task.taskId) →
    (holders current ++ newly.toList ++ blocked.values).Pairwise
      (fun x y => x.2.taskId ≠ y.2.taskId) →
    (holders current ++ newly.toList ++ blocked.values).length ≤ counterMax →
    lockLockable turns (newly.map fun w => (w.1, φ w.2)) counts
        ((priority current blocked).toFifo φ) (unblocked.map φ)
      = (lockLockable turns newly counts (priority current blocked) unblocked).map
        fun r => (r.1, r.2.1.toFifo φ, r.2.2.map φ)
  | turns, none, counts, current, blocked, unblocked, _, _, _ => by
    rw [Option.map_none, lockLockable_none, lockLockable_none]
    rfl
  | 0, some w, counts, current, blocked, unblocked, _, _, _ => rfl
  | turns + 1, some (u, t), counts, current, blocked, unblocked, hk, hd, hlen => by
    have hunblock : (φ t).tryUnblock counts = t.tryUnblock counts := by
      unfold Task.tryUnblock
      rw [hφ.ref]
    have hmap : ∀ did : Bool, (if did then unblocked.map φ ++ [φ t] else unblocked.map φ)
        = (if did then unblocked ++ [t] else unblocked).map φ := by
      intro did
      cases did <;> simp
    have hreaders : ∀ tasks, current = some (.readonly tasks) → tasks.get? t.taskId = none
        ∧ tasks.entries.length < counterMax := by
      intro tasks hc
      subst hc
      refine ⟨(hk tasks rfl).get?_eq_none fun x hx => ?_, ?_⟩
      · exact (pairwise_append.1 (pairwise_append.1 hd).1).2.2 (.readonly, x)
          (mem_map_of_mem hx) (u, t) mem_cons_self
      · rw [length_append, length_append, holders_readonly, length_map,
          length_values, Option.toList_some, length_singleton] at hlen
        omega
    refine bind_eq_map (tryLock_toFifo hreaders) fun q hq => ?_
    rcases q with _ | q
    · rfl
    obtain ⟨c, rfl, hp, hk'⟩ := tryLock_some hk hq
    -- who holds, is let in next or waits stays the same
    have hall : (holders current ++ [(u, t)] ++ blocked.values).Perm
        (holders (some c) ++ blocked.values) :=
      ((perm_append_singleton _ _).trans hp.symm).append_right _
    have hd' : (holders (some c) ++ blocked.values).Pairwise fun x y => x.2.taskId ≠ y.2.taskId :=
      (hall.pairwise_iff fun {x y} hxy => hxy.symm).1 hd
    have hlen' : (holders (some c) ++ blocked.values).length ≤ counterMax := hall.length_eq ▸ hlen
    rw [hunblock]
    refine bind_eq_map_self fun r hr => ?_
    obtain ⟨counts', did⟩ := r
    rcases u with _ | _
    · refine bind_eq_map popLockableReadonly_toFifo fun r hr => ?_
      obtain ⟨q', newly⟩ := r
      obtain ⟨blocked', rfl, hvalues⟩ := popLockableReadonly_spec hr
      rw [hvalues] at hd' hlen'
      rw [hmap did]
      exact lockLockable_toFifo hφ turns hk' (by rwa [append_assoc])
        (by rwa [append_assoc])
    · show Except.ok (counts', _, if did then _ else _) = _
      rw [hmap did]
      rfl

lemma unlock_toFifo (h : LockOk soft req current blocked) (hheld : (u, t) ∈ holders current) :
    ((priority current blocked).toFifo φ).unlock (φ t) u
      = ((priority current blocked).unlock t u).map
        fun r => (r.1.toFifo φ, r.2.map fun w => (w.1, φ w.2)) := by
  rcases unlock_cases h hheld with ⟨hlast, hunlock⟩ | ⟨rfl, tasks, rfl, hget, hne, hunlock⟩ <;>
    rw [hunlock]
  · refine Eq.trans ?_ (congrArg Except.ok (@pop_toFifo φ none blocked))
    rcases current with _ | ⟨tasks⟩ | ⟨c⟩
    · cases hheld
    · obtain ⟨x, -, hxu⟩ := mem_map.1 hheld
      cases hxu
      have hone := congrArg length hlast
      rw [holders_readonly, length_map, length_values] at hone
      exact if_pos hone
    · cases mem_singleton.1 hheld
      rfl
  · have hlen := (perm_remove hget).length_eq
    rw [length_cons, length_values, length_values] at hlen
    have hpos : (tasks.remove t.taskId).entries.length ≠ 0 := fun h0 =>
      hne (entries_eq_nil.1 (eq_nil_of_length_eq_zero h0))
    show (if tasks.entries.length = 1 then _ else _) = _
    rw [if_neg (by omega)]
    rw [hlen]
    rfl

lemma unlockAndLock_toFifo (hφ : Relabels φ)
    (h : LockOk soft req current blocked)
    (hd : req.Pairwise Apart)
    (hlen : req.length ≤ counterMax) (hheld : (u, t) ∈ holders current) :
    ((priority current blocked).toFifo φ).unlockAndLock (φ t) u counts
      = ((priority current blocked).unlockAndLock t u counts).map
        fun r => (r.1, r.2.1.toFifo φ, r.2.2.map φ) := by
  have hturns : ((priority current blocked).toFifo φ).blockedLen
      = (priority current blocked).blockedLen := by
    show (blocked.values.map _).length = _
    rw [length_map, length_values]
    rfl
  unfold unlockAndLock
  rw [hturns]
  refine bind_eq_map (unlock_toFifo h hheld) fun r hr => ?_
  obtain ⟨q, newly⟩ := r
  obtain ⟨current', blocked', rfl, hk, hsub⟩ := unlock_spec h hheld hr
  show lockLockable _ _ _ _ (map φ []) = _
  exact lockLockable_toFifo hφ _ hk
    (((h.perm.pairwise_iff fun {x y} hxy => ⟨hxy.1.symm, hxy.2.symm⟩).2 hd).imp
      (fun hxy => hxy.1) |>.sublist hsub)
    ((hsub.length_le.trans h.perm.length_eq.le).trans hlen)

end UsageQueueInner

end BlackBull
