import BlackBull.Proofs.UsageQueue

/-!
# The loops over the contexts of a task

A task that arrives enters its requests into the lock table one address after another, and one that
ends takes them out again.
-/

namespace BlackBull

open ShortCounter List Function SchedulingStateMachine

variable {soft : Task → Prop} {req : List UsageFromTask} {n t : Task} {a : ℕ} {tasks : List Task}
  {todo cs : List LockContext} {queue : ℕ → UsageQueueInner} {f : ℕ → List UsageFromTask}
  {x : UsageFromTask} {counts : ℕ → ℕ} {q : UsageQueueInner} {c : LockContext} {inOrder : Prop}

lemma mem_requestsAt : x ∈ requestsAt a t cs ↔ x.2 = t ∧ ⟨a, x.1⟩ ∈ cs := by
  obtain ⟨u, y⟩ := x
  unfold requestsAt
  rw [mem_map]
  constructor
  · rintro ⟨c, hc, hx⟩
    obtain ⟨hmem, hca⟩ := mem_filter.1 hc
    obtain ⟨rfl, rfl⟩ := Prod.mk.inj hx
    obtain rfl : c.usageQueue = a := of_decide_eq_true hca
    exact ⟨rfl, hmem⟩
  · rintro ⟨rfl, hc⟩
    exact ⟨⟨a, u⟩, mem_filter.2 ⟨hc, decide_eq_true rfl⟩, rfl⟩

lemma mem_requests : x ∈ requests a tasks ↔ x.2 ∈ tasks ∧ ⟨a, x.1⟩ ∈ x.2.lockContexts := by
  unfold requests
  rw [mem_flatMap]
  constructor
  · rintro ⟨t, ht, hx⟩
    obtain ⟨rfl, hc⟩ := mem_requestsAt.1 hx
    exact ⟨ht, hc⟩
  · rintro ⟨ht, hc⟩
    exact ⟨x.2, ht, mem_requestsAt.2 ⟨rfl, hc⟩⟩

lemma requestsAt_append (cs cs' : List LockContext) :
    requestsAt a t (cs ++ cs') = requestsAt a t cs ++ requestsAt a t cs' := by
  unfold requestsAt
  rw [filter_append, map_append]

lemma requestsAt_singleton (c : LockContext) :
    requestsAt a t [c] = if c.usageQueue = a then [(c.requestedUsage, t)] else [] := by
  unfold requestsAt
  by_cases h : c.usageQueue = a <;> simp [h]

lemma requests_append (tasks' : List Task) :
    requests a (tasks ++ tasks') = requests a tasks ++ requests a tasks' :=
  flatMap_append

lemma requests_singleton : requests a [t] = requestsAt a t t.lockContexts :=
  flatMap_singleton _ _

lemma requestsAt_eq_nil (h : a ∉ cs.map (·.usageQueue)) : requestsAt a t cs = [] := by
  refine eq_nil_iff_forall_not_mem.2 fun x hx => h ?_
  exact mem_map.2 ⟨_, (mem_requestsAt.1 hx).2, rfl⟩

lemma Task.WellFormed.requestsAt_length_le (h : t.WellFormed) :
    (requestsAt a t t.lockContexts).length ≤ 1 := by
  unfold requestsAt
  rw [length_map, ← countP_eq_length_filter]
  have hcount := nodup_iff_count_le_one.1 h.1 a
  rw [count, countP_map] at hcount
  refine le_trans (le_of_eq ?_) hcount
  refine countP_congr fun c _ => ?_
  simp

lemma TasksOk.requests_length_le (h : TasksOk tasks) (a : ℕ) :
    (requests a tasks).length ≤ tasks.length := by
  unfold requests
  rw [length_flatMap]
  refine (sum_le_card_nsmul _ 1 fun k hk => ?_).trans (by simp)
  obtain ⟨t, ht, rfl⟩ := mem_map.1 hk
  exact (h.wellFormed t ht).requestsAt_length_le

lemma TasksOk.distinct_requests (h : TasksOk tasks) (a : ℕ) : (requests a tasks).Pairwise Apart := by
  obtain ⟨hwf, hd⟩ := h
  induction tasks with
  | nil => exact List.Pairwise.nil
  | cons t tasks ih =>
    obtain ⟨hd1, hd2⟩ := pairwise_cons.1 hd
    show (requestsAt a t t.lockContexts ++ requests a tasks).Pairwise _
    refine pairwise_append.2 ⟨?_, ih (fun x hx => hwf x (mem_cons_of_mem _ hx)) hd2,
      fun x hx y hy => ?_⟩
    · have hle := (hwf t mem_cons_self).requestsAt_length_le (a := a)
      rcases hr : requestsAt a t t.lockContexts with _ | ⟨x, _ | ⟨y, l⟩⟩
      · exact List.Pairwise.nil
      · exact pairwise_singleton _ _
      · rw [hr] at hle
        simp at hle
    · rw [Apart, (mem_requestsAt.1 hx).1]
      exact hd1 y.2 (mem_requests.1 hy).1

lemma waits_eq_zero {r : ℕ} {l : List UsageFromTask} (h : ∀ x ∈ l, x.2.ref ≠ r) : waits r l = 0 :=
  countP_eq_zero.2 fun x hx => by simpa using h x hx

lemma waits_le_one {r : ℕ} : ∀ {l : List UsageFromTask}, l.Pairwise (fun x y => x.2.ref ≠ y.2.ref) →
    waits r l ≤ 1
  | [], _ => Nat.zero_le _
  | x :: l, h => by
    obtain ⟨h1, h2⟩ := pairwise_cons.1 h
    rw [waits_cons]
    split_ifs with hr
    · rw [waits_eq_zero fun y hy => hr ▸ (h1 y hy).symm]
    · exact waits_le_one h2

lemma sum_map_update (f : ℕ → ℕ) (x : ℕ) : ∀ {as : List ℕ}, as.Nodup →
    (as.map (update f a x)).sum + (if a ∈ as then f a else 0)
      = (as.map f).sum + if a ∈ as then x else 0
  | [], _ => by simp
  | b :: as, h => by
    obtain ⟨hb, has⟩ := nodup_cons.1 h
    have ih := sum_map_update f x has
    rw [map_cons, map_cons, sum_cons, sum_cons]
    rcases eq_or_ne b a with rfl | hne
    · simp only [hb, if_false, mem_cons_self, if_true, update_self] at ih ⊢
      omega
    · simp only [update_of_ne hne, mem_cons, hne.symm, false_or] at ih ⊢
      omega

lemma waitsIn_eq (queue : ℕ → UsageQueueInner) (t : Task) : t.waitsIn queue
    = ((t.lockContexts.map (·.usageQueue)).map ((fun q => waits t.ref q.waiting) ∘ queue)).sum := by
  rw [map_map]
  rfl

lemma Task.WellFormed.waitsIn_update (h : t.WellFormed) (queue : ℕ → UsageQueueInner) (a : ℕ)
    (q : UsageQueueInner) : t.waitsIn (update queue a q)
      + (if a ∈ t.lockContexts.map (·.usageQueue) then waits t.ref (queue a).waiting else 0)
    = t.waitsIn queue
      + if a ∈ t.lockContexts.map (·.usageQueue) then waits t.ref q.waiting else 0 := by
  rw [waitsIn_eq, waitsIn_eq, comp_update]
  exact sum_map_update _ _ h.1

lemma LockOk.congr {current : Option PriorityUsage} {blocked : OrdMap ℕ UsageFromTask}
    {req' : List UsageFromTask} (h : LockOk soft req current blocked) (hp : req.Perm req') :
    LockOk soft req' current blocked :=
  { h with perm := h.perm.trans hp }

lemma UsageQueueInner.RowOf.exists_priority (h : q.RowOf soft req) :
    ∃ current blocked, q = .priority current blocked ∧ LockOk soft req current blocked := by
  rcases q with _ | ⟨current, blocked⟩
  · exact h.elim
  · exact ⟨current, blocked, rfl, h⟩

lemma UsageQueueInner.RowOf.waits_le (h : q.RowOf soft req)
    (hd : req.Pairwise Apart) (r : ℕ) :
    waits r q.waiting ≤ 1 ∧ waits r q.waiting ≤ waits r req := by
  obtain ⟨current, blocked, rfl, hok⟩ := h.exists_priority
  have hle : waits r blocked.values ≤ waits r req := by
    rw [← waits_perm hok.perm, waits_append]
    exact Nat.le_add_left _ _
  exact ⟨hle.trans (waits_le_one (hd.imp fun h => h.2)), hle⟩

section Lock

variable {others : List Task} {m : SchedulingStateMachine} {b : ℕ}

/-- Task `n` has asked for the queues of `done`, and waits in `b` of them. -/
structure LockLoop (soft : Task → Prop) (others : List Task) (n : Task) (done : List LockContext)
    (m : SchedulingStateMachine) (b : ℕ) : Prop where
  table : LockTable soft (fun a => requests a others ++ requestsAt a n done) others m.countToken
    m.usageQueueToken
  blocked_eq : b = (done.map fun c => waits n.ref (m.usageQueueToken c.usageQueue).waiting).sum
  new : m.countToken n.ref = 0
  soft_of_pos : ∀ t ∈ others, 0 < m.countToken t.ref → soft t
  soft_or : ∀ t ∈ others, soft t → 0 < m.countToken t.ref ∨ t.taskId < n.taskId

variable (hok : TasksOk (others ++ [n]))

include hok in
lemma TasksOk.left : TasksOk others :=
  ⟨fun t ht => hok.wellFormed t (mem_append_left _ ht), (pairwise_append.1 hok.distinct).1⟩

lemma TasksOk.eq_of_ref {t' : Task} (h : TasksOk tasks) (ht : t ∈ tasks) (ht' : t' ∈ tasks)
    (hr : t.ref = t'.ref) : t = t' := by
  by_contra hne
  have hsymm : Std.Symm fun t t' : Task => t.taskId ≠ t'.taskId ∧ t.ref ≠ t'.ref :=
    ⟨fun _ _ hxy => ⟨hxy.1.symm, hxy.2.symm⟩⟩
  exact (h.distinct.forall ht ht' hne).2 hr

include hok in
lemma TasksOk.new_ne (ht : t ∈ others) : t.taskId ≠ n.taskId ∧ t.ref ≠ n.ref :=
  (pairwise_append.1 hok.distinct).2.2 t ht n mem_cons_self

include hok in
lemma TasksOk.new_wellFormed : n.WellFormed :=
  hok.wellFormed n mem_concat_self

include hok in
lemma TasksOk.new_notMem {done : List LockContext} (hcs : done ++ c :: todo = n.lockContexts) :
    c.usageQueue ∉ done.map (·.usageQueue) := by
  have hnd := hok.new_wellFormed.1
  rw [← hcs, map_append, map_cons] at hnd
  exact fun hm => disjoint_of_nodup_append hnd hm mem_cons_self

lemma LockTable.counts_lt (h : LockTable soft f tasks counts queue)
    (hd : ∀ a, (f a).Pairwise Apart)
    (ht : t ∈ tasks) (hwf : t.WellFormed) : counts t.ref < counterMax := by
  rw [h.counts_eq t ht]
  refine lt_of_le_of_lt ?_ hwf.2
  refine (sum_le_card_nsmul _ 1 fun x hx => ?_).trans (by simp)
  obtain ⟨c, -, rfl⟩ := mem_map.1 hx
  exact ((h.rows c.usageQueue).waits_le (hd _) _).1

include hok in
lemma TasksOk.distinct_requestsAt (hcs : cs.Sublist n.lockContexts) (a : ℕ) :
    (requests a others ++ requestsAt a n cs).Pairwise Apart := by
  have hd := hok.distinct_requests a
  rw [requests_append, requests_singleton] at hd
  exact hd.sublist (((hcs.filter _).map _).append_left _)

include hok in
lemma LockTable.update {f' : ℕ → List UsageFromTask} {counts' : ℕ → ℕ}
    (h : LockTable soft f others counts queue) (hrow : q.RowOf soft (f' a))
    (hf : ∀ a', a' ≠ a → f' a' = f a') (hbal : ∀ t ∈ others, waits t.ref q.waiting + counts t.ref
      = waits t.ref (queue a).waiting + counts' t.ref)
    (hmem : ∀ t ∈ others, counts' t.ref ≠ counts t.ref → a ∈ t.lockContexts.map (·.usageQueue)) :
    LockTable soft f' others counts' (update queue a q) := by
  refine ⟨fun a' => ?_, fun t ht => ?_⟩
  · rcases eq_or_ne a' a with rfl | hne
    · rwa [update_self]
    · rw [update_of_ne hne, hf a' hne]
      exact h.rows a'
  · have hupd := (hok.left.wellFormed t ht).waitsIn_update queue a q
    have hc := h.counts_eq t ht
    have hb := hbal t ht
    split_ifs at hupd with ha
    · omega
    · have hsame : counts' t.ref = counts t.ref := by
        by_contra hne
        exact ha (hmem t ht hne)
      omega

include hok in
lemma LockLoop.step {done : List LockContext} (h : LockLoop soft others n done m b)
    (hcs : done ++ c :: todo = n.lockContexts) :
    ∃ counts queue b', tryLockUsageQueue n (m, b) c
        = .ok ({ m with countToken := counts, usageQueueToken := queue }, b')
      ∧ LockLoop soft others n (done ++ [c])
        { m with countToken := counts, usageQueueToken := queue } b'
      ∧ ∀ r, counts r = 0 ↔ m.countToken r = 0 := by
  have hnotin := hok.new_notMem hcs
  have hsub : done.Sublist n.lockContexts := hcs ▸ sublist_append_left _ _
  have hlen : done.length < counterMax := by
    refine lt_of_le_of_lt ?_ hok.new_wellFormed.2
    exact hsub.length_le
  have hreq : requests c.usageQueue others ++ requestsAt c.usageQueue n done
      = requests c.usageQueue others := by
    rw [requestsAt_eq_nil hnotin, append_nil]
  have hothers : ∀ x ∈ requests c.usageQueue others, x.2 ∈ others := fun x hx => (mem_requests.1 hx).1
  obtain ⟨current, blocked, hq, hrow⟩ := (h.table.rows c.usageQueue).exists_priority
  rw [hreq] at hrow
  have hroom : ∀ t ∈ others, m.countToken t.ref < counterMax := fun t ht =>
    h.table.counts_lt (hok.distinct_requestsAt hsub) ht (hok.left.wellFormed t ht)
  obtain ⟨counts', current', blocked', isBlocked, hlock, hrow', hstep⟩ :=
    lockOrBlock_spec hrow ⟨fun x hx => (hok.new_ne (hothers x hx)).1,
      hok.left.distinct_requests _, fun x hx => hroom _ (hothers x hx),
      fun x hx => h.soft_of_pos _ (hothers x hx), fun x hx => h.soft_or _ (hothers x hx)⟩
      c.requestedUsage
  have hzero : ∀ r, counts' r = 0 ↔ m.countToken r = 0 :=
    fun r => ⟨fun hr => Nat.le_zero.1 (hr ▸ hstep.le r), hstep.zero r⟩
  have hself : ∀ {l : List UsageFromTask}, (∀ x ∈ l, x ∈ requests c.usageQueue others) →
      waits n.ref l = 0 := fun hl => waits_eq_zero fun x hx => (hok.new_ne (hothers x (hl x hx))).2
  have hb : b + (if isBlocked then 1 else 0) = ((done ++ [c]).map fun c' => waits n.ref
      (update m.usageQueueToken c.usageQueue (.priority current' blocked')
        c'.usageQueue).waiting).sum := by
    have hbal := hstep.balance n.ref
    rw [hself fun x hx => hrow.mem_waiting hx, (hzero n.ref).2 h.new, h.new] at hbal
    simp only [and_true, Nat.zero_add, Nat.add_zero] at hbal
    rw [map_append, sum_append, h.blocked_eq]
    congr 1
    · congr 1
      refine map_congr_left fun c' hc' => ?_
      have hne : c'.usageQueue ≠ c.usageQueue := fun he =>
        hnotin (mem_map.2 ⟨c', hc', he⟩)
      rw [update_of_ne hne]
    · simp only [map_cons, map_nil, sum_singleton, update_self]
      exact hbal.symm
  refine ⟨counts', update m.usageQueueToken c.usageQueue (.priority current' blocked'),
    b + (if isBlocked then 1 else 0), ?_, ⟨?_, hb, (hzero _).2 h.new, fun t ht hpos => ?_,
      fun t ht hs => ?_⟩, hzero⟩
  · unfold tryLockUsageQueue
    simp only [hq]
    rw [hlock]
    rcases isBlocked with _ | _
    · rfl
    · have hlt : b < counterMax := by
        refine lt_of_le_of_lt ?_ hlen
        rw [h.blocked_eq]
        refine (sum_le_card_nsmul _ 1 fun x hx => ?_).trans (by simp)
        obtain ⟨c', -, rfl⟩ := mem_map.1 hx
        exact ((h.table.rows c'.usageQueue).waits_le (hok.distinct_requestsAt hsub _) _).1
      exact Except.bind_of_ok (increment_ok hlt)
  · refine h.table.update hok ?_ (fun a' ha' => ?_) (fun t ht => ?_) (fun t ht hne => ?_)
    · refine (hrow'.mono fun x _ hs => .inl hs).congr ?_
      show List.Perm _ (requests c.usageQueue others ++ requestsAt c.usageQueue n (done ++ [c]))
      rw [requestsAt_append, ← append_assoc, hreq, requestsAt_singleton, if_pos rfl]
      exact (perm_append_singleton _ _).symm
    · rw [requestsAt_append, requestsAt_singleton, if_neg ha'.symm, append_nil]
    · have hbal := hstep.balance t.ref
      rw [if_neg fun he => (hok.new_ne ht).2 he.2.symm] at hbal
      rw [hq]
      exact hbal
    · obtain ⟨x, hx, hr⟩ := hstep.mem t.ref hne
      obtain ⟨hx1, hx2⟩ := mem_requests.1 hx
      obtain rfl : x.2 = t := hok.left.eq_of_ref hx1 ht hr
      exact mem_map.2 ⟨_, hx2, rfl⟩
  · refine h.soft_of_pos t ht (Nat.pos_of_ne_zero fun h0 => ?_)
    exact hpos.ne' ((hzero _).2 h0)
  · refine (h.soft_or t ht hs).imp_left fun hp => Nat.pos_of_ne_zero fun h0 => ?_
    exact hp.ne' ((hzero _).1 h0)

lemma LockTable.mono {soft' : Task → Prop} (h : LockTable soft f tasks counts queue)
    (hs : ∀ a, ∀ x ∈ f a, soft' x.2 → soft x.2) : LockTable soft' f tasks counts queue := by
  refine ⟨fun a => ?_, h.counts_eq⟩
  obtain ⟨current, blocked, hq, hrow⟩ := (h.rows a).exists_priority
  rw [hq]
  exact hrow.mono fun x hx => hs a x (hrow.mem_holders hx)

include hok in
lemma LockLoop.run : ∀ (todo : List LockContext) {done : List LockContext} {m : SchedulingStateMachine}
    {b : ℕ}, LockLoop soft others n done m b → done ++ todo = n.lockContexts →
    ∃ counts queue b', todo.foldlM (tryLockUsageQueue n) (m, b)
        = .ok ({ m with countToken := counts, usageQueueToken := queue }, b')
      ∧ LockLoop soft others n n.lockContexts
        { m with countToken := counts, usageQueueToken := queue } b'
      ∧ ∀ r, counts r = 0 ↔ m.countToken r = 0
  | [], done, m, b, h, hcs => by
    rw [append_nil] at hcs
    subst hcs
    exact ⟨_, _, b, rfl, h, fun _ => Iff.rfl⟩
  | c :: todo, done, m, b, h, hcs => by
    obtain ⟨counts1, queue1, b1, hstep, h1, hz1⟩ := h.step hok hcs
    obtain ⟨counts2, queue2, b2, hrun, h2, hz2⟩ := LockLoop.run todo h1 (by rw [← hcs]; simp)
    refine ⟨counts2, queue2, b2, ?_, h2, fun r => (hz2 r).trans (hz1 r)⟩
    rw [foldlM_cons, hstep]
    exact hrun

variable (h : LockTable (softOf inOrder m.countToken) (requests · others) others m.countToken
  m.usageQueueToken) (hnew : m.countToken n.ref = 0)
  (hin : inOrder → ∀ t ∈ others, t.taskId < n.taskId)
include hok h hnew hin

lemma LockTable.lockLoop :
    LockLoop (fun t => softOf inOrder m.countToken t ∨ t = n) others n [] m 0 := by
  refine ⟨?_, rfl, hnew, fun t _ hpos => .inl (.inr hpos), fun t ht hs => ?_⟩
  · have h' : LockTable (fun t => softOf inOrder m.countToken t ∨ t = n) (requests · others) others
        m.countToken m.usageQueueToken := h.mono fun a x hx hs =>
      hs.resolve_right fun he => (hok.new_ne (mem_requests.1 hx).1).2 (by rw [he])
    refine ⟨fun a => ?_, h'.counts_eq⟩
    show (m.usageQueueToken a).RowOf _ (requests a others ++ [])
    rw [append_nil]
    exact h'.rows a
  · rcases hs with (ho | hpos) | rfl
    · exact .inr (hin ho t ht)
    · exact .inl hpos
    · exact absurd rfl (hok.new_ne ht).2

/-- A task that arrives enters the table. Whether it misses a usage is what is returned; no other
task begins or ceases to miss one. -/
theorem tryLockUsageQueues_spec :
    ∃ counts queue locked, m.tryLockUsageQueues n
        = .ok ({ m with countToken := counts, usageQueueToken := queue }, locked)
      ∧ LockTable (softOf inOrder counts) (requests · (others ++ [n])) (others ++ [n]) counts queue
      ∧ (locked = true ↔ counts n.ref = 0)
      ∧ ∀ r, r ≠ n.ref → (counts r = 0 ↔ m.countToken r = 0) := by
  obtain ⟨counts, queue, b, hrun, hend, hz⟩ :=
    (h.lockLoop hok hnew hin).run hok n.lockContexts (nil_append _)
  have hb : b = n.waitsIn queue := hend.blocked_eq
  -- the count of the new task is set last
  have htable : ∀ counts', counts' n.ref = b → (∀ r, r ≠ n.ref → counts' r = counts r) →
      LockTable (softOf inOrder counts') (requests · (others ++ [n])) (others ++ [n]) counts' queue := by
    intro counts' hself hother
    refine ⟨fun a => ?_, fun t ht => ?_⟩
    · rw [requests_append, requests_singleton]
      refine (hend.table.mono fun a x hx hs => ?_).rows a
      rcases hs with ho | hpos
      · exact .inl (.inl ho)
      · rcases mem_append.1 hx with hx | hx
        · have hne := (hok.new_ne (mem_requests.1 hx).1).2
          rw [hother _ hne] at hpos
          exact .inl (.inr (Nat.pos_of_ne_zero fun h0 => hpos.ne' ((hz _).2 h0)))
        · exact .inr (mem_requestsAt.1 hx).1
    · rcases mem_append.1 ht with ht | ht
      · rw [hother _ (hok.new_ne ht).2]
        exact hend.table.counts_eq t ht
      · obtain rfl := mem_singleton.1 ht
        exact hself.trans hb
  unfold tryLockUsageQueues
  rw [hrun]
  by_cases hb0 : b = 0
  · refine ⟨counts, queue, true, ?_, htable counts (hb0 ▸ (hz _).2 hnew) fun _ _ => rfl,
      iff_of_true rfl ((hz _).2 hnew), fun r _ => hz r⟩
    subst hb0
    rfl
  · refine ⟨update counts n.ref b, queue, false, ?_, htable _ (update_self _ _ _)
      fun r hr => update_of_ne hr _ _, ?_, fun r hr => ?_⟩
    · show (if b = 0 then _ else _) = _
      rw [if_neg hb0]
    · rw [update_self]
      exact iff_of_false Bool.false_ne_true hb0
    · rw [update_of_ne hr]
      exact hz r

end Lock

section Unlock

variable {others : List Task} {m : SchedulingStateMachine} (hok : TasksOk (others ++ [t]))

/-- Task `t` still holds the queues of `todo`. -/
structure UnlockLoop (soft : Task → Prop) (others : List Task) (t : Task) (todo : List LockContext)
    (m : SchedulingStateMachine) : Prop where
  table : LockTable soft (fun a => requests a others ++ requestsAt a t todo) others m.countToken
    m.usageQueueToken
  holds : ∀ a, waits t.ref (m.usageQueueToken a).waiting = 0

/-- What the loop does next to the table: the tasks that come to miss no usage are queued. -/
structure Unblocks (others : List Task) (m m' : SchedulingStateMachine) : Prop where
  eq : m' = { m with
    unblockedTaskQueue := m'.unblockedTaskQueue
    countToken := m'.countToken
    usageQueueToken := m'.usageQueueToken }
  le : ∀ r, m'.countToken r ≤ m.countToken r
  same : ∀ r, (∀ o ∈ others, o.ref ≠ r) → m'.countToken r = m.countToken r
  queued : ∀ running : List Task,
    (running ++ m.unblockedTaskQueue).Perm (others.filter fun o => m.countToken o.ref = 0) →
      (running ++ m'.unblockedTaskQueue).Perm (others.filter fun o => m'.countToken o.ref = 0)

lemma Unblocks.trans {m' m'' : SchedulingStateMachine} (h : Unblocks others m m')
    (h' : Unblocks others m' m'') : Unblocks others m m'' where
  eq := by
    rw [h'.eq, h.eq]
  le r := (h'.le r).trans (h.le r)
  same r hr := (h'.same r hr).trans (h.same r hr)
  queued running hp := h'.queued running (h.queued running hp)

lemma UnlockLoop.waiting_pos (h : UnlockLoop soft others t todo m)
    (hx : x ∈ (m.usageQueueToken a).waiting) :
    x.2 ∈ others ∧ a ∈ x.2.lockContexts.map (·.usageQueue) ∧ 0 < m.countToken x.2.ref := by
  obtain ⟨current, blocked, hq, hrow⟩ := (h.table.rows a).exists_priority
  have hw : waits x.2.ref (m.usageQueueToken a).waiting ≠ 0 :=
    (countP_pos_iff.2 ⟨x, hx, decide_eq_true rfl⟩).ne'
  rw [hq] at hx
  rcases mem_append.1 (hrow.mem_waiting hx) with hx' | hx'
  · obtain ⟨hx1, hx2⟩ := mem_requests.1 hx'
    have ha : a ∈ x.2.lockContexts.map (·.usageQueue) := mem_map.2 ⟨_, hx2, rfl⟩
    refine ⟨hx1, ha, Nat.pos_of_ne_zero fun h0 => hw ?_⟩
    rw [h.table.counts_eq _ hx1, waitsIn_eq, sum_eq_zero_iff] at h0
    exact h0 _ (mem_map_of_mem ha)
  · rw [(mem_requestsAt.1 hx').1] at hw
    exact absurd (h.holds a) hw

include hok in
lemma UnlockLoop.held {current : Option PriorityUsage} {blocked : OrdMap ℕ UsageFromTask}
    (h : UnlockLoop soft others t todo m) (hc : c ∈ todo)
    (hq : m.usageQueueToken c.usageQueue = .priority current blocked) :
    (c.requestedUsage, t) ∈ holders current := by
  have hrow := h.table.rows c.usageQueue
  rw [hq] at hrow
  have hmem : (c.requestedUsage, t) ∈ requests c.usageQueue others ++ requestsAt c.usageQueue t todo :=
    mem_append_right _ (mem_requestsAt.2 ⟨rfl, hc⟩)
  rcases mem_append.1 (hrow.perm.mem_iff.2 hmem) with hh | hw
  · exact hh
  · exact absurd rfl (hok.new_ne (h.waiting_pos (by rw [hq]; exact hw)).1).2

include hok in
lemma UnlockLoop.step {done : List LockContext} (h : UnlockLoop soft others t (c :: todo) m)
    (hcs : done ++ c :: todo = t.lockContexts) :
    ∃ m', unlockUsageQueue t m c = .ok m'
      ∧ UnlockLoop soft others t todo m' ∧ Unblocks others m m' := by
  have hnd := hok.new_wellFormed.1
  rw [← hcs, map_append, map_cons] at hnd
  have hnotin : c.usageQueue ∉ todo.map (·.usageQueue) :=
    (nodup_cons.1 (nodup_append.1 hnd).2.1).1
  obtain ⟨current, blocked, hq, hrow⟩ := (h.table.rows c.usageQueue).exists_priority
  have hpos : ∀ w ∈ blocked.values, w.2 ∈ others ∧ c.usageQueue ∈ w.2.lockContexts.map (·.usageQueue)
      ∧ 0 < m.countToken w.2.ref := fun w hw => h.waiting_pos (by rw [hq]; exact hw)
  rw [← singleton_append, requestsAt_append, requestsAt_singleton, if_pos rfl,
    requestsAt_eq_nil hnotin, append_nil] at hrow
  have hrow1 : LockOk soft ((c.requestedUsage, t) :: requests c.usageQueue others) current blocked :=
    hrow.congr perm_append_comm
  have hheld := h.held hok mem_cons_self hq
  obtain ⟨counts', current', blocked', unblocked, hunlock, hrow', hstep⟩ :=
    unlockAndLock_spec hrow1 (hok.left.distinct_requests _) (fun w hw => (hpos w hw).2.2) hheld
  refine ⟨{ m with
      unblockedTaskQueue := m.unblockedTaskQueue ++ unblocked
      countToken := counts'
      usageQueueToken := update m.usageQueueToken c.usageQueue
        (.priority current' blocked') }, ?_, ⟨?_, fun a => ?_⟩, rfl, hstep.le, ?_, ?_⟩
  · unfold unlockUsageQueue
    rw [hq, hunlock]
    rfl
  · refine h.table.update hok ?_ (fun a' ha' => ?_) (fun o ho => ?_) (fun o ho hne => ?_)
    · show LockOk soft (requests c.usageQueue others ++ requestsAt c.usageQueue t todo) _ _
      rwa [requestsAt_eq_nil hnotin, append_nil]
    · rw [← singleton_append, requestsAt_append, requestsAt_singleton, if_neg ha'.symm,
        nil_append]
    · rw [hq]
      exact (hstep.balance o.ref).symm
    · obtain ⟨w, hw, hr⟩ := hstep.mem o.ref hne
      obtain ⟨hw1, hw2, -⟩ := hpos w hw
      rwa [← hok.left.eq_of_ref hw1 ho hr]
  · rcases eq_or_ne a c.usageQueue with rfl | hne
    · have hbal := hstep.balance t.ref
      have h0 := h.holds c.usageQueue
      have hle := hstep.le t.ref
      rw [hq] at h0
      dsimp only
      rw [update_self]
      show waits t.ref blocked'.values = 0
      have h0' : waits t.ref blocked.values = 0 := h0
      omega
    · dsimp only
      rw [update_of_ne hne]
      exact h.holds a
  · intro r hr
    by_contra hne
    obtain ⟨w, hw, hwr⟩ := hstep.mem r hne
    exact hr _ (hpos w hw).1 hwr
  · intro running hp
    have hnd : others.Nodup := hok.left.distinct.imp fun h heq => h.2 (by rw [heq])
    show (running ++ (m.unblockedTaskQueue ++ unblocked)).Perm
      (others.filter fun o => counts' o.ref = 0)
    rw [← append_assoc]
    refine (hp.append_right _).trans ?_
    refine (perm_ext_iff_of_nodup ?_ (hnd.filter _)).2 fun o => ?_
    · refine (hnd.filter _).append hstep.nodup fun o ho ho' => ?_
      have hz := of_decide_eq_true (mem_filter.1 ho).2
      exact ((hstep.mem_unblocked o).1 ho').2.2.ne' hz
    · rw [mem_append, mem_filter, mem_filter, hstep.mem_unblocked, decide_eq_true_eq,
        decide_eq_true_eq]
      constructor
      · rintro (⟨ho, hz⟩ | ⟨⟨w, hw, rfl⟩, hz, -⟩)
        · exact ⟨ho, Nat.le_zero.1 (hz ▸ hstep.le o.ref)⟩
        · exact ⟨(hpos w hw).1, hz⟩
      · rintro ⟨ho, hz⟩
        by_cases hz' : m.countToken o.ref = 0
        · exact .inl ⟨ho, hz'⟩
        · obtain ⟨w, hw, hr⟩ := hstep.mem o.ref fun he => hz' (he ▸ hz)
          exact .inr ⟨⟨w, hw, hok.left.eq_of_ref (hpos w hw).1 ho hr⟩, hz, Nat.pos_of_ne_zero hz'⟩

include hok in
lemma UnlockLoop.run : ∀ (todo : List LockContext) {done : List LockContext}
    {m : SchedulingStateMachine}, UnlockLoop soft others t todo m → done ++ todo = t.lockContexts →
    ∃ m', todo.foldlM (unlockUsageQueue t) m = .ok m'
      ∧ UnlockLoop soft others t [] m' ∧ Unblocks others m m'
  | [], _, m, h, _ => ⟨m, rfl, h, rfl, fun _ => le_rfl, fun _ _ => rfl, fun _ hp => hp⟩
  | c :: todo, done, m, h, hcs => by
    obtain ⟨m1, hstep, h1, hu1⟩ := h.step hok hcs
    obtain ⟨m2, hrun, h2, hu2⟩ := UnlockLoop.run todo h1
      (show (done ++ [c]) ++ todo = _ by rw [← hcs]; simp)
    refine ⟨m2, ?_, h2, hu1.trans hu2⟩
    rw [foldlM_cons, hstep]
    exact hrun

include hok in
lemma LockTable.unlockLoop (h : LockTable soft (requests · (others ++ [t])) (others ++ [t])
      m.countToken m.usageQueueToken) (hzero : m.countToken t.ref = 0) :
    UnlockLoop soft others t t.lockContexts m := by
  refine ⟨⟨fun a => ?_, fun o ho => h.counts_eq o (mem_append_left _ ho)⟩, fun a => ?_⟩
  · have hrow := h.rows a
    rwa [requests_append, requests_singleton] at hrow
  · rw [h.counts_eq t mem_concat_self, waitsIn_eq,
      sum_eq_zero_iff] at hzero
    by_cases ha : a ∈ t.lockContexts.map (·.usageQueue)
    · exact hzero _ (mem_map_of_mem ha)
    · refine waits_eq_zero fun x hx he => ha ?_
      obtain ⟨current, blocked, hq, hrow⟩ := (h.rows a).exists_priority
      rw [hq] at hx
      obtain ⟨hx1, hx2⟩ := mem_requests.1 (hrow.mem_waiting hx)
      obtain rfl := hok.eq_of_ref hx1 mem_concat_self he
      exact mem_map.2 ⟨_, hx2, rfl⟩

include hok in
theorem unlockUsageQueues_spec
    (h : LockTable (softOf inOrder m.countToken) (requests · (others ++ [t])) (others ++ [t])
      m.countToken m.usageQueueToken) (hzero : m.countToken t.ref = 0) :
    ∃ m', m.unlockUsageQueues t = .ok m'
      ∧ LockTable (softOf inOrder m'.countToken) (requests · others) others m'.countToken
        m'.usageQueueToken
      ∧ Unblocks others m m' := by
  obtain ⟨m', hrun, hend, hu⟩ :=
    (h.unlockLoop hok hzero).run hok t.lockContexts (nil_append _)
  refine ⟨m', hrun, ?_, hu⟩
  have htable : LockTable (softOf inOrder m.countToken) (requests · others) others m'.countToken
      m'.usageQueueToken := by
    refine ⟨fun a => ?_, hend.table.counts_eq⟩
    have hrow := hend.table.rows a
    rwa [show requestsAt a t [] = [] from rfl, append_nil] at hrow
  exact htable.mono fun _ x _ hs => hs.imp_right fun hpos => lt_of_lt_of_le hpos (hu.le _)

end Unlock

end BlackBull
