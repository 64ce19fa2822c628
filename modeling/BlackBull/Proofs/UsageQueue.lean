import BlackBull.Scheduler.LockTable

/-!
# One usage queue

What a queue with priorities does, as a row of the lock table: a request that arrives is held or
waits (`lockOrBlock_spec`), and one that ends lets others in (`unlockAndLock_spec`).
-/

namespace BlackBull

open ShortCounter UsageQueueInner Function List OrdMap BlackBull.Task BlackBull.Except

variable {soft : Task → Prop} {req l' l : List UsageFromTask} {current : Option PriorityUsage}
  {blocked : OrdMap ℕ UsageFromTask} {counts counts' : ℕ → ℕ} {n t : Task} {u : RequestedUsage}
  {q' q : UsageQueueInner}

lemma increment_ok {c : ℕ} (h : c < counterMax) : increment c = .ok (c + 1) := if_pos h

lemma Task.tryReblock_zero (h : counts t.ref = 0) : t.tryReblock counts = .ok (counts, false) :=
  if_pos h

lemma Task.tryReblock_pos (h : 0 < counts t.ref) (hlt : counts t.ref < counterMax) :
    t.tryReblock counts = .ok (update counts t.ref (counts t.ref + 1), true) := by
  unfold tryReblock
  rw [if_neg h.ne', increment_ok hlt]
  rfl

lemma Task.tryUnblock_pos (h : 0 < counts t.ref) : t.tryUnblock counts
    = .ok (update counts t.ref (counts t.ref - 1), decide (counts t.ref - 1 = 0)) := by
  unfold tryUnblock
  obtain ⟨c, hc⟩ := Nat.exists_eq_succ_of_ne_zero h.ne'
  rw [hc]
  rfl

lemma Task.isHigherPriority_of_lt {other : Task} (h : n.taskId < other.taskId) :
    n.isHigherPriority other = .ok true := if_pos h

lemma Task.isHigherPriority_of_gt {other : Task} (h : other.taskId < n.taskId) :
    n.isHigherPriority other = .ok false := by
  unfold isHigherPriority
  rw [if_neg h.not_gt, if_pos h]

lemma insertNew_ok {ν : Type} {m : OrdMap ℕ ν} {k : ℕ} {v : ν} (h : m.get? k = none) :
    insertNew m k v = .ok (m.insert k v) := by
  unfold insertNew OrdMap.contains
  rw [h]
  rfl

/-- What is done to a map of waiting requests where no task of the new one's id waits. -/
lemma insertUsageFromTask_ok (hk : blocked.Keyed (·.2.taskId))
    (hnew : ∀ w ∈ blocked.values, w.2.taskId ≠ t.taskId) :
    insertUsageFromTask blocked (u, t) = .ok (blocked.insert t.taskId (u, t))
      ∧ (blocked.insert t.taskId (u, t)).values.Perm ((u, t) :: blocked.values)
      ∧ (blocked.insert t.taskId (u, t)).Keyed (·.2.taskId) := by
  have hget : blocked.get? t.taskId = none := hk.get?_eq_none hnew
  exact ⟨insertNew_ok hget, perm_insert hget _, hk.insert (u, t)⟩

def Apart (x y : UsageFromTask) : Prop := x.2.taskId ≠ y.2.taskId ∧ x.2.ref ≠ y.2.ref

lemma pairwise_apart (h : l.Perm l') (hd : l'.Pairwise Apart) : l.Pairwise Apart :=
  (h.pairwise_iff fun {_ _} hxy => ⟨hxy.1.symm, hxy.2.symm⟩).2 hd

lemma waits_perm (h : l.Perm l') (r : ℕ) : waits r l = waits r l' :=
  h.countP_eq _

lemma waits_append (l l' : List UsageFromTask) (r : ℕ) : waits r (l ++ l') = waits r l + waits r l' :=
  countP_append

lemma waits_cons (r : ℕ) (w : UsageFromTask) (l : List UsageFromTask) :
    waits r (w :: l) = waits r l + if w.2.ref = r then 1 else 0 := by
  unfold waits
  rw [countP_cons]
  simp

/-- What the arrival of a task does to the counts of the others: a task that loses a usage was
missing one already, and waits for it now. -/
structure LockStep (req : List UsageFromTask) (task : Task) (isBlocked : Bool)
    (counts counts' : ℕ → ℕ) (l l' : List UsageFromTask) : Prop where
  balance : ∀ r, waits r l' + counts r
    = waits r l + counts' r + if isBlocked ∧ task.ref = r then 1 else 0
  le : ∀ r, counts r ≤ counts' r
  zero : ∀ r, counts r = 0 → counts' r = 0
  mem : ∀ r, counts' r ≠ counts r → ∃ h ∈ req, h.2.ref = r

lemma LockStep.moved (moved : List UsageFromTask) (hperm : l'.Perm (moved ++ l))
    (hcounts : ∀ r, counts' r = counts r + waits r moved)
    (hmoved : ∀ w ∈ moved, w ∈ req ∧ 0 < counts w.2.ref) :
    LockStep req n false counts counts' l l' where
  balance r := by
    rw [waits_perm hperm, waits_append, hcounts]
    simp
    omega
  le r := by
    rw [hcounts]
    exact Nat.le_add_right _ _
  zero r hr := by
    rw [hcounts, hr, Nat.zero_add, waits, countP_eq_zero]
    intro w hw
    rw [decide_eq_true_eq]
    rintro rfl
    exact (hmoved w hw).2.ne' hr
  mem r hr := by
    have hpos : 0 < waits r moved := by
      have := hcounts r
      omega
    obtain ⟨w, hw, hwr⟩ := countP_pos_iff.1 hpos
    exact ⟨w, (hmoved w hw).1, of_decide_eq_true hwr⟩

lemma LockStep.locked (l : List UsageFromTask) : LockStep req n false counts counts l l :=
  .moved [] (.refl l) (fun _ => rfl) nofun

lemma LockStep.push {l'' : List UsageFromTask} (h : LockStep req n false counts counts' l l')
    (hp : l''.Perm ((u, n) :: l')) :
    LockStep req n true counts counts' l l'' where
  balance r := by
    have hb := h.balance r
    rw [waits_perm hp, waits_cons]
    simp at hb ⊢
    omega
  le := h.le
  zero := h.zero
  mem := h.mem

/-- The readers that the new task goes before and that wait elsewhere. -/
def reblocked (n : Task) (counts : ℕ → ℕ) (tasks : List Task) : List Task :=
  tasks.filter fun t => n.taskId ≤ t.taskId ∧ 0 < counts t.ref

lemma mem_reblocked {tasks : List Task} :
    t ∈ reblocked n counts tasks ↔ t ∈ tasks ∧ n.taskId ≤ t.taskId ∧ 0 < counts t.ref := by
  simp [reblocked]

/-- The loop over the readers takes the reblocked ones out. -/
lemma foldlM_reblockReader : ∀ (es : List (ℕ × Task)) {counts : ℕ → ℕ} {tasks : OrdMap ℕ Task}
    {blocked : OrdMap ℕ UsageFromTask}, tasks.Keyed taskId → blocked.Keyed (·.2.taskId) →
    (∀ e ∈ es, e.1 = e.2.taskId ∧ e.2 ∈ tasks.values ∧ counts e.2.ref < counterMax
      ∧ ∀ w ∈ blocked.values, w.2.taskId ≠ e.2.taskId) →
    es.Pairwise (fun e e' => e.2.taskId ≠ e'.2.taskId ∧ e.2.ref ≠ e'.2.ref) →
    ∃ counts' tasks' blocked',
      es.foldlM (reblockReader n) (counts, tasks, blocked) = .ok (counts', tasks', blocked')
      ∧ tasks'.Keyed taskId ∧ blocked'.Keyed (·.2.taskId)
      ∧ tasks.values.Perm (reblocked n counts (es.map Prod.snd) ++ tasks'.values)
      ∧ blocked'.values.Perm ((reblocked n counts (es.map Prod.snd)).map (fun t => (.readonly, t))
        ++ blocked.values)
      ∧ ∀ r, counts' r = counts r + (reblocked n counts (es.map Prod.snd)).countP (·.ref = r)
  | [], counts, tasks, blocked, hk, hkb, _, _ =>
    ⟨counts, tasks, blocked, rfl, hk, hkb, .refl _, .refl _, fun _ => rfl⟩
  | e :: es, counts, tasks, blocked, hk, hkb, hes, hne => by
    obtain ⟨hkey, hmem, hlt, hnew⟩ := hes e mem_cons_self
    obtain ⟨hne1, hne2⟩ := pairwise_cons.1 hne
    have hes' := fun e' he' => hes e' (mem_cons_of_mem _ he')
    rw [foldlM_cons, map_cons]
    by_cases hmove : n.taskId ≤ e.2.taskId ∧ 0 < counts e.2.ref
    · have hget : tasks.get? e.1 = some e.2 := hkey ▸ hk.get?_eq hmem
      obtain ⟨hins, hperm, hkb'⟩ := insertUsageFromTask_ok (u := .readonly) hkb hnew
      have hstep : reblockReader n (counts, tasks, blocked) e
          = .ok (update counts e.2.ref (counts e.2.ref + 1), tasks.remove e.1,
            blocked.insert e.2.taskId (.readonly, e.2)) := by
        unfold reblockReader
        rw [if_neg (hkey ▸ hmove.1.not_gt), tryReblock_pos hmove.2 hlt]
        exact bind_of_ok hins
      have hcounts : ∀ e' ∈ es, update counts e.2.ref (counts e.2.ref + 1) e'.2.ref
          = counts e'.2.ref := fun e' he' => update_of_ne (hne1 e' he').2.symm _ _
      have hrest : reblocked n (update counts e.2.ref (counts e.2.ref + 1)) (es.map Prod.snd)
          = reblocked n counts (es.map Prod.snd) := by
        refine filter_congr fun t ht => ?_
        obtain ⟨e', he', rfl⟩ := mem_map.1 ht
        rw [hcounts e' he']
      obtain ⟨counts', tasks', blocked', hfold, hk', hkb'', hp1, hp2, hcounts'⟩ :=
        foldlM_reblockReader es (hk.remove e.1) hkb' (fun e' he' => by
          obtain ⟨hkey', hmem', hlt', hnew'⟩ := hes' e' he'
          refine ⟨hkey', ?_, hcounts e' he' ▸ hlt', fun w hw => ?_⟩
          · rcases mem_cons.1 ((perm_remove hget).mem_iff.1 hmem') with heq | hm
            · exact absurd (congrArg taskId heq).symm (hne1 e' he').1
            · exact hm
          · rcases mem_cons.1 (hperm.mem_iff.1 hw) with rfl | hw
            · exact (hne1 e' he').1
            · exact hnew' w hw) hne2
      rw [hrest] at hp1 hp2 hcounts'
      have hcons : reblocked n counts (e.2 :: es.map Prod.snd)
          = e.2 :: reblocked n counts (es.map Prod.snd) := filter_cons_of_pos (decide_eq_true hmove)
      rw [hcons, hstep]
      refine ⟨counts', tasks', blocked', hfold, hk', hkb'', (perm_remove hget).trans (hp1.cons _),
        hp2.trans ((hperm.append_left _).trans perm_middle), fun r => ?_⟩
      rw [hcounts']
      rcases eq_or_ne r e.2.ref with rfl | hr
      · simp
        omega
      · simp [hr, hr.symm]
    · have hstep : reblockReader n (counts, tasks, blocked) e = .ok (counts, tasks, blocked) := by
        unfold reblockReader
        split_ifs with hid
        · rfl
        · have hzero : counts e.2.ref = 0 := by
            by_contra hpos
            exact hmove ⟨hkey ▸ not_lt.1 hid, Nat.pos_of_ne_zero hpos⟩
          rw [tryReblock_zero hzero]
          rfl
      have hcons : reblocked n counts (e.2 :: es.map Prod.snd)
          = reblocked n counts (es.map Prod.snd) := filter_cons_of_neg (by simpa using hmove)
      rw [hcons, hstep]
      exact foldlM_reblockReader es hk hkb hes' hne2

lemma holders_readonly (tasks : OrdMap ℕ Task) :
    holders (some (.readonly tasks)) = tasks.values.map fun t => (.readonly, t) := rfl

lemma mem_holders {tasks : OrdMap ℕ Task} (h : t ∈ tasks.values) :
    ((.readonly, t) : UsageFromTask) ∈ holders (some (.readonly tasks)) := mem_map_of_mem h

lemma holders_ofTask (n : Task) (u : RequestedUsage) : holders (some (.ofTask n u)) = [(u, n)] := by
  cases u <;> rfl

lemma lockOk_ofTask (hperm : blocked.values.Perm req) (hkeyed : blocked.Keyed (·.2.taskId))
    (hord : ∀ w ∈ blocked.values, n.taskId < w.2.taskId)
    (hhead : u = .readonly → ∀ w, blocked.values.head? = some w → w.1 = .writable) :
    LockOk soft ((u, n) :: req) (some (.ofTask n u)) blocked where
  perm := by
    rw [holders_ofTask]
    exact hperm.cons _
  readers tasks htasks := by
    cases u with
    | writable => cases htasks
    | readonly =>
      cases htasks
      exact ⟨insert_ne_empty _ _ _, (OrdMap.Keyed.empty taskId).insert n⟩
  keyed := hkeyed
  idle h := by cases h
  head tasks htasks := by
    cases u with
    | writable => cases htasks
    | readonly => exact hhead rfl
  order h hh _ w hw := by
    rw [holders_ofTask, mem_singleton] at hh
    subst hh
    exact hord w hw

/-- The new task waits. The first of those that wait then must not be a reader that could read
along. -/
lemma lockOk_pushBlocked (hperm : (holders current ++ blocked.values).Perm req)
    (hreaders : ∀ tasks, current = some (.readonly tasks) → tasks ≠ ∅ ∧ tasks.Keyed taskId)
    (hkeyed : blocked.Keyed (·.2.taskId)) (hcur : current ≠ none)
    (hids : ∀ h ∈ req, h.2.taskId ≠ n.taskId)
    (hhead : ∀ tasks, current = some (.readonly tasks) → ∀ w ∈ (u, n) :: blocked.values,
      (∀ w' ∈ (u, n) :: blocked.values, w.2.taskId ≤ w'.2.taskId) → w.1 = .writable)
    (hord : ∀ h ∈ holders current, soft h.2 →
      h.2.taskId < n.taskId ∧ ∀ w ∈ blocked.values, h.2.taskId < w.2.taskId) :
    ∃ blocked', (priority current blocked).pushBlocked (u, n)
        = .ok (.priority current blocked')
      ∧ blocked'.values.Perm ((u, n) :: blocked.values)
      ∧ LockOk (fun t => soft t ∨ t = n) ((u, n) :: req) current blocked' := by
  have hnew : ∀ w ∈ blocked.values, w.2.taskId ≠ n.taskId :=
    fun w hw => hids w (hperm.mem_iff.1 (mem_append_right _ hw))
  obtain ⟨hins, hp, hk⟩ := insertUsageFromTask_ok (u := u) hkeyed hnew
  refine ⟨_, ?_, hp, ?_, hreaders, hk, fun h => absurd h hcur, fun tasks htasks w hw => ?_,
    fun h hh hs w hw => ?_⟩
  · obtain ⟨c, rfl⟩ := Option.ne_none_iff_exists'.1 hcur
    exact bind_of_ok hins
  · exact (hp.append_left _).trans (perm_middle.trans (hperm.cons _))
  · refine hhead tasks htasks w (hp.mem_iff.1 (mem_of_mem_head? hw)) fun w' hw' => ?_
    exact hk.head_le hw (hp.mem_iff.2 hw')
  · have hs := hs.resolve_right fun hn =>
      hids h (hperm.mem_iff.1 (mem_append_left _ hh)) (by rw [hn])
    rcases mem_cons.1 (hp.mem_iff.1 hw) with rfl | hw
    · exact (hord h hh hs).1
    · exact (hord h hh hs).2 w hw

lemma LockOk.mono {soft' : Task → Prop} (h : LockOk soft req current blocked)
    (hs : ∀ x ∈ holders current, soft' x.2 → soft x.2) : LockOk soft' req current blocked :=
  { h with order := fun x hx hx' => h.order x hx (hs x hx hx') }

namespace UsageQueueInner

lemma lockOrBlock_locked {q'' : UsageQueueInner}
    (h1 : q.prepareLock n u counts = .ok (counts', q', true))
    (h2 : q'.tryLock n u = .ok (some q'')) : q.lockOrBlock n u counts = .ok (counts', q'', false) := by
  exact (bind_of_ok h1).trans (bind_of_ok h2)

lemma lockOrBlock_push {prepared : Bool}
    (h1 : q.prepareLock n u counts = .ok (counts', q', prepared))
    (h2 : prepared = true → q'.tryLock n u = .ok none) :
    q.lockOrBlock n u counts = (q'.pushBlocked (u, n)).map fun q'' => (counts', q'', true) := by
  unfold lockOrBlock
  rw [h1]
  have hpush : (q'.pushBlocked (u, n) >>= fun q'' => .ok (counts', q'', true))
      = (q'.pushBlocked (u, n)).map fun q'' => (counts', q'', true) := by
    cases q'.pushBlocked (u, n) <;> rfl
  cases prepared with
  | false => exact hpush
  | true =>
    show (q'.tryLock n u >>= _) = _
    rw [h2 rfl]
    exact hpush

lemma lockOrBlock_blocked {q'' : UsageQueueInner}
    (h1 : q.prepareLock n u counts = .ok (counts', q', false))
    (h2 : q'.pushBlocked (u, n) = .ok q'') :
    q.lockOrBlock n u counts = .ok (counts', q'', true) := by
  rw [lockOrBlock_push h1 nofun, h2]
  rfl

end UsageQueueInner

structure Arrives (soft : Task → Prop) (req : List UsageFromTask) (counts : ℕ → ℕ) (n : Task) :
    Prop where
  ids : ∀ h ∈ req, h.2.taskId ≠ n.taskId
  distinct : req.Pairwise fun h h' => h.2.taskId ≠ h'.2.taskId ∧ h.2.ref ≠ h'.2.ref
  room : ∀ h ∈ req, counts h.2.ref < counterMax
  soft_of_pos : ∀ h ∈ req, 0 < counts h.2.ref → soft h.2
  /-- A usage that may be taken back is the usage of a task that waits, or goes before the new
  one. -/
  soft_or : ∀ h ∈ req, soft h.2 → 0 < counts h.2.ref ∨ h.2.taskId < n.taskId

section LockOrBlock

variable (h : LockOk soft req current blocked) (ha : Arrives soft req counts n)

include h in
lemma LockOk.mem_holders {x : UsageFromTask} (hx : x ∈ holders current) : x ∈ req :=
  h.perm.mem_iff.1 (mem_append_left _ hx)

include h in
lemma LockOk.mem_waiting {x : UsageFromTask} (hx : x ∈ blocked.values) : x ∈ req :=
  h.perm.mem_iff.1 (mem_append_right _ hx)

def Locks (soft : Task → Prop) (req : List UsageFromTask) (counts : ℕ → ℕ) (n : Task)
    (u : RequestedUsage) (current : Option PriorityUsage) (blocked : OrdMap ℕ UsageFromTask) : Prop :=
  ∃ counts' current' blocked' isBlocked,
    (UsageQueueInner.priority current blocked).lockOrBlock n u counts
        = .ok (counts', .priority current' blocked', isBlocked)
      ∧ LockOk (fun t => soft t ∨ t = n) ((u, n) :: req) current' blocked'
      ∧ LockStep req n isBlocked counts counts' blocked.values blocked'.values

include h in
lemma locks_none (hnone : current = none) : Locks soft req counts n u current blocked := by
  have hempty := h.idle hnone
  have hperm := h.perm
  have hnil := OrdMap.values_eq_nil.2 hempty
  subst hnone hempty
  refine ⟨counts, _, _, false, lockOrBlock_locked rfl rfl,
    lockOk_ofTask hperm h.keyed (by simp [hnil]) (by simp [hnil]), .locked _⟩

include h ha in
lemma locks_writable {c : Task} (hc : current = some (.writable c)) :
    Locks soft req counts n u current blocked := by
  have hreq := h.mem_holders (x := (.writable, c)) (by rw [hc]; exact mem_cons_self)
  have hne := ha.ids _ hreq
  by_cases hre : n.taskId < c.taskId ∧ 0 < counts c.ref
  · -- the writer waits elsewhere and has a lower priority: it loses the address
    have hord : ∀ w ∈ blocked.values, c.taskId < w.2.taskId :=
      h.order (.writable, c) (by rw [hc]; exact mem_cons_self) (ha.soft_of_pos _ hreq hre.2)
    have hperm := h.perm
    rw [hc] at hperm
    obtain ⟨hins, hp, hk⟩ := insertUsageFromTask_ok (u := .writable) h.keyed
      fun w hw => (hord w hw).ne'
    have hprep : (priority current blocked).prepareLock n u counts
        = .ok (update counts c.ref (counts c.ref + 1),
          .priority none (blocked.insert c.taskId (.writable, c)), true) := by
      subst hc
      refine (bind_of_ok (isHigherPriority_of_lt hre.1)).trans ?_
      refine (bind_of_ok (tryReblock_pos hre.2 (ha.room _ hreq))).trans ?_
      exact bind_of_ok hins
    refine ⟨_, _, _, false, lockOrBlock_locked hprep rfl,
      lockOk_ofTask (hp.trans hperm) hk (fun w hw => ?_) (fun _ w hw => ?_), ?_⟩
    · rcases mem_cons.1 (hp.mem_iff.1 hw) with rfl | hw
      · exact hre.1
      · exact hre.1.trans (hord w hw)
    · rcases mem_cons.1 (hp.mem_iff.1 (mem_of_mem_head? hw)) with rfl | hw'
      · rfl
      · exact absurd (hk.head_le hw (hp.mem_iff.2 mem_cons_self)) (hord w hw').not_ge
    · refine .moved [_] hp (fun r => ?_) (forall_mem_singleton.2 ⟨hreq, hre.2⟩)
      rw [waits_cons, update_apply]
      rcases eq_or_ne r c.ref with rfl | hr
      · simp [waits]
      · simp [waits, hr, hr.symm]
  · have hlt : soft c → c.taskId < n.taskId := by
      intro hs
      rcases ha.soft_or _ hreq hs with hpos | hlt
      · exact lt_of_le_of_ne (not_lt.1 fun hn => hre ⟨hn, hpos⟩) hne
      · exact hlt
    obtain ⟨blocked', hpush, hp, hok⟩ := lockOk_pushBlocked (u := u) h.perm h.readers h.keyed
      (by rw [hc]; exact Option.some_ne_none _) ha.ids
      (fun tasks htasks => by rw [hc] at htasks; cases htasks)
      (fun x hx hs => by
        rw [hc] at hx
        obtain rfl := mem_singleton.1 hx
        exact ⟨hlt hs, h.order _ (by rw [hc]; exact hx) hs⟩)
    refine ⟨counts, current, blocked', true, lockOrBlock_blocked ?_ hpush, hok,
      (LockStep.locked _).push hp⟩
    subst hc
    rcases lt_or_gt_of_ne hne with hlt | hgt
    · exact bind_of_ok (isHigherPriority_of_gt hlt)
    · have hzero := Nat.eq_zero_of_not_pos fun hpos => hre ⟨hgt, hpos⟩
      exact (bind_of_ok (isHigherPriority_of_lt hgt)).trans
        (bind_of_ok (tryReblock_zero hzero))

lemma tryLock_readonly {tasks : OrdMap ℕ Task} (hk : tasks.Keyed taskId)
    (hnew : ∀ t ∈ tasks.values, t.taskId ≠ n.taskId) :
    (priority (some (.readonly tasks)) blocked).tryLock n .readonly
        = .ok (some (.priority (some (.readonly (tasks.insert n.taskId n))) blocked))
      ∧ (holders (some (.readonly (tasks.insert n.taskId n)))).Perm
        ((.readonly, n) :: holders (some (.readonly tasks))) := by
  have hget : tasks.get? n.taskId = none := hk.get?_eq_none hnew
  refine ⟨?_, (perm_insert hget n).map _⟩
  exact bind_of_ok (insertNew_ok hget)

include h ha in
lemma locks_readonly {tasks : OrdMap ℕ Task} (hc : current = some (.readonly tasks)) :
    Locks soft req counts n .readonly current blocked := by
  subst hc
  obtain ⟨-, hk⟩ := h.readers tasks rfl
  -- the new task reads along where it goes before all that wait
  have join : (∀ w ∈ blocked.values, n.taskId < w.2.taskId) →
      (priority (some (.readonly tasks)) blocked).prepareLock n .readonly counts
        = .ok (counts, .priority (some (.readonly tasks)) blocked, true) →
      Locks soft req counts n .readonly (some (.readonly tasks)) blocked := by
    intro hord hprep
    obtain ⟨hlock, hp⟩ := @tryLock_readonly blocked n tasks hk
      fun t ht => ha.ids _ (h.mem_holders (mem_holders ht))
    refine ⟨counts, _, blocked, false, lockOrBlock_locked hprep hlock,
      ⟨?_, ?_, h.keyed, nofun, fun _ _ => h.head tasks rfl, fun x hx hs w hw => ?_⟩,
      .locked _⟩
    · exact (hp.append_right _).trans (h.perm.cons _)
    · intro tasks' htasks'
      cases htasks'
      exact ⟨insert_ne_empty _ _ _, hk.insert n⟩
    · rcases mem_cons.1 (hp.mem_iff.1 hx) with rfl | hx
      · exact hord w hw
      · rcases hs with hs | hn
        · exact h.order x hx hs w hw
        · exact absurd (congrArg taskId hn) (ha.ids x (h.mem_holders hx))
  rcases hhead : blocked.values.head? with _ | ⟨peekedUsage, peekedTask⟩
  · refine join (fun w hw => ?_) ?_
    · rw [head?_eq_none_iff.1 hhead] at hw
      cases hw
    · unfold prepareLock
      simp only [hhead]
  · obtain rfl : peekedUsage = .writable := h.head tasks rfl _ hhead
    have hpeeked := mem_of_mem_head? hhead
    rcases lt_or_gt_of_ne (ha.ids _ (h.mem_waiting hpeeked)) with hlt | hgt
    · obtain ⟨blocked', hpush, hp, hok⟩ := lockOk_pushBlocked (n := n) (u := .readonly) h.perm
        h.readers h.keyed nofun ha.ids
        (fun _ _ w hw hmin => by
          have hle := hmin _ (mem_cons_of_mem _ hpeeked)
          rcases mem_cons.1 hw with rfl | hw
          · exact absurd hle hlt.not_ge
          · rw [h.keyed.inj hw hpeeked (le_antisymm hle (h.keyed.head_le hhead hw))])
        (fun x hx hs => ⟨(h.order x hx hs _ hpeeked).trans hlt, h.order x hx hs⟩)
      refine ⟨counts, _, blocked', true, lockOrBlock_blocked ?_ hpush, hok,
        (LockStep.locked _).push hp⟩
      simp only [prepareLock, hhead]
      exact bind_of_ok (isHigherPriority_of_gt hlt)
    · refine join (fun w hw => lt_of_lt_of_le hgt (h.keyed.head_le hhead hw)) ?_
      simp only [prepareLock, hhead]
      exact bind_of_ok (isHigherPriority_of_lt hgt)

include h ha in
lemma locks_writable_readonly {tasks : OrdMap ℕ Task} (hc : current = some (.readonly tasks)) :
    Locks soft req counts n .writable current blocked := by
  subst hc
  obtain ⟨hne, hk⟩ := h.readers tasks rfl
  have hreq : ∀ t ∈ tasks.values, ((.readonly, t) : UsageFromTask) ∈ req :=
    fun t ht => h.mem_holders (mem_holders ht)
  obtain ⟨hpair1, -, hpair2⟩ := pairwise_append.1 (pairwise_apart h.perm ha.distinct)
  obtain ⟨counts', tasks', blocked', hfold, hk', hkb', hp1, hp2, hcounts⟩ :=
    foldlM_reblockReader (n := n) tasks.entries hk h.keyed
      (fun e he => by
        have he' : e.2 ∈ tasks.values := mem_map_of_mem he
        exact ⟨hk e he, he', ha.room _ (hreq _ he'), fun w hw => (hpair2 _ (mem_holders he') w hw).1.symm⟩)
      (by
        have hp := hpair1
        rw [holders_readonly, values, map_map, pairwise_map] at hp
        exact hp)
  set moved := reblocked n counts (tasks.entries.map Prod.snd)
  have hmoved : ∀ t, t ∈ moved ↔ _ := fun t => mem_reblocked
  have hstep : LockStep req n false counts counts' blocked.values blocked'.values := by
    refine .moved _ hp2 (fun r => (hcounts r).trans (by rw [waits, countP_map]; rfl)) fun w hw => ?_
    obtain ⟨t, ht, rfl⟩ := mem_map.1 hw
    exact ⟨hreq t (hp1.mem_iff.2 (mem_append_left _ ht)), ((hmoved t).1 ht).2.2⟩
  have hperm' : (holders (some (.readonly tasks')) ++ blocked'.values).Perm req := by
    refine List.Perm.trans ?_ h.perm
    refine (hp2.append_left _).trans ?_
    rw [← append_assoc]
    refine List.Perm.append_right _ ?_
    refine perm_append_comm.trans ?_
    have hp := hp1.map fun t => ((.readonly, t) : UsageFromTask)
    rw [map_append] at hp
    exact hp.symm
  -- who has lost the address goes after the new task
  have hafter : ∀ t ∈ moved, n.taskId < t.taskId := by
    intro t ht
    have hm := (hmoved t).1 ht
    exact lt_of_le_of_ne hm.2.1 (ha.ids _ (hreq t hm.1)).symm
  by_cases hempty : tasks'.entries.isEmpty
  · have hall : tasks'.values = [] := values_of_isEmpty hempty
    refine ⟨counts', _, blocked', false,
      lockOrBlock_locked ((bind_of_ok hfold).trans (if_pos hempty)) rfl, lockOk_ofTask ?_ hkb' (fun w hw => ?_) (by simp), hstep⟩
    · have hp := hperm'
      rwa [holders_readonly, hall] at hp
    · rcases mem_append.1 (hp2.mem_iff.1 hw) with hw | hw
      · obtain ⟨t, ht, rfl⟩ := mem_map.1 hw
        exact hafter t ht
      · -- every reader was taken out, and each went before all that waited
        obtain ⟨t, ht⟩ := exists_mem_of_ne_nil _ (mt values_eq_nil.1 hne)
        have htm : t ∈ moved := by
          have := hp1.mem_iff.1 ht
          rwa [hall, append_nil] at this
        have hsoft := ha.soft_of_pos _ (hreq t ht) ((hmoved t).1 htm).2.2
        exact (hafter t htm).trans (h.order _ (mem_holders ht) hsoft w hw)
  · have hkept : ∀ t ∈ tasks'.values, soft t → t.taskId < n.taskId := by
      intro t ht hs
      have htm : t ∈ tasks.values := hp1.mem_iff.2 (mem_append_right _ ht)
      rcases ha.soft_or _ (hreq t htm) hs with hpos | hlt
      · by_contra hge
        have hm : t ∈ moved := (hmoved t).2 ⟨htm, not_lt.1 hge, hpos⟩
        have hnd : tasks.values.Nodup := hk.sorted.imp fun hlt => ne_of_apply_ne _ hlt.ne
        exact (disjoint_of_nodup_append (hp1.nodup_iff.1 hnd)) hm ht
      · exact hlt
    obtain ⟨blocked'', hpush, hp, hok⟩ := lockOk_pushBlocked (n := n) (u := .writable)
      hperm' (fun tasks'' htasks'' => by
        cases htasks''
        exact ⟨fun he => hempty (by rw [he]; rfl), hk'⟩) hkb' (by simp) ha.ids
      (fun _ _ w hw hmin => by
        rcases mem_cons.1 hw with rfl | hw
        · rfl
        rcases mem_append.1 (hp2.mem_iff.1 hw) with hw' | hw'
        · obtain ⟨t, ht, rfl⟩ := mem_map.1 hw'
          exact absurd (hmin _ mem_cons_self) (hafter t ht).not_ge
        · obtain ⟨w0, hw0⟩ : ∃ w0, blocked.values.head? = some w0 := by
            rcases hh : blocked.values.head? with _ | w0
            · rw [head?_eq_none_iff.1 hh] at hw'
              cases hw'
            · exact ⟨w0, rfl⟩
          have hle := hmin w0 (mem_cons_of_mem _
            (hp2.mem_iff.2 (mem_append_right _ (mem_of_mem_head? hw0))))
          rw [h.keyed.inj hw' (mem_of_mem_head? hw0)
            (le_antisymm hle (h.keyed.head_le hw0 hw'))]
          exact h.head tasks rfl w0 hw0)
      (fun x hx hs => by
        obtain ⟨t, ht, rfl⟩ := mem_map.1 hx
        have hlt := hkept t ht hs
        refine ⟨hlt, fun w hw => ?_⟩
        rcases mem_append.1 (hp2.mem_iff.1 hw) with hw | hw
        · obtain ⟨t', ht', rfl⟩ := mem_map.1 hw
          exact hlt.trans (hafter t' ht')
        · exact h.order _ (mem_holders (hp1.mem_iff.2 (mem_append_right _ ht))) hs w hw)
    exact ⟨counts', _, blocked'', true, lockOrBlock_blocked ((bind_of_ok hfold).trans
      (if_neg hempty)) hpush, hok, hstep.push hp⟩

include h ha in
theorem lockOrBlock_spec (u : RequestedUsage) : Locks soft req counts n u current blocked := by
  rcases hc : current with _ | ⟨tasks⟩ | ⟨c⟩
  · exact hc ▸ locks_none h hc
  · rcases u with _ | _
    · exact hc ▸ locks_readonly h ha hc
    · exact hc ▸ locks_writable_readonly h ha hc
  · exact hc ▸ locks_writable h ha hc

end LockOrBlock

/-- What the end of a task does to the counts of those that wait: who gets the usage misses one less,
and is unblocked if it misses none then. -/
structure UnlockStep (counts counts' : ℕ → ℕ) (l l' : List UsageFromTask) (unblocked : List Task) :
    Prop where
  balance : ∀ r, waits r l + counts' r = waits r l' + counts r
  le : ∀ r, counts' r ≤ counts r
  mem : ∀ r, counts' r ≠ counts r → ∃ w ∈ l, w.2.ref = r
  nodup : unblocked.Nodup
  mem_unblocked : ∀ x, x ∈ unblocked ↔ (∃ w ∈ l, w.2 = x) ∧ counts' x.ref = 0 ∧ 0 < counts x.ref

lemma UnlockStep.none (counts : ℕ → ℕ) (l : List UsageFromTask) : UnlockStep counts counts l l [] where
  balance _ := rfl
  le _ := le_rfl
  mem _ h := absurd rfl h
  nodup := nodup_nil
  mem_unblocked x := by
    refine iff_of_false not_mem_nil fun h => ?_
    omega

lemma UnlockStep.cons {unblocked : List Task}
    (h : UnlockStep (update counts t.ref (counts t.ref - 1)) counts' l l' unblocked)
    (hpos : 0 < counts t.ref) (hne : ∀ w ∈ l, w.2.ref ≠ t.ref) :
    UnlockStep counts counts' ((u, t) :: l) l'
      ((if counts t.ref - 1 = 0 then [t] else []) ++ unblocked) := by
  have hself : counts' t.ref = counts t.ref - 1 := by
    by_contra hc
    obtain ⟨w, hw, hr⟩ := h.mem t.ref (by rwa [update_self])
    exact hne w hw hr
  have hnot : t ∉ unblocked := by
    intro ht
    obtain ⟨⟨w, hw, rfl⟩, -⟩ := (h.mem_unblocked t).1 ht
    exact hne w hw rfl
  refine ⟨fun r => ?_, fun r => ?_, fun r hr => ?_, ?_, fun x => ?_⟩
  · have hb := h.balance r
    rw [waits_cons]
    rw [update_apply] at hb
    rcases eq_or_ne r t.ref with rfl | hr
    · simp at hb ⊢
      omega
    · simp only [hr, hr.symm, if_false] at hb ⊢
      omega
  · refine (h.le r).trans ?_
    rw [update_apply]
    split_ifs with hr
    · rw [hr]
      exact Nat.sub_le _ _
    · exact le_rfl
  · rcases eq_or_ne r t.ref with rfl | hne'
    · exact ⟨_, mem_cons_self, rfl⟩
    · obtain ⟨w, hw, hwr⟩ := h.mem r (by rwa [update_of_ne hne'])
      exact ⟨w, mem_cons_of_mem _ hw, hwr⟩
  · split_ifs
    · exact nodup_cons.2 ⟨hnot, h.nodup⟩
    · exact h.nodup
  · rw [mem_append, h.mem_unblocked]
    constructor
    · rintro (hx | ⟨⟨w, hw, rfl⟩, hzero, hx⟩)
      · split_ifs at hx with hz
        · obtain rfl := mem_singleton.1 hx
          exact ⟨⟨_, mem_cons_self, rfl⟩, hself.trans hz, hpos⟩
        · cases hx
      · rw [update_of_ne (hne w hw)] at hx
        exact ⟨⟨w, mem_cons_of_mem _ hw, rfl⟩, hzero, hx⟩
    · rintro ⟨⟨w, hw, rfl⟩, hzero, hx⟩
      rcases mem_cons.1 hw with rfl | hw
      · exact .inl (by rw [if_pos (hself.symm.trans hzero)]; exact mem_cons_self)
      · exact .inr ⟨⟨w, hw, rfl⟩, hzero, by rwa [update_of_ne (hne w hw)]⟩

lemma lockLockable_none (turns : ℕ) (q : UsageQueueInner) (unblocked : List Task) :
    lockLockable turns none counts q unblocked = .ok (counts, q, unblocked) := by
  cases turns <;> rfl

lemma lockLockable_succ {q q' : UsageQueueInner} {unblocked : List Task}
    (hlock : q.tryLock t u = .ok (some q')) (hpos : 0 < counts t.ref) :
    lockLockable (turns + 1) (some (u, t)) counts q unblocked
      = match u with
        | .readonly => q'.popLockableReadonly >>= fun r =>
          lockLockable turns r.2 (update counts t.ref (counts t.ref - 1)) r.1
            (unblocked ++ if counts t.ref - 1 = 0 then [t] else [])
        | .writable => .ok (update counts t.ref (counts t.ref - 1), q',
          unblocked ++ if counts t.ref - 1 = 0 then [t] else []) := by
  refine (bind_of_ok hlock).trans ((bind_of_ok (tryUnblock_pos hpos)).trans ?_)
  cases u <;> by_cases hz : counts t.ref - 1 = 0 <;> simp [hz]

/-- The loop lets in the first of those that wait, and all readers after it if it reads. Who is let in
goes before who still waits. -/
lemma lockLockable_spec : ∀ (turns : ℕ) {u : RequestedUsage} {t : Task} {counts : ℕ → ℕ}
    {current : Option PriorityUsage} {blocked : OrdMap ℕ UsageFromTask} (unblocked : List Task),
    blocked.values.length < turns → blocked.Keyed (·.2.taskId) →
    (current = none ∨ u = .readonly ∧ ∃ tasks, current = some (.readonly tasks)
      ∧ tasks.Keyed taskId) →
    (holders current ++ (u, t) :: blocked.values).Perm req →
    req.Pairwise Apart →
    (∀ w ∈ (u, t) :: blocked.values, 0 < counts w.2.ref) →
    (∀ w ∈ blocked.values, t.taskId < w.2.taskId ∧ ∀ h ∈ holders current,
      h.2.taskId < w.2.taskId) →
    ∃ counts' current' blocked' unblocked',
      lockLockable turns (some (u, t)) counts (.priority current blocked) unblocked
          = .ok (counts', .priority current' blocked', unblocked ++ unblocked')
        ∧ LockOk soft req current' blocked'
        ∧ UnlockStep counts counts' ((u, t) :: blocked.values) blocked'.values unblocked'
  | 0, _, _, _, _, _, _, hturns, _, _, _, _, _, _ => absurd hturns (Nat.not_lt_zero _)
  | turns + 1, u, t, counts, current, blocked, unblocked, hturns, hk, hcur, hperm, hdist, hpos,
      hord => by
    obtain ⟨-, hpair1, hpair2⟩ := pairwise_append.1 (pairwise_apart hperm hdist)
    have hne : ∀ w ∈ blocked.values, w.2.ref ≠ t.ref :=
      fun w hw => (rel_of_pairwise_cons hpair1 hw).2.symm
    have htpos := hpos _ mem_cons_self
    set counts1 := update counts t.ref (counts t.ref - 1) with hcounts1
    set freed := if counts t.ref - 1 = 0 then [t] else [] with hfreed
    -- the task gets the usage
    obtain ⟨current1, hlock, hh, hcase⟩ : ∃ current1,
        (priority current blocked).tryLock t u
            = .ok (some (.priority (some current1) blocked))
          ∧ (holders (some current1)).Perm ((u, t) :: holders current)
          ∧ (u = .writable ∧ current1 = .writable t ∨ u = .readonly ∧ ∃ tasks,
            current1 = .readonly tasks ∧ tasks ≠ ∅ ∧ tasks.Keyed taskId) := by
      rcases hcur with rfl | ⟨rfl, tasks, rfl, hkt⟩
      · refine ⟨.ofTask t u, rfl, by rw [holders_ofTask]; exact .refl _, ?_⟩
        rcases u with _ | _
        · exact .inr ⟨rfl, _, rfl, insert_ne_empty _ _ _,
            (OrdMap.Keyed.empty taskId).insert t⟩
        · exact .inl ⟨rfl, rfl⟩
      · obtain ⟨hlock, hp⟩ := @tryLock_readonly blocked t tasks hkt fun x hx =>
          (hpair2 (.readonly, x) (mem_map_of_mem hx) _ mem_cons_self).1
        exact ⟨_, hlock, hp, .inr ⟨rfl, _, rfl, insert_ne_empty _ _ _, hkt.insert t⟩⟩
    have hperm1 : (holders (some current1) ++ blocked.values).Perm req :=
      (hh.append_right _).trans (perm_middle.symm.trans hperm)
    have hord1 : ∀ h ∈ holders (some current1), ∀ w ∈ blocked.values, h.2.taskId < w.2.taskId := by
      intro h hmem w hw
      rcases mem_cons.1 (hh.mem_iff.1 hmem) with rfl | hmem
      · exact (hord w hw).1
      · exact (hord w hw).2 h hmem
    have hdone : UnlockStep counts counts1 ((u, t) :: blocked.values) blocked.values freed := by
      have hstep := (UnlockStep.none counts1 blocked.values).cons (u := u) htpos hne
      rwa [append_nil] at hstep
    rw [lockLockable_succ hlock htpos]
    rcases hcase with ⟨rfl, rfl⟩ | ⟨rfl, tasks, rfl, hempty, hkt⟩
    · exact ⟨_, _, _, _, rfl,
        ⟨hperm1, nofun, hk, nofun, nofun, fun h hmem _ => hord1 h hmem⟩, hdone⟩
    have hok : (∀ w, blocked.values.head? = some w → w.1 = .writable) →
        LockOk soft req (some (.readonly tasks)) blocked := fun hhead =>
      ⟨hperm1, fun _ ht => by cases ht; exact ⟨hempty, hkt⟩, hk, nofun, fun _ _ => hhead,
        fun h hmem _ => hord1 h hmem⟩
    rcases hpop : blocked.popFirst with _ | ⟨⟨u', t'⟩, blocked1⟩
    · have hnil : blocked.values = [] := values_eq_nil.2 (popFirst_eq_none.1 hpop)
      refine ⟨_, _, _, _, ?_, hok (by rw [hnil]; nofun), hdone⟩
      simp only [popLockableReadonly, peekBlocked, hnil]
      exact lockLockable_none turns _ _
    have hvalues := values_of_popFirst hpop
    rcases u' with _ | _
    · -- the next one reads too
      have hpopped : (priority (some (.readonly tasks)) blocked).popLockableReadonly
          = .ok (.priority (some (.readonly tasks)) blocked1, some (.readonly, t')) := by
        simp only [popLockableReadonly, peekBlocked, hvalues, pop, hpop]
        rfl
      rw [hpopped]
      have hsorted := hk.sorted
      rw [hvalues] at hsorted hperm1 hord1 hne
      have hpos1 : ∀ w ∈ (.readonly, t') :: blocked1.values,
          0 < counts1 w.2.ref := by
        intro w hw
        rw [hcounts1, update_of_ne (hne w hw)]
        exact hpos w (mem_cons_of_mem _ (by rw [hvalues]; exact hw))
      obtain ⟨counts', current', blocked', unblocked', hloop, hok', hstep⟩ :=
        lockLockable_spec turns (unblocked ++ freed)
          (by rw [hvalues, length_cons] at hturns; omega) (hk.popFirst hpop)
          (.inr ⟨rfl, tasks, rfl, hkt⟩) hperm1 hdist hpos1
          (fun w hw => ⟨rel_of_pairwise_cons hsorted hw,
            fun h hmem => hord1 h hmem w (mem_cons_of_mem _ hw)⟩)
      refine ⟨counts', current', blocked', freed ++ unblocked', ?_, hok', ?_⟩
      · show lockLockable turns (some (.readonly, t')) _ _ _ = _
        rw [hloop, append_assoc]
      · rw [hvalues]
        exact hstep.cons htpos hne
    · refine ⟨_, _, _, _, ?_, hok fun w hw => ?_, hdone⟩
      · simp only [popLockableReadonly, peekBlocked, hvalues]
        exact lockLockable_none turns _ _
      · rw [hvalues] at hw
        cases hw
        rfl

/-- A usage that is held is taken back; if nobody holds one then, the first that waits is popped. -/
lemma unlock_cases (h : LockOk soft req current blocked) (hheld : (u, t) ∈ holders current) :
    holders current = [(u, t)]
        ∧ (priority current blocked).unlock t u = .ok (pop (.priority none blocked))
      ∨ u = .readonly ∧ ∃ tasks, current = some (.readonly tasks) ∧ tasks.get? t.taskId = some t
        ∧ tasks.remove t.taskId ≠ ∅
        ∧ (priority current blocked).unlock t u
          = .ok (.priority (some (.readonly (tasks.remove t.taskId))) blocked, none) := by
  rcases current with _ | ⟨tasks⟩ | ⟨c⟩
  · cases hheld
  · obtain ⟨x, hx, hxu⟩ := mem_map.1 hheld
    cases hxu
    have hget := (h.readers tasks rfl).2.get?_eq hx
    by_cases hempty : (tasks.remove t.taskId).entries.isEmpty
    · have hp := perm_remove hget
      rw [values_of_isEmpty hempty] at hp
      refine .inl ⟨by rw [holders_readonly, perm_singleton.1 hp]; rfl, ?_⟩
      simp [unlock, OrdMap.contains, hget, hempty]
    · refine .inr ⟨rfl, tasks, rfl, hget, fun he => hempty (by rw [he]; rfl), ?_⟩
      simp [unlock, OrdMap.contains, hget, hempty]
  · cases mem_singleton.1 hheld
    exact .inl ⟨rfl, rfl⟩

def Unlocks (soft : Task → Prop) (req : List UsageFromTask) (counts : ℕ → ℕ) (t : Task)
    (u : RequestedUsage) (current : Option PriorityUsage) (blocked : OrdMap ℕ UsageFromTask) : Prop :=
  ∃ counts' current' blocked' unblocked,
    (UsageQueueInner.priority current blocked).unlockAndLock t u counts
        = .ok (counts', .priority current' blocked', unblocked)
      ∧ LockOk soft req current' blocked'
      ∧ UnlockStep counts counts' blocked.values blocked'.values unblocked

section UnlockAndLock

variable (h : LockOk soft ((u, t) :: req) current blocked)
  (hdist : req.Pairwise Apart)
  (hpos : ∀ w ∈ blocked.values, 0 < counts w.2.ref)

include h hdist hpos in
lemma unlocks_last (hlast : holders current = [(u, t)])
    (hunlock : (priority current blocked).unlock t u
      = .ok (pop (.priority none blocked))) :
    Unlocks soft req counts t u current blocked := by
  have hperm : blocked.values.Perm req := by
    have hp := h.perm
    rw [hlast] at hp
    exact hp.cons_inv
  rcases hpop : blocked.popFirst with _ | ⟨⟨u', t'⟩, blocked1⟩
  · have hempty := popFirst_eq_none.1 hpop
    refine ⟨counts, none, blocked, [], (bind_of_ok hunlock).trans ?_,
      ⟨hperm, nofun, h.keyed, fun _ => hempty, nofun, nofun⟩, UnlockStep.none _ _⟩
    simp only [pop, hpop]
    exact lockLockable_none _ _ _
  · obtain ⟨k, hentries⟩ := popFirst_eq_some hpop
    have hvalues := values_of_popFirst hpop
    have hsorted := h.keyed.sorted
    rw [hvalues] at hperm hpos hsorted
    obtain ⟨counts', current', blocked', unblocked, hloop, hok, hstep⟩ :=
      lockLockable_spec blocked.entries.length []
        (by rw [hentries, values, length_map]; exact Nat.lt_succ_self _)
        (h.keyed.popFirst hpop) (.inl rfl) hperm hdist hpos
        (fun w hw => ⟨rel_of_pairwise_cons hsorted hw, nofun⟩)
    refine ⟨counts', current', blocked', unblocked, (bind_of_ok hunlock).trans ?_, hok,
      hvalues ▸ hstep⟩
    simp only [pop, hpop]
    exact hloop

include h hdist hpos in
theorem unlockAndLock_spec (hheld : (u, t) ∈ holders current) :
    Unlocks soft req counts t u current blocked := by
  rcases unlock_cases h hheld with ⟨hlast, hunlock⟩ | ⟨rfl, tasks, rfl, hget, hne, hunlock⟩
  · exact unlocks_last h hdist hpos hlast hunlock
  · have hp := perm_remove hget
    refine ⟨counts, some (.readonly (tasks.remove t.taskId)), blocked, [], ?_, ⟨?_, ?_, h.keyed,
      nofun, fun _ _ => h.head tasks rfl, fun y hy hs => ?_⟩, UnlockStep.none _ _⟩
    · unfold unlockAndLock
      rw [hunlock]
      exact lockLockable_none _ _ _
    · exact (((hp.map _).append_right _).symm.trans h.perm).cons_inv
    · intro tasks' htasks'
      cases htasks'
      exact ⟨hne, (h.readers tasks rfl).2.remove _⟩
    · obtain ⟨z, hz, rfl⟩ := mem_map.1 hy
      exact h.order _ (mem_map_of_mem (hp.mem_iff.2 (mem_cons_of_mem _ hz))) hs

end UnlockAndLock

end BlackBull
