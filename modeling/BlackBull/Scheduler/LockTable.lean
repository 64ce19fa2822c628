import BlackBull.Scheduler.StateMachine

/-!
# The lock table

What the usage queues are for: each active task requests every address of its contexts, and at every
address each request is either held or waits.
-/

namespace BlackBull

def requestsAt (a : ℕ) (t : Task) (contexts : List LockContext) : List UsageFromTask :=
  (contexts.filter (·.usageQueue = a)).map fun c => (c.requestedUsage, t)

def requests (a : ℕ) (tasks : List Task) : List UsageFromTask :=
  tasks.flatMap fun t => requestsAt a t t.lockContexts

def Task.Conflicts (t t' : Task) : Prop :=
  ∃ c ∈ t.lockContexts, ∃ c' ∈ t'.lockContexts, c.usageQueue = c'.usageQueue
    ∧ (c.requestedUsage = .writable ∨ c'.requestedUsage = .writable)

instance (t t' : Task) : Decidable (t.Conflicts t') :=
  inferInstanceAs (Decidable (∃ c ∈ _, ∃ c' ∈ _, _))

def holders : Option PriorityUsage → List UsageFromTask
  | none => []
  | some (.readonly tasks) => tasks.values.map fun t => (.readonly, t)
  | some (.writable t) => [(.writable, t)]

def UsageQueueInner.waiting : UsageQueueInner → List UsageFromTask
  | .fifo _ blocked => blocked
  | .priority _ blocked => blocked.values

def waits (r : ℕ) (l : List UsageFromTask) : ℕ := l.countP (·.2.ref = r)

/-- A queue with priorities is a row of the lock table for the requests `req`. -/
structure LockOk (soft : Task → Prop) (req : List UsageFromTask) (current : Option PriorityUsage)
    (blocked : OrdMap ℕ UsageFromTask) : Prop where
  perm : (holders current ++ blocked.values).Perm req
  readers : ∀ tasks, current = some (.readonly tasks) → tasks ≠ ∅ ∧ tasks.Keyed Task.taskId
  keyed : blocked.Keyed (·.2.taskId)
  /-- Nobody waits for an address that is not used. -/
  idle : current = none → blocked = ∅
  /-- Nobody who could read along waits first. -/
  head : ∀ tasks, current = some (.readonly tasks) → ∀ w, blocked.values.head? = some w →
    w.1 = .writable
  /-- Who holds a usage that may be taken back goes before all that wait. -/
  order : ∀ h ∈ holders current, soft h.2 → ∀ w ∈ blocked.values, h.2.taskId < w.2.taskId

/-- A queue of a machine with `PriorityQueueing` is a row of the lock table. -/
def UsageQueueInner.RowOf (soft : Task → Prop) (req : List UsageFromTask) : UsageQueueInner → Prop
  | .fifo _ _ => False
  | .priority current blocked => LockOk soft req current blocked

/-- The tasks whose usages may be taken back: those that miss one, or all of them where tasks arrive in
the order of their ids. -/
def softOf (inOrder : Prop) (counts : ℕ → ℕ) (t : Task) : Prop := inOrder ∨ 0 < counts t.ref

def Task.waitsIn (queue : ℕ → UsageQueueInner) (t : Task) : ℕ :=
  (t.lockContexts.map fun c => waits t.ref (queue c.usageQueue).waiting).sum

/-- The lock table: every queue is a row of it, and every task's count is right. -/
structure LockTable (soft : Task → Prop) (req : ℕ → List UsageFromTask) (tasks : List Task)
    (counts : ℕ → ℕ) (queue : ℕ → UsageQueueInner) : Prop where
  rows : ∀ a, (queue a).RowOf soft (req a)
  counts_eq : ∀ t ∈ tasks, counts t.ref = t.waitsIn queue

structure TasksOk (tasks : List Task) : Prop where
  wellFormed : ∀ t ∈ tasks, t.WellFormed
  distinct : tasks.Pairwise fun t t' => t.taskId ≠ t'.taskId ∧ t.ref ≠ t'.ref

end BlackBull
