import BlackBull.Lib.OrdMap

/-!
# Tasks and usage queues of the unified scheduler

Every address has a usage queue (`unified-scheduler-logic/src/lib.rs`): who uses the address now,
and which tasks wait for it.
-/

namespace BlackBull

inductive SchedulerPanic
  /-- A counter passes `CounterInner::MAX`, or a bound of the configuration does. -/
  | overflow
  | underflow
  /-- `is_higher_priority` of equal ids. -/
  | selfComparison
  /-- `unwrap_none` of a map that had the key. -/
  | unwrapNone
  /-- `unwrap` of `None` or of `Err(())`. -/
  | unwrap
  | unreachable
  | assert
  /-- A loop was not given enough turns. This is no panic of the source. -/
  | outOfTurns
  deriving DecidableEq, Repr

/-- `CounterInner::MAX`. -/
def counterMax : ℕ := 2 ^ 32 - 1

namespace ShortCounter

def increment (c : ℕ) : Except SchedulerPanic ℕ :=
  if c < counterMax then .ok (c + 1) else .error .overflow

def decrement : ℕ → Except SchedulerPanic ℕ
  | 0 => .error .underflow
  | c + 1 => .ok c

end ShortCounter

open ShortCounter

inductive RequestedUsage
  | readonly
  | writable
  deriving DecidableEq, Repr

/-- A usage queue is known by its address. -/
structure LockContext where
  usageQueue : ℕ
  requestedUsage : RequestedUsage
  deriving DecidableEq, Repr

structure Task where
  ref : ℕ
  taskId : ℕ
  hash : ℕ
  lockContexts : List LockContext
  deriving DecidableEq, Repr

abbrev UsageFromTask := RequestedUsage × Task

namespace Task

/-- What `validate_account_locks` sees to before a task is made: no address twice, and not too many
of them. -/
def WellFormed (t : Task) : Prop :=
  (t.lockContexts.map (·.usageQueue)).Nodup ∧ t.lockContexts.length < counterMax

instance (t : Task) : Decidable t.WellFormed := inferInstanceAs (Decidable (_ ∧ _))

def isHigherPriority (t other : Task) : Except SchedulerPanic Bool :=
  if t.taskId < other.taskId then .ok true
  else if other.taskId < t.taskId then .ok false
  else .error .selfComparison

def tryUnblock (t : Task) (counts : ℕ → ℕ) : Except SchedulerPanic ((ℕ → ℕ) × Bool) := do
  let count ← decrement (counts t.ref)
  .ok (Function.update counts t.ref count, count = 0)

/-- One usage more is missing, unless none was: the task may be running then. -/
def tryReblock (t : Task) (counts : ℕ → ℕ) : Except SchedulerPanic ((ℕ → ℕ) × Bool) :=
  if counts t.ref = 0 then .ok (counts, false)
  else do
    let count ← increment (counts t.ref)
    .ok (Function.update counts t.ref count, true)

end Task

inductive Usage (R W : Type)
  | readonly (r : R)
  | writable (w : W)

def Usage.requestedUsage {R W : Type} : Usage R W → RequestedUsage
  | .readonly _ => .readonly
  | .writable _ => .writable

/-- How many read, or that one writes. -/
abbrev FifoUsage := Usage ℕ Unit

/-- The tasks that read, by id, or the one that writes. -/
abbrev PriorityUsage := Usage (OrdMap ℕ Task) Task

def FifoUsage.ofRequested : RequestedUsage → FifoUsage
  | .readonly => .readonly 1
  | .writable => .writable ()

def PriorityUsage.ofTask (task : Task) : RequestedUsage → PriorityUsage
  | .readonly => .readonly (OrdMap.insert ∅ task.taskId task)
  | .writable => .writable task

inductive Capability
  | fifoQueueing
  | priorityQueueing
  deriving DecidableEq, Repr

inductive UsageQueueInner
  | fifo (currentUsage : Option FifoUsage) (blockedUsagesFromTasks : List UsageFromTask)
  | priority (currentUsage : Option PriorityUsage)
      (blockedUsagesFromTasks : OrdMap ℕ UsageFromTask)

def insertNew {ν : Type} (m : OrdMap ℕ ν) (k : ℕ) (v : ν) : Except SchedulerPanic (OrdMap ℕ ν) :=
  if m.contains k then .error .unwrapNone else .ok (m.insert k v)

def insertUsageFromTask (blocked : OrdMap ℕ UsageFromTask) (usageFromTask : UsageFromTask) :
    Except SchedulerPanic (OrdMap ℕ UsageFromTask) :=
  insertNew blocked usageFromTask.2.taskId usageFromTask

/-- One turn of the loop over the current readers that a new writer goes before: a reader that waits
elsewhere is taken out and waits here too. -/
def reblockReader (newTask : Task)
    (acc : (ℕ → ℕ) × OrdMap ℕ Task × OrdMap ℕ UsageFromTask) (e : ℕ × Task) :
    Except SchedulerPanic ((ℕ → ℕ) × OrdMap ℕ Task × OrdMap ℕ UsageFromTask) :=
  if e.1 < newTask.taskId then .ok acc
  else do
    let (counts, reblocked) ← e.2.tryReblock acc.1
    if reblocked then do
      let blocked ← insertUsageFromTask acc.2.2 (.readonly, e.2)
      .ok (counts, acc.2.1.remove e.1, blocked)
    else .ok acc

namespace UsageQueueInner

def new : Capability → UsageQueueInner
  | .fifoQueueing => .fifo none []
  | .priorityQueueing => .priority none ∅

/-- The queue with the usage added, or none for `Err(())`, where the queue stays as it is. -/
def tryLock (newTask : Task) (requestedUsage : RequestedUsage) :
    UsageQueueInner → Except SchedulerPanic (Option UsageQueueInner)
  | .fifo none blocked => .ok (some (.fifo (some (.ofRequested requestedUsage)) blocked))
  | .fifo (some (.readonly count)) blocked =>
    match requestedUsage with
    | .readonly => do
      let count ← increment count
      .ok (some (.fifo (some (.readonly count)) blocked))
    | .writable => .ok none
  | .fifo (some (.writable ())) _ => .ok none
  | .priority none blocked => .ok (some (.priority (some (.ofTask newTask requestedUsage)) blocked))
  | .priority (some (.readonly tasks)) blocked =>
    match requestedUsage with
    | .readonly => do
      let tasks ← insertNew tasks newTask.taskId newTask
      .ok (some (.priority (some (.readonly tasks)) blocked))
    | .writable => .ok none
  | .priority (some (.writable _)) _ => .ok none

def pop : UsageQueueInner → UsageQueueInner × Option UsageFromTask
  | .fifo currentUsage [] => (.fifo currentUsage [], none)
  | .fifo currentUsage (usageFromTask :: blocked) => (.fifo currentUsage blocked, some usageFromTask)
  | .priority currentUsage blocked =>
    match blocked.popFirst with
    | none => (.priority currentUsage blocked, none)
    | some (usageFromTask, blocked) => (.priority currentUsage blocked, some usageFromTask)

def push (usageFromTask : UsageFromTask) : UsageQueueInner → Except SchedulerPanic UsageQueueInner
  | .fifo currentUsage blocked => .ok (.fifo currentUsage (blocked ++ [usageFromTask]))
  | .priority currentUsage blocked => do
    let blocked ← insertUsageFromTask blocked usageFromTask
    .ok (.priority currentUsage blocked)

def peekBlocked : UsageQueueInner → Option UsageFromTask
  | .fifo _ blocked => blocked.head?
  | .priority _ blocked => blocked.values.head?

def currentUsage : UsageQueueInner → Option RequestedUsage
  | .fifo currentUsage _ => currentUsage.map Usage.requestedUsage
  | .priority currentUsage _ => currentUsage.map Usage.requestedUsage

def unlock (task : Task) (requestedUsage : RequestedUsage) :
    UsageQueueInner → Except SchedulerPanic (UsageQueueInner × Option UsageFromTask)
  | .fifo (some (.readonly count)) blocked =>
    match requestedUsage with
    | .readonly =>
      if count = 1 then .ok (pop (.fifo none blocked))
      else do
        let count ← decrement count
        .ok (.fifo (some (.readonly count)) blocked, none)
    | .writable => .error .unreachable
  | .fifo (some (.writable ())) blocked =>
    match requestedUsage with
    | .readonly => .error .assert
    | .writable => .ok (pop (.fifo none blocked))
  | .fifo none _ => .error .unreachable
  | .priority (some (.readonly tasks)) blocked =>
    match requestedUsage with
    | .readonly =>
      if tasks.contains task.taskId then
        let tasks := tasks.remove task.taskId
        if tasks.entries.isEmpty then .ok (pop (.priority none blocked))
        else .ok (.priority (some (.readonly tasks)) blocked, none)
      else .error .unwrap
    | .writable => .error .unreachable
  | .priority (some (.writable _)) blocked =>
    match requestedUsage with
    | .readonly => .error .assert
    | .writable => .ok (pop (.priority none blocked))
  | .priority none _ => .error .unreachable

def pushBlocked (usageFromTask : UsageFromTask) (q : UsageQueueInner) :
    Except SchedulerPanic UsageQueueInner :=
  if q.currentUsage.isSome then q.push usageFromTask else .error .assert

def popLockableReadonly (q : UsageQueueInner) :
    Except SchedulerPanic (UsageQueueInner × Option UsageFromTask) :=
  match q.peekBlocked with
  | some (.readonly, _) => if q.currentUsage = some .readonly then .ok q.pop else .error .assert
  | _ => .ok (q, none)

/-- Whether the new task may try to lock. With priorities, usages of tasks of a lower priority that
are blocked elsewhere are first taken back, as if they had arrived later. -/
def prepareLock (newTask : Task) (requestedUsage : RequestedUsage) (counts : ℕ → ℕ) :
    UsageQueueInner → Except SchedulerPanic ((ℕ → ℕ) × UsageQueueInner × Bool)
  | .fifo currentUsage blocked => .ok (counts, .fifo currentUsage blocked, blocked.isEmpty)
  | .priority none blocked =>
    if blocked.entries.isEmpty then .ok (counts, .priority none blocked, true) else .error .assert
  | .priority (some (.writable currentTask)) blocked => do
    if ← newTask.isHigherPriority currentTask then
      let (counts, reblocked) ← currentTask.tryReblock counts
      if reblocked then
        let blocked ← insertUsageFromTask blocked (.writable, currentTask)
        .ok (counts, .priority none blocked, true)
      else .ok (counts, .priority (some (.writable currentTask)) blocked, false)
    else .ok (counts, .priority (some (.writable currentTask)) blocked, false)
  | .priority (some (.readonly currentTasks)) blocked =>
    match requestedUsage with
    | .readonly =>
      match blocked.values.head? with
      | none => .ok (counts, .priority (some (.readonly currentTasks)) blocked, true)
      | some (.readonly, _) => .error .assert
      | some (.writable, peekedTask) => do
        let higher ← newTask.isHigherPriority peekedTask
        .ok (counts, .priority (some (.readonly currentTasks)) blocked, higher)
    | .writable => do
      let (counts, currentTasks, blocked) ←
        currentTasks.entries.foldlM (reblockReader newTask) (counts, currentTasks, blocked)
      if currentTasks.entries.isEmpty then .ok (counts, .priority none blocked, true)
      else .ok (counts, .priority (some (.readonly currentTasks)) blocked, false)

/-- What is done for each context of a task that arrives: the usage is locked, or it waits. Returns
whether it waits. -/
def lockOrBlock (task : Task) (requestedUsage : RequestedUsage) (counts : ℕ → ℕ)
    (q : UsageQueueInner) : Except SchedulerPanic ((ℕ → ℕ) × UsageQueueInner × Bool) := do
  let (counts, q, prepared) ← q.prepareLock task requestedUsage counts
  match ← if prepared then q.tryLock task requestedUsage else .ok none with
  | some q => .ok (counts, q, false)
  | none => do
    let q ← q.pushBlocked (requestedUsage, task)
    .ok (counts, q, true)

/-- The loop that locks for the tasks that become lockable one after another. The tasks that miss
no usage any more are added to `unblocked`. -/
def lockLockable : ℕ → Option UsageFromTask → (ℕ → ℕ) → UsageQueueInner → List Task →
    Except SchedulerPanic ((ℕ → ℕ) × UsageQueueInner × List Task)
  | _, none, counts, q, unblocked => .ok (counts, q, unblocked)
  | 0, some _, _, _, _ => .error .outOfTurns
  | turns + 1, some (lockableUsage, lockableTask), counts, q, unblocked => do
    match ← q.tryLock lockableTask lockableUsage with
    | none => .error .unwrap
    | some q => do
      let (counts, didUnblock) ← lockableTask.tryUnblock counts
      let unblocked := if didUnblock then unblocked ++ [lockableTask] else unblocked
      match lockableUsage with
      | .readonly => do
        let (q, newlyLockable) ← q.popLockableReadonly
        lockLockable turns newlyLockable counts q unblocked
      | .writable => .ok (counts, q, unblocked)

def blockedLen : UsageQueueInner → ℕ
  | .fifo _ blocked => blocked.length
  | .priority _ blocked => blocked.entries.length

/-- What is done for each context of a task that is descheduled. Returns the tasks that miss no
usage any more. Every turn of the loop locks for a task that waited. -/
def unlockAndLock (task : Task) (requestedUsage : RequestedUsage) (counts : ℕ → ℕ)
    (q : UsageQueueInner) : Except SchedulerPanic ((ℕ → ℕ) × UsageQueueInner × List Task) := do
  let turns := q.blockedLen
  let (q, newlyLockable) ← q.unlock task requestedUsage
  lockLockable turns newlyLockable counts q []

end UsageQueueInner

end BlackBull
