import BlackBull.Lib.Run
import BlackBull.Scheduler.UsageQueue

/-!
# The scheduling state machine

`SchedulingStateMachine` (`unified-scheduler-logic/src/lib.rs`) and its calls.
-/

namespace BlackBull

open ShortCounter

structure SchedulingStateMachine where
  unblockedTaskQueue : List Task := []
  activeTaskCount : ℕ := 0
  peakActiveTaskCount : ℕ := 0
  droppedTaskCount : ℕ := 0
  maxUniqueActiveTaskCount : Option ℕ
  uniqueActiveTaskHashes : List ℕ := []
  runningTaskCount : ℕ := 0
  maxRunningTaskCount : ℕ
  handledTaskCount : ℕ := 0
  unblockedTaskCount : ℕ := 0
  totalTaskCount : ℕ := 0
  countToken : ℕ → ℕ := fun _ => 0
  usageQueueToken : ℕ → UsageQueueInner

namespace SchedulingStateMachine

def exclusivelyInitializeCurrentThreadForScheduling (capability : Capability)
    (maxRunningTaskCount maxUniqueActiveTaskCount : Option ℕ) :
    Except SchedulerPanic SchedulingStateMachine :=
  let maxRunningTaskCount := maxRunningTaskCount.getD counterMax
  if maxRunningTaskCount ≤ counterMax then
    .ok { maxUniqueActiveTaskCount, maxRunningTaskCount,
          usageQueueToken := fun _ => .new capability }
  else .error .overflow

variable (m : SchedulingStateMachine)

def hasNoRunningTask : Bool := m.runningTaskCount = 0

def hasNoActiveTask : Bool := m.activeTaskCount = 0

def isTaskRunnable : Bool := m.runningTaskCount < m.maxRunningTaskCount

/-- Note the hash of a new task. None if there are too many tasks, or one of the same hash. -/
def insertHash (hash : ℕ) (m : SchedulingStateMachine) : Option SchedulingStateMachine :=
  match m.maxUniqueActiveTaskCount with
  | none => some m
  | some max =>
    if max ≤ m.uniqueActiveTaskHashes.length then none
    else if hash ∈ m.uniqueActiveTaskHashes then none
    else some { m with uniqueActiveTaskHashes := hash :: m.uniqueActiveTaskHashes }

/-- One turn of the loop of `tryLockUsageQueues`; also counts the usages that wait. -/
def tryLockUsageQueue (task : Task) (acc : SchedulingStateMachine × ℕ) (context : LockContext) :
    Except SchedulerPanic (SchedulingStateMachine × ℕ) := do
  let (m, blockedUsageCount) := acc
  let (counts, q, blocked) ← (m.usageQueueToken context.usageQueue).lockOrBlock task
    context.requestedUsage m.countToken
  let m := { m with
    countToken := counts
    usageQueueToken := Function.update m.usageQueueToken context.usageQueue q }
  if blocked then do
    let blockedUsageCount ← increment blockedUsageCount
    .ok (m, blockedUsageCount)
  else .ok (m, blockedUsageCount)

def tryLockUsageQueues (task : Task) (m : SchedulingStateMachine) :
    Except SchedulerPanic (SchedulingStateMachine × Bool) := do
  let (m, blockedUsageCount) ← task.lockContexts.foldlM (tryLockUsageQueue task) (m, 0)
  if blockedUsageCount = 0 then .ok (m, true)
  else .ok ({ m with countToken := Function.update m.countToken task.ref blockedUsageCount }, false)

def unlockUsageQueue (task : Task) (m : SchedulingStateMachine) (context : LockContext) :
    Except SchedulerPanic SchedulingStateMachine := do
  let (counts, q, unblocked) ← (m.usageQueueToken context.usageQueue).unlockAndLock task
    context.requestedUsage m.countToken
  .ok { m with
    unblockedTaskQueue := m.unblockedTaskQueue ++ unblocked
    countToken := counts
    usageQueueToken := Function.update m.usageQueueToken context.usageQueue q }

def unlockUsageQueues (task : Task) (m : SchedulingStateMachine) :
    Except SchedulerPanic SchedulingStateMachine :=
  task.lockContexts.foldlM (unlockUsageQueue task) m

def runOrBuffer (task : Task) (forceBuffering : Bool) (m : SchedulingStateMachine) :
    Except SchedulerPanic (SchedulingStateMachine × Option Task) :=
  if !m.isTaskRunnable || forceBuffering then do
    let unblockedTaskCount ← increment m.unblockedTaskCount
    let unblockedTaskQueue := m.unblockedTaskQueue ++ [task]
    .ok ({ m with unblockedTaskCount, unblockedTaskQueue }, none)
  else do
    let runningTaskCount ← increment m.runningTaskCount
    .ok ({ m with runningTaskCount }, some task)

def scheduleOrBufferTask (task : Task) (forceBuffering : Bool) (m : SchedulingStateMachine) :
    Except SchedulerPanic (SchedulingStateMachine × Option Task) := do
  let totalTaskCount ← increment m.totalTaskCount
  let m := { m with totalTaskCount }
  match m.insertHash task.hash with
  | none => do
    let droppedTaskCount ← increment m.droppedTaskCount
    .ok ({ m with droppedTaskCount }, none)
  | some m => do
    let activeTaskCount ← increment m.activeTaskCount
    let peakActiveTaskCount := max m.peakActiveTaskCount activeTaskCount
    let (m, locked) ← tryLockUsageQueues task { m with activeTaskCount, peakActiveTaskCount }
    if locked then m.runOrBuffer task forceBuffering else .ok (m, none)

def bufferTask (task : Task) (m : SchedulingStateMachine) :
    Except SchedulerPanic SchedulingStateMachine := do
  match ← m.scheduleOrBufferTask task true with
  | (m, none) => .ok m
  | (_, some _) => .error .unwrapNone

def scheduleNextUnblockedTask : Except SchedulerPanic (SchedulingStateMachine × Option Task) :=
  if m.isTaskRunnable then
    match m.unblockedTaskQueue with
    | [] => .ok (m, none)
    | task :: unblockedTaskQueue => do
      let runningTaskCount ← increment m.runningTaskCount
      let unblockedTaskCount ← increment m.unblockedTaskCount
      .ok ({ m with unblockedTaskQueue, runningTaskCount, unblockedTaskCount }, some task)
  else .ok (m, none)

def removeHash (hash : ℕ) (m : SchedulingStateMachine) :
    Except SchedulerPanic SchedulingStateMachine :=
  if m.maxUniqueActiveTaskCount.isSome then
    if hash ∈ m.uniqueActiveTaskHashes then
      .ok { m with uniqueActiveTaskHashes := m.uniqueActiveTaskHashes.erase hash }
    else .error .assert
  else .ok m

def descheduleTask (task : Task) (m : SchedulingStateMachine) :
    Except SchedulerPanic SchedulingStateMachine := do
  let runningTaskCount ← decrement m.runningTaskCount
  let m ← removeHash task.hash { m with runningTaskCount }
  let activeTaskCount ← decrement m.activeTaskCount
  let handledTaskCount ← increment m.handledTaskCount
  unlockUsageQueues task { m with activeTaskCount, handledTaskCount }

def reinitializeState : Except SchedulerPanic SchedulingStateMachine :=
  if m.hasNoActiveTask ∧ m.uniqueActiveTaskHashes = [] ∧ m.runningTaskCount = 0
      ∧ m.unblockedTaskQueue = [] then
    .ok { m with
      activeTaskCount := 0
      peakActiveTaskCount := 0
      droppedTaskCount := 0
      handledTaskCount := 0
      unblockedTaskCount := 0
      totalTaskCount := 0 }
  else .error .assert

/-- The loop of `clearAndReinitializeState`. Every turn ends an active task. -/
def clear : ℕ → ℕ → SchedulingStateMachine → Except SchedulerPanic (SchedulingStateMachine × ℕ)
  | turns, count, m => do
    match ← m.scheduleNextUnblockedTask with
    | (m, none) => .ok (m, count)
    | (m, some task) =>
      match turns with
      | 0 => .error .outOfTurns
      | turns + 1 => do
        let m ← m.descheduleTask task
        let count ← increment count
        clear turns count m

/-- Returns how many tasks were cleared. -/
def clearAndReinitializeState : Except SchedulerPanic (SchedulingStateMachine × ℕ) := do
  let (m, count) ← clear m.activeTaskCount 0 m
  let m ← m.reinitializeState
  .ok (m, count)

end SchedulingStateMachine

inductive SchedulerOp
  | scheduleOrBufferTask (task : Task) (forceBuffering : Bool)
  | bufferTask (task : Task)
  | scheduleNextUnblockedTask
  | descheduleTask (task : Task)
  | reinitializeState
  | clearAndReinitializeState

def SchedulerOp.given : SchedulerOp → Option Task
  | .scheduleOrBufferTask task _ | .bufferTask task => some task
  | _ => none

/-- What came of a call: the task given, if it was accepted, the task handed out, if there is one,
and the number of cleared tasks. -/
structure Reply where
  accepted : Option Task := none
  handedOut : Option Task := none
  cleared : ℕ := 0
  deriving DecidableEq, Repr

structure Session where
  capability : Capability
  machine : SchedulingStateMachine
  active : List Task := []
  running : List Task := []

namespace Session

def new (capability : Capability) (maxRunningTaskCount maxUniqueActiveTaskCount : Option ℕ) :
    Except SchedulerPanic Session := do
  let machine ← SchedulingStateMachine.exclusivelyInitializeCurrentThreadForScheduling capability
    maxRunningTaskCount maxUniqueActiveTaskCount
  .ok { capability, machine }

def accepted (s : Session) (task : Task) : Option Task :=
  (s.machine.insertHash task.hash).map fun _ => task

def step (s : Session) : SchedulerOp → Except SchedulerPanic (Session × List Reply)
  | .scheduleOrBufferTask task forceBuffering => do
    let (machine, handedOut) ← s.machine.scheduleOrBufferTask task forceBuffering
    let accepted := s.accepted task
    .ok ({ s with
      machine
      active := s.active ++ accepted.toList
      running := s.running ++ handedOut.toList }, [{ accepted, handedOut }])
  | .bufferTask task => do
    let machine ← s.machine.bufferTask task
    let accepted := s.accepted task
    .ok ({ s with machine, active := s.active ++ accepted.toList }, [{ accepted }])
  | .scheduleNextUnblockedTask => do
    let (machine, handedOut) ← s.machine.scheduleNextUnblockedTask
    .ok ({ s with machine, running := s.running ++ handedOut.toList }, [{ handedOut }])
  | .descheduleTask task => do
    let machine ← s.machine.descheduleTask task
    .ok ({ s with
      machine
      active := s.active.erase task
      running := s.running.erase task }, [{}])
  | .reinitializeState => do
    let machine ← s.machine.reinitializeState
    .ok ({ s with machine }, [{}])
  | .clearAndReinitializeState => do
    let (machine, cleared) ← s.machine.clearAndReinitializeState
    .ok ({ s with machine, active := [] }, [{ cleared }])

/-- A task that may be given: no active task is the same one or, with priorities, has the same
id. -/
def MayGive (s : Session) (task : Task) : Prop :=
  task.WellFormed ∧ ∀ t ∈ s.active, t.ref ≠ task.ref
    ∧ (s.capability = .priorityQueueing → t.taskId ≠ task.taskId)

/-- How the machine is to be used: only what was handed out is descheduled, and once; it is
reinitialized when no task is active, or cleared when none is running. -/
def Allowed (s : Session) : SchedulerOp → Prop
  | .scheduleOrBufferTask task _ | .bufferTask task => s.MayGive task
  | .scheduleNextUnblockedTask => True
  | .descheduleTask task => task ∈ s.running
  | .reinitializeState => s.active = []
  | .clearAndReinitializeState => s.running = [] ∧ 0 < s.machine.maxRunningTaskCount

instance (s : Session) (task : Task) : Decidable (s.MayGive task) :=
  inferInstanceAs (Decidable (_ ∧ _))

instance (s : Session) : ∀ op, Decidable (s.Allowed op)
  | .scheduleOrBufferTask task _ | .bufferTask task => inferInstanceAs (Decidable (s.MayGive task))
  | .scheduleNextUnblockedTask => .isTrue trivial
  | .descheduleTask task => inferInstanceAs (Decidable (task ∈ s.running))
  | .reinitializeState => inferInstanceAs (Decidable (s.active = []))
  | .clearAndReinitializeState => inferInstanceAs (Decidable (_ ∧ _))

/-- Fewer than `2 ^ 31` tasks are given from one initialization to the next. -/
def Fits (s : Session) (op : SchedulerOp) : Prop :=
  s.machine.totalTaskCount + op.given.toList.length < 2 ^ 31

end Session

end BlackBull
