import BlackBull.Scheduler.StateMachine

/-!
# A machine with priorities as one without

A queue with `FifoQueueing` knows how many read, and not who uses the address.
-/

namespace BlackBull

structure Relabels (φ : Task → Task) : Prop where
  ref : ∀ t, (φ t).ref = t.ref
  hash : ∀ t, (φ t).hash = t.hash
  lockContexts : ∀ t, (φ t).lockContexts = t.lockContexts

variable (φ : Task → Task)

def PriorityUsage.toFifo : PriorityUsage → FifoUsage
  | .readonly tasks => .readonly tasks.entries.length
  | .writable _ => .writable ()

def UsageQueueInner.toFifo : UsageQueueInner → UsageQueueInner
  | .fifo currentUsage blocked => .fifo currentUsage blocked
  | .priority currentUsage blocked =>
    .fifo (currentUsage.map PriorityUsage.toFifo) (blocked.values.map fun w => (w.1, φ w.2))

def SchedulingStateMachine.toFifo (m : SchedulingStateMachine) : SchedulingStateMachine :=
  { m with
    unblockedTaskQueue := m.unblockedTaskQueue.map φ
    usageQueueToken := fun a => (m.usageQueueToken a).toFifo φ }

def Session.toFifo (s : Session) : Session where
  capability := .fifoQueueing
  machine := s.machine.toFifo φ
  active := s.active.map φ
  running := s.running.map φ

def SchedulerOp.relabel : SchedulerOp → SchedulerOp
  | .scheduleOrBufferTask task forceBuffering => .scheduleOrBufferTask (φ task) forceBuffering
  | .bufferTask task => .bufferTask (φ task)
  | .descheduleTask task => .descheduleTask (φ task)
  | op => op

def Reply.relabel (r : Reply) : Reply :=
  { r with accepted := r.accepted.map φ, handedOut := r.handedOut.map φ }

end BlackBull
