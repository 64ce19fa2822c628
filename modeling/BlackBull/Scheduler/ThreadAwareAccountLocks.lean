import BlackBull.Lib.Run

/-!
# Thread-aware account locks

`scheduling-utils/src/thread_aware_account_locks.rs`: an account may be locked by many transactions
as long as they run on one thread, or only read it.
-/

namespace BlackBull

def maxThreads : ℕ := 64

abbrev ThreadSet := BitVec 64

namespace ThreadSet

def asFlag (threadId : ℕ) : ThreadSet := 1#64 <<< threadId

def none : ThreadSet := 0#64

def any (numThreads : ℕ) : ThreadSet :=
  if numThreads = maxThreads then BitVec.allOnes 64 else asFlag numThreads - 1#64

def only (threadId : ℕ) : ThreadSet := asFlag threadId

def ones (s : ThreadSet) : List ℕ := (List.range 64).filter (s.getLsbD ·)

def numThreads (s : ThreadSet) : ℕ := s.ones.length

/-- The position of the only one, which is the number of trailing zeros. -/
def onlyOneContained (s : ThreadSet) : Option ℕ :=
  if s.numThreads = 1 then s.ones.head? else Option.none

def contains (s : ThreadSet) (threadId : ℕ) : Bool := s &&& asFlag threadId ≠ 0#64

def insert (s : ThreadSet) (threadId : ℕ) : ThreadSet := s ||| asFlag threadId

def remove (s : ThreadSet) (threadId : ℕ) : ThreadSet := s &&& ~~~ asFlag threadId

end ThreadSet

structure AccountWriteLocks where
  threadId : ℕ
  lockCount : ℕ
  deriving DecidableEq, Repr

structure AccountReadLocks where
  threadSet : ThreadSet
  lockCounts : ℕ → ℕ

structure AccountLocks where
  writeLocks : Option AccountWriteLocks := none
  readLocks : Option AccountReadLocks := none

inductive TryLockError
  | multipleConflicts
  | threadNotAllowed
  deriving DecidableEq, Repr

inductive LockPanic
  | numThreads
  | threadId
  | readOnOtherThread
  | writeOnOtherThread
  | noWriteLock
  | noReadLock
  | emptyEntry
  deriving DecidableEq, Repr

def lockCountUp (count : ℕ) : ℕ := (count + 1) % 2 ^ 32

def lockCountDown (count : ℕ) : ℕ := (count + (2 ^ 32 - 1)) % 2 ^ 32

structure ThreadAwareAccountLocks (κ : Type) where
  numThreads : ℕ
  locks : κ → Option AccountLocks

namespace AccountLocks

def schedulableThreads (numThreads : ℕ) (write : Bool) :
    Option AccountLocks → Except LockPanic ThreadSet
  | none => .ok (ThreadSet.any numThreads)
  | some ⟨none, some readLocks⟩ =>
    if write then
      .ok ((readLocks.threadSet.onlyOneContained.map ThreadSet.only).getD ThreadSet.none)
    else .ok (ThreadSet.any numThreads)
  | some ⟨some writeLocks, none⟩ => .ok (ThreadSet.only writeLocks.threadId)
  | some ⟨some writeLocks, some readLocks⟩ =>
    if readLocks.threadSet.onlyOneContained = some writeLocks.threadId then
      .ok readLocks.threadSet
    else .error .readOnOtherThread
  | some ⟨none, none⟩ => .error .emptyEntry

def writeLock (entry : Option AccountLocks) (threadId : ℕ) :
    Except LockPanic (Option AccountLocks) :=
  let ⟨writeLocks, readLocks⟩ := entry.getD {}
  if readLocks.any (·.threadSet.onlyOneContained ≠ some threadId) then .error .readOnOtherThread
  else
    match writeLocks with
    | some writeLocks =>
      if writeLocks.threadId ≠ threadId then .error .writeOnOtherThread
      else .ok (some ⟨some ⟨threadId, lockCountUp writeLocks.lockCount⟩, readLocks⟩)
    | none => .ok (some ⟨some ⟨threadId, 1⟩, readLocks⟩)

def writeUnlock (entry : Option AccountLocks) (threadId : ℕ) :
    Except LockPanic (Option AccountLocks) :=
  match entry with
  | none | some ⟨none, _⟩ => .error .noWriteLock
  | some ⟨some writeLocks, readLocks⟩ =>
    if writeLocks.threadId ≠ threadId then .error .writeOnOtherThread
    else
      let count := lockCountDown writeLocks.lockCount
      if count = 0 then
        .ok (if readLocks.isNone then none else some ⟨none, readLocks⟩)
      else .ok (some ⟨some ⟨threadId, count⟩, readLocks⟩)

def readLock (entry : Option AccountLocks) (threadId : ℕ) :
    Except LockPanic (Option AccountLocks) :=
  let ⟨writeLocks, readLocks⟩ := entry.getD {}
  if writeLocks.any (·.threadId ≠ threadId) then .error .writeOnOtherThread
  else
    match readLocks with
    | some ⟨threadSet, lockCounts⟩ =>
      .ok (some ⟨writeLocks, some ⟨threadSet.insert threadId,
        Function.update lockCounts threadId (lockCountUp (lockCounts threadId))⟩⟩)
    | none => .ok (some ⟨writeLocks, some ⟨ThreadSet.only threadId,
        Function.update (fun _ => 0) threadId 1⟩⟩)

def readUnlock (entry : Option AccountLocks) (threadId : ℕ) :
    Except LockPanic (Option AccountLocks) :=
  match entry with
  | none | some ⟨_, none⟩ => .error .noReadLock
  | some ⟨writeLocks, some ⟨threadSet, lockCounts⟩⟩ =>
    if ¬ threadSet.contains threadId then .error .readOnOtherThread
    else
      let count := lockCountDown (lockCounts threadId)
      let lockCounts := Function.update lockCounts threadId count
      if count = 0 then
        let threadSet := threadSet.remove threadId
        if threadSet = ThreadSet.none then
          .ok (if writeLocks.isNone then none else some ⟨writeLocks, none⟩)
        else .ok (some ⟨writeLocks, some ⟨threadSet, lockCounts⟩⟩)
      else .ok (some ⟨writeLocks, some ⟨threadSet, lockCounts⟩⟩)

end AccountLocks

namespace ThreadAwareAccountLocks

variable {κ : Type} [DecidableEq κ]

def new (numThreads : ℕ) : Except LockPanic (ThreadAwareAccountLocks κ) :=
  if 0 < numThreads ∧ numThreads ≤ maxThreads then .ok ⟨numThreads, fun _ => none⟩
  else .error .numThreads

def update (f : Option AccountLocks → ℕ → Except LockPanic (Option AccountLocks))
    (threadId : ℕ) (s : ThreadAwareAccountLocks κ) (account : κ) :
    Except LockPanic (ThreadAwareAccountLocks κ) := do
  let entry ← f (s.locks account) threadId
  .ok { s with locks := Function.update s.locks account entry }

def writeLockAccount (threadId : ℕ) (s : ThreadAwareAccountLocks κ) (account : κ) :=
  s.update AccountLocks.writeLock threadId account

def writeUnlockAccount (threadId : ℕ) (s : ThreadAwareAccountLocks κ) (account : κ) :=
  s.update AccountLocks.writeUnlock threadId account

def readLockAccount (threadId : ℕ) (s : ThreadAwareAccountLocks κ) (account : κ) :=
  s.update AccountLocks.readLock threadId account

def readUnlockAccount (threadId : ℕ) (s : ThreadAwareAccountLocks κ) (account : κ) :=
  s.update AccountLocks.readUnlock threadId account

variable (s : ThreadAwareAccountLocks κ)

def lockAccounts (writes reads : List κ) (threadId : ℕ) :
    Except LockPanic (ThreadAwareAccountLocks κ) :=
  if s.numThreads ≤ threadId then .error .threadId
  else do
    let s ← writes.foldlM (writeLockAccount threadId) s
    reads.foldlM (readLockAccount threadId) s

def unlockAccounts (writes reads : List κ) (threadId : ℕ) :
    Except LockPanic (ThreadAwareAccountLocks κ) := do
  let s ← writes.foldlM (writeUnlockAccount threadId) s
  reads.foldlM (readUnlockAccount threadId) s

def narrow (s : ThreadAwareAccountLocks κ) (write : Bool) :
    ThreadSet → List κ → Except LockPanic (Option ThreadSet)
  | threads, [] => .ok (some threads)
  | threads, account :: accounts => do
    let schedulable ← AccountLocks.schedulableThreads s.numThreads write (s.locks account)
    if threads &&& schedulable = ThreadSet.none then .ok none
    else s.narrow write (threads &&& schedulable) accounts

def accountsSchedulableThreads (writes reads : List κ) : Except LockPanic (Option ThreadSet) := do
  match ← s.narrow true (ThreadSet.any s.numThreads) writes with
  | none => .ok none
  | some threads => s.narrow false threads reads

def tryLockAccounts (writes reads : List κ) (allowed : ThreadSet)
    (threadSelector : ThreadSet → ℕ) :
    Except LockPanic (ThreadAwareAccountLocks κ × Except TryLockError ℕ) := do
  match ← s.accountsSchedulableThreads writes reads with
  | none => .ok (s, .error .multipleConflicts)
  | some schedulable =>
    if schedulable &&& allowed = ThreadSet.none then .ok (s, .error .threadNotAllowed)
    else
      let threadId := threadSelector (schedulable &&& allowed)
      let s ← s.lockAccounts writes reads threadId
      .ok (s, .ok threadId)

end ThreadAwareAccountLocks

structure HeldLock (κ : Type) where
  writes : List κ
  reads : List κ
  threadId : ℕ

structure LockSession (κ : Type) where
  table : ThreadAwareAccountLocks κ
  held : List (HeldLock κ)

inductive LockCall (κ : Type)
  | tryLock (writes reads : List κ) (allowed : ThreadSet) (threadSelector : ThreadSet → ℕ)
  | unlock (index : ℕ)

namespace LockSession

variable {κ : Type} [DecidableEq κ]

def step (s : LockSession κ) :
    LockCall κ → Except LockPanic (LockSession κ × List (Except TryLockError ℕ))
  | .tryLock writes reads allowed threadSelector => do
    let (table, result) ← s.table.tryLockAccounts writes reads allowed threadSelector
    match result with
    | .ok threadId => .ok (⟨table, s.held ++ [⟨writes, reads, threadId⟩]⟩, [result])
    | .error _ => .ok (⟨table, s.held⟩, [result])
  | .unlock index =>
    match s.held[index]? with
    | none => .ok (s, [])
    | some lock => do
      let table ← s.table.unlockAccounts lock.writes lock.reads lock.threadId
      .ok (⟨table, s.held.eraseIdx index⟩, [])

end LockSession

end BlackBull
