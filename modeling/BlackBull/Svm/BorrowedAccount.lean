import BlackBull.Svm.TransactionContext

/-!
# Borrowed instruction accounts

`transaction-context/src/instruction_accounts.rs`: the operations by which programs change accounts.
-/

namespace BlackBull.Svm

structure BorrowedInstructionAccount where
  instructionAccount : InstructionAccount
  indexInTransactionOfInstructionProgram : ℕ
  deriving DecidableEq, Repr

def isZeroed (buf : List UInt8) : Bool :=
  if buf.length < 1024 then buf == List.replicate buf.length 0
  else buf.take 1024 == List.replicate 1024 0 && isZeroed (buf.drop 1024)
termination_by buf.length
decreasing_by
  rw [List.length_drop]
  omega

namespace BorrowedInstructionAccount

open TransactionContext

variable (b : BorrowedInstructionAccount)

def index : ℕ := b.instructionAccount.indexInTransaction

def isWritable : Bool := b.instructionAccount.isWritable

def account : ContextM TransactionAccount := do
  let s ← get
  match s.accounts.accounts[b.index]? with
  | none => throw .panic
  | some a => pure a

def setAccount (a : TransactionAccount) : ContextM Unit :=
  modify fun s => { s with accounts.accounts := s.accounts.accounts.set b.index a }

def touch : ContextM Unit := do
  let s ← get
  ensure (b.index < s.accounts.touchedFlags.length) .missingAccount
  set { s with accounts.touchedFlags := s.accounts.touchedFlags.set b.index true }

def addLamportsDelta (balance : ℤ) : ContextM Unit := do
  let s ← get
  let delta := s.accounts.lamportsDelta + balance
  ensure (-2 ^ 127 ≤ delta ∧ delta < 2 ^ 127) .arithmeticOverflow
  set { s with accounts.lamportsDelta := delta }

def updateAccountsResizeDelta (oldLen newLen : ℕ) : ContextM Unit :=
  modify fun s => { s with
    accounts.resizeDelta :=
      saturateI64 (s.accounts.resizeDelta + saturateI64 (asI64 newLen - asI64 oldLen)) }

def isOwnedByCurrentProgram (s : TransactionContext) (a : TransactionAccount) : Bool :=
  match s.getKeyOfAccountAtIndex b.indexInTransactionOfInstructionProgram with
  | .ok programKey => programKey = a.owner
  | .error _ => false

def canDataBeChanged (a : TransactionAccount) : ContextM Unit := do
  let s ← get
  ensure b.isWritable .readonlyDataModified
  ensure (b.isOwnedByCurrentProgram s a) .externalAccountDataModified

def canDataBeResized (a : TransactionAccount) (newLen : ℕ) : ContextM Unit := do
  let s ← get
  ensure (newLen = a.data.length ∨ b.isOwnedByCurrentProgram s a) .accountDataSizeChanged
  ofExcept (s.accounts.canDataBeResized a.data.length newLen)
  b.canDataBeChanged a

def setOwner (pubkey : List UInt8) : ContextM Unit := do
  let s ← get
  let a ← b.account
  ensure (b.isOwnedByCurrentProgram s a) .modifiedProgramId
  ensure b.isWritable .modifiedProgramId
  ensure (isZeroed a.data) .modifiedProgramId
  if a.owner.bytes = pubkey then pure ()
  else do
    b.touch
    -- `copy_from_slice` panics on another length
    if h : pubkey.length = 32 then b.setAccount { a with owner := ⟨pubkey, h⟩ } else throw .panic

def setLamports (lamports : UInt64) : ContextM Unit := do
  let s ← get
  let a ← b.account
  ensure (b.isOwnedByCurrentProgram s a ∨ a.lamports ≤ lamports) .externalAccountLamportSpend
  ensure b.isWritable .readonlyLamportChange
  if a.lamports = lamports then pure ()
  else do
    addLamportsDelta (lamports.toNat - a.lamports.toNat)
    b.touch
    b.setAccount { a with lamports }

def checkedAddLamports (lamports : UInt64) : ContextM Unit := do
  let a ← b.account
  ensure (a.lamports.toNat + lamports.toNat < 2 ^ 64) .arithmeticOverflow
  b.setLamports (a.lamports + lamports)

def checkedSubLamports (lamports : UInt64) : ContextM Unit := do
  let a ← b.account
  ensure (lamports ≤ a.lamports) .arithmeticOverflow
  b.setLamports (a.lamports - lamports)

/-- A write of a byte through the slice that `get_data_mut` gives; one beyond the slice panics. -/
def writeDataMut (offset : ℕ) (byte : UInt8) : ContextM Unit := do
  let a ← b.account
  b.canDataBeChanged a
  b.touch
  if offset < a.data.length then b.setAccount { a with data := a.data.set offset byte }
  else throw .panic

def setDataFromSlice (data : List UInt8) : ContextM Unit := do
  let a ← b.account
  b.canDataBeResized a data.length
  b.touch
  updateAccountsResizeDelta a.data.length data.length
  b.setAccount { a with data }

/-- Filled with zeros at the end, or cut off. -/
def setDataLength (newLength : ℕ) : ContextM Unit := do
  let a ← b.account
  b.canDataBeResized a newLength
  if a.data.length = newLength then pure ()
  else do
    b.touch
    updateAccountsResizeDelta a.data.length newLength
    b.setAccount
      { a with data := a.data.take newLength ++ List.replicate (newLength - a.data.length) 0 }

def extendFromSlice (data : List UInt8) : ContextM Unit := do
  let a ← b.account
  b.canDataBeResized a (min (2 ^ 64 - 1) (a.data.length + data.length))
  if data = [] then pure ()
  else do
    b.touch
    updateAccountsResizeDelta a.data.length (min (2 ^ 64 - 1) (a.data.length + data.length))
    b.setAccount { a with data := a.data ++ data }

def setExecutable (isExecutable : Bool) : ContextM Unit := do
  let s ← get
  let a ← b.account
  ensure (s.sdk.isExempt a.lamports a.data.length) .executableAccountNotRentExempt
  ensure (b.isOwnedByCurrentProgram s a) .executableModified
  ensure b.isWritable .executableModified
  if a.executable = isExecutable then pure ()
  else do
    b.touch
    b.setAccount { a with executable := isExecutable }

end BorrowedInstructionAccount

inductive AccountOp
  | setLamports (lamports : UInt64)
  | checkedAddLamports (lamports : UInt64)
  | checkedSubLamports (lamports : UInt64)
  | setOwner (pubkey : List UInt8)
  | writeDataMut (offset : ℕ) (byte : UInt8)
  | setDataFromSlice (data : List UInt8)
  | setDataLength (newLength : ℕ)
  | extendFromSlice (data : List UInt8)
  | setExecutable (isExecutable : Bool)

def BorrowedInstructionAccount.apply (b : BorrowedInstructionAccount) : AccountOp → ContextM Unit
  | .setLamports lamports => b.setLamports lamports
  | .checkedAddLamports lamports => b.checkedAddLamports lamports
  | .checkedSubLamports lamports => b.checkedSubLamports lamports
  | .setOwner pubkey => b.setOwner pubkey
  | .writeDataMut offset byte => b.writeDataMut offset byte
  | .setDataFromSlice data => b.setDataFromSlice data
  | .setDataLength newLength => b.setDataLength newLength
  | .extendFromSlice data => b.extendFromSlice data
  | .setExecutable isExecutable => b.setExecutable isExecutable

open TransactionContext in
def TransactionContext.tryBorrowInstructionAccount (indexInInstruction : ℕ) :
    ContextM BorrowedInstructionAccount := do
  let s ← get
  let c ← ofExcept s.getCurrentInstructionContext
  match c.instructionAccounts[indexInInstruction]? with
  | none => throw (.error .missingAccount)
  | some instructionAccount => do
    ofExcept (s.accounts.tryBorrowMut instructionAccount.indexInTransaction)
    set { s with
      accounts.borrowCounters :=
        s.accounts.borrowCounters.modify instructionAccount.indexInTransaction (· - 1) }
    pure ⟨instructionAccount, c.programAccountIndexInTx⟩

def BorrowedInstructionAccount.drop (b : BorrowedInstructionAccount) : ContextM Unit :=
  modify fun s => { s with
    accounts.borrowCounters := s.accounts.borrowCounters.modify b.index (· + 1) }

inductive ContextOp
  | configure (instructionIndex programIndex : ℕ) (instructionAccounts : List InstructionAccount)
    (deduplicationMap : List ℕ) (callerIndex : Option ℕ)
  | push
  | pop
  | borrow (indexInInstruction : ℕ)
  | drop (borrowed : ℕ)
  | mutate (borrowed : ℕ) (op : AccountOp)

/-- The context with the accounts that are borrowed. -/
structure ContextSession where
  context : TransactionContext
  borrowed : List BorrowedInstructionAccount

namespace ContextSession

/-- Go on after a command, also after a returned error. -/
def after {α : Type} (x : ContextM α) (s : ContextSession)
    (f : α → List BorrowedInstructionAccount → List BorrowedInstructionAccount) :
    Except ContextStop (ContextSession × List Empty) :=
  match x s.context with
  | .ok a context => .ok (⟨context, f a s.borrowed⟩, [])
  | .error (.error _) context => .ok ({ s with context }, [])
  | .error .panic _ => .error .panic

def step (s : ContextSession) : ContextOp → Except ContextStop (ContextSession × List Empty)
  | .configure instructionIndex programIndex instructionAccounts deduplicationMap callerIndex =>
    after (TransactionContext.configureInstructionAtIndex instructionIndex programIndex
      instructionAccounts deduplicationMap callerIndex) s fun _ borrowed => borrowed
  | .push => after TransactionContext.push s fun _ borrowed => borrowed
  | .pop => after TransactionContext.pop s fun _ borrowed => borrowed
  | .borrow indexInInstruction =>
    after (TransactionContext.tryBorrowInstructionAccount indexInInstruction) s
      fun b borrowed => borrowed ++ [b]
  | .drop k =>
    match s.borrowed[k]? with
    | none => .ok (s, [])
    | some b => after b.drop s fun _ borrowed => borrowed.eraseIdx k
  | .mutate k op =>
    match s.borrowed[k]? with
    | none => .ok (s, [])
    | some b => after (b.apply op) s fun _ borrowed => borrowed

end ContextSession

end BlackBull.Svm
