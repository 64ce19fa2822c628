import BlackBull.Lib.Hoare
import BlackBull.Lib.Run

/-!
# The transaction context

`transaction-context/src/transaction.rs`, `transaction_accounts.rs` and `instruction.rs`: the
accounts of a transaction with the two running counters, the instruction trace, and the stack of the
instructions that are being executed.
-/

namespace BlackBull.Svm

structure Pubkey where
  bytes : List UInt8
  length_eq : bytes.length = 32
  deriving DecidableEq

structure Hash where
  bytes : List UInt8
  length_eq : bytes.length = 32
  deriving DecidableEq

def instructionsId : Pubkey :=
  ⟨[6, 167, 213, 23, 24, 123, 209, 102, 53, 218, 212, 4, 85, 253, 194, 192, 193, 36, 198, 143, 33,
    86, 117, 165, 219, 186, 203, 95, 8, 0, 0, 0], rfl⟩

def sysvarId : Pubkey :=
  ⟨[6, 167, 213, 23, 24, 117, 247, 41, 199, 61, 147, 64, 143, 33, 97, 32, 6, 126, 216, 140, 118,
    224, 140, 40, 127, 193, 148, 96, 0, 0, 0, 0], rfl⟩

inductive InstructionError
  | missingAccount
  | accountBorrowFailed
  | accountBorrowOutstanding
  | arithmeticOverflow
  | modifiedProgramId
  | externalAccountLamportSpend
  | readonlyLamportChange
  | readonlyDataModified
  | externalAccountDataModified
  | accountDataSizeChanged
  | accountDataTooSmall
  | invalidRealloc
  | maxAccountsDataAllocationsExceeded
  | executableAccountNotRentExempt
  | executableModified
  | invalidAccountOwner
  | callDepth
  | unbalancedInstruction
  | maxInstructionTraceLengthExceeded
  | unsupportedProgramId
  | reentrancyNotAllowed
  | privilegeEscalation
  deriving DecidableEq, Repr

inductive ContextStop
  | error (e : InstructionError)
  | panic
  deriving DecidableEq, Repr

def maxAccountsPerTransaction : ℕ := 256

def maxAccountDataLen : ℕ := 10 * 1024 * 1024

def maxAccountDataGrowthPerTransaction : ℤ := maxAccountDataLen * 2

def u16Max : ℕ := 2 ^ 16 - 1

def asI64 (n : ℕ) : ℤ := if n % 2 ^ 64 < 2 ^ 63 then n % 2 ^ 64 else n % 2 ^ 64 - 2 ^ 64

def saturateI64 (x : ℤ) : ℤ := max (-2 ^ 63) (min (2 ^ 63 - 1) x)

structure TransactionAccount where
  key : Pubkey
  owner : Pubkey
  lamports : UInt64
  data : List UInt8
  executable : Bool
  deriving DecidableEq

/-- The accounts, the counter of the borrows of each (negative for a mutable one), whether it was
touched, and how the lengths of the data and the lamports have changed. -/
structure TransactionAccounts where
  accounts : List TransactionAccount
  borrowCounters : List ℤ
  touchedFlags : List Bool
  resizeDelta : ℤ
  lamportsDelta : ℤ

namespace TransactionAccounts

def new (accounts : List TransactionAccount) : TransactionAccounts where
  accounts := accounts
  borrowCounters := List.replicate accounts.length 0
  touchedFlags := List.replicate accounts.length false
  resizeDelta := 0
  lamportsDelta := 0

def canDataBeResized (t : TransactionAccounts) (oldLen newLen : ℕ) : Except InstructionError Unit :=
  if maxAccountDataLen < newLen then .error .invalidRealloc
  else if maxAccountDataGrowthPerTransaction
      < saturateI64 (t.resizeDelta + saturateI64 (asI64 newLen - asI64 oldLen)) then
    .error .maxAccountsDataAllocationsExceeded
  else .ok ()

def tryBorrowMut (t : TransactionAccounts) (index : ℕ) : Except InstructionError Unit :=
  match t.borrowCounters[index]? with
  | none => .error .missingAccount
  | some counter => if counter < 0 ∨ 0 < counter then .error .accountBorrowFailed else .ok ()

end TransactionAccounts

structure InstructionAccount where
  indexInTransaction : ℕ
  isSigner : Bool
  isWritable : Bool
  deriving DecidableEq, Repr

structure InstructionFrame where
  programAccountIndexInTx : ℕ := 0
  nestingLevel : ℕ := 0
  indexOfCallerInstruction : ℕ := u16Max
  deriving DecidableEq, Repr

/-- The functions of other crates: the rent of an account, and where the instructions sysvar has the
index of the current instruction, which does not change its size. -/
structure ContextSdk where
  isExempt : UInt64 → ℕ → Bool
  storeCurrentIndexChecked : List UInt8 → ℕ → Except InstructionError (List UInt8)
  length_stored : ∀ {data data' index}, storeCurrentIndexChecked data index = .ok data' →
    data'.length = data.length

structure TransactionContext where
  accounts : TransactionAccounts
  instructionStackCapacity : ℕ
  instructionTraceCapacity : ℕ
  instructionStack : List ℕ
  instructionTrace : List InstructionFrame
  numberOfCpisInTrace : ℕ
  nextTopLevelInstructionIndex : ℕ
  sdk : ContextSdk
  deduplicationMaps : List (List ℕ)
  instructionAccounts : List (List InstructionAccount)

structure InstructionContext where
  indexInTrace : ℕ
  nestingLevel : ℕ
  indexOfCallerInstruction : ℕ
  programAccountIndexInTx : ℕ
  instructionAccounts : List InstructionAccount
  dedupMap : List ℕ
  deriving DecidableEq, Repr

abbrev ContextM := EStateM ContextStop TransactionContext

namespace InstructionContext

def getIndexOfProgramAccountInTransaction (c : InstructionContext) : Except InstructionError ℕ :=
  if c.programAccountIndexInTx = u16Max then .error .missingAccount
  else .ok c.programAccountIndexInTx

def getIndexOfAccountInInstruction (c : InstructionContext) (indexInTransaction : ℕ) :
    Except InstructionError ℕ :=
  match c.dedupMap[indexInTransaction]? with
  | none => .error .missingAccount
  | some index => if c.instructionAccounts.length ≤ index then .error .missingAccount else .ok index

end InstructionContext

namespace TransactionContext

def new (accounts : List TransactionAccount) (sdk : ContextSdk)
    (instructionStackCapacity instructionTraceCapacity numberOfTopLevelInstructions : ℕ) :
    TransactionContext where
  accounts := .new accounts
  instructionStackCapacity := instructionStackCapacity
  instructionTraceCapacity := instructionTraceCapacity
  instructionStack := []
  -- the last frame is the placeholder of the next instruction
  instructionTrace := List.replicate (numberOfTopLevelInstructions + 1) {}
  numberOfCpisInTrace := 0
  nextTopLevelInstructionIndex := 0
  sdk := sdk
  deduplicationMaps := []
  instructionAccounts := []

variable (s : TransactionContext)

def getKeyOfAccountAtIndex (index : ℕ) : Except InstructionError Pubkey :=
  match s.accounts.accounts[index]? with
  | none => .error .missingAccount
  | some a => .ok a.key

def findIndexOfAccount (pubkey : Pubkey) : Option ℕ :=
  (s.accounts.accounts.findIdx? (·.key = pubkey)).map (· % 2 ^ 16)

def getInstructionTraceLength : ℕ := s.instructionTrace.length - 1

def getInstructionContextAtIndexInTrace (index : ℕ) : Except InstructionError InstructionContext :=
  match s.instructionTrace[index]? with
  | none => .error .callDepth
  | some frame => .ok {
      indexInTrace := index
      nestingLevel := frame.nestingLevel
      indexOfCallerInstruction := frame.indexOfCallerInstruction
      programAccountIndexInTx := frame.programAccountIndexInTx
      -- an instruction that is not configured yet has no accounts
      instructionAccounts := (s.instructionAccounts[index]?).getD []
      dedupMap := (s.deduplicationMaps[index]?).getD [] }

def getInstructionContextAtNestingLevel (level : ℕ) : Except InstructionError InstructionContext :=
  match s.instructionStack[level]? with
  | none => .error .callDepth
  | some index => s.getInstructionContextAtIndexInTrace index

def getCurrentInstructionIndex : Except InstructionError ℕ :=
  match s.instructionStack.getLast? with
  | none => .error .callDepth
  | some index => .ok index

def getCurrentInstructionContext : Except InstructionError InstructionContext :=
  s.getCurrentInstructionIndex >>= s.getInstructionContextAtIndexInTrace

def getNextInstructionContext : Except InstructionError InstructionContext :=
  if s.instructionStack = [] then
    s.getInstructionContextAtIndexInTrace s.nextTopLevelInstructionIndex
  else if s.instructionTrace = [] then .error .callDepth
  else s.getInstructionContextAtIndexInTrace (s.instructionTrace.length - 1)

def getProgramKey (c : InstructionContext) : Except InstructionError Pubkey :=
  c.getIndexOfProgramAccountInTransaction >>= s.getKeyOfAccountAtIndex

def numberOfCalledInstructionsInTrace : ℕ :=
  s.nextTopLevelInstructionIndex + s.numberOfCpisInTrace

def ofExcept {α : Type} : Except InstructionError α → ContextM α
  | .ok a => pure a
  | .error e => throw (.error e)

def ensure (c : Prop) [Decidable c] (e : InstructionError) : ContextM Unit :=
  if c then pure () else throw (.error e)

def configureInstructionAtIndex (instructionIndex programIndex : ℕ)
    (instructionAccounts : List InstructionAccount) (deduplicationMap : List ℕ)
    (callerIndex : Option ℕ) : ContextM Unit := do
  let s ← get
  ensure (instructionIndex < s.instructionTrace.length) .maxInstructionTraceLengthExceeded
  modify fun s => { s with
    instructionTrace := s.instructionTrace.modify instructionIndex fun frame =>
      { frame with
        programAccountIndexInTx := programIndex
        indexOfCallerInstruction := callerIndex.getD frame.indexOfCallerInstruction }
    deduplicationMaps := s.deduplicationMaps ++ [deduplicationMap]
    instructionAccounts := s.instructionAccounts ++ [instructionAccounts] }

def takeNextIndex : ContextM (ℕ × ℕ) := do
  let s ← get
  if s.instructionStack = [] then do
    set { s with nextTopLevelInstructionIndex := s.nextTopLevelInstructionIndex + 1 }
    pure (s.nextTopLevelInstructionIndex, s.nextTopLevelInstructionIndex)
  else do
    set { s with
      numberOfCpisInTrace := min u16Max (s.numberOfCpisInTrace + 1)
      instructionTrace := s.instructionTrace ++ [({} : InstructionFrame)] }
    pure (s.getInstructionTraceLength, s.nextTopLevelInstructionIndex - 1)

/-- Keep the index of the current top-level instruction in the instructions sysvar, if the
transaction has it. -/
def storeCurrentIndex (currentTopLevelInstruction : ℕ) : ContextM Unit := do
  let s ← get
  match s.findIndexOfAccount instructionsId with
  | none => pure ()
  | some index => do
    ofExcept (s.accounts.tryBorrowMut index)
    match s.accounts.accounts[index]? with
    | none => throw .panic
    | some account => do
      ensure (account.owner = sysvarId) .invalidAccountOwner
      let data ←
        ofExcept (s.sdk.storeCurrentIndexChecked account.data (currentTopLevelInstruction % 2 ^ 16))
      modify fun s =>
        { s with accounts.accounts := s.accounts.accounts.set index { account with data } }

def push : ContextM Unit := do
  let s ← get
  let nestingLevel := s.instructionStack.length
  ensure (s.instructionStack = [] ∨ s.accounts.lamportsDelta = 0) .unbalancedInstruction
  ensure (s.instructionTrace ≠ []) .callDepth
  modify fun s => { s with
    instructionTrace := s.instructionTrace.modify (s.instructionTrace.length - 1) fun frame =>
      { frame with nestingLevel := nestingLevel % 2 ^ 16 } }
  ensure (s.numberOfCalledInstructionsInTrace < s.instructionTraceCapacity)
    .maxInstructionTraceLengthExceeded
  let (indexInTrace, currentTopLevelInstruction) ← takeNextIndex
  ensure (nestingLevel < s.instructionStackCapacity) .callDepth
  modify fun s => { s with instructionStack := s.instructionStack ++ [indexInTrace] }
  storeCurrentIndex currentTopLevelInstruction

/-- Whether the current instruction leaves the lamports as they were. No reference to its program
account may be outstanding. -/
def detectUnbalancedInstruction : Except InstructionError Bool := do
  let c ← s.getCurrentInstructionContext
  let program ← c.getIndexOfProgramAccountInTransaction
  match s.accounts.tryBorrowMut program with
  | .ok () => .ok (s.accounts.lamportsDelta ≠ 0)
  | .error .accountBorrowFailed => .error .accountBorrowOutstanding
  | .error e => .error e

def pop : ContextM Unit := do
  let s ← get
  ensure (s.instructionStack ≠ []) .callDepth
  modify fun s => { s with instructionStack := s.instructionStack.dropLast }
  let unbalanced ← ofExcept s.detectUnbalancedInstruction
  ensure (unbalanced = false) .unbalancedInstruction

end TransactionContext

end BlackBull.Svm
