import BlackBull.Svm.TransactionContext

/-!
# Invocations

`program-runtime/src/invoke_context.rs`: the instructions of a message and those that programs call
are configured with their accounts, where repeated accounts get the same flags, and entered and
left.
-/

namespace BlackBull.Svm

open TransactionContext

structure AccountMeta where
  pubkey : Pubkey
  isSigner : Bool
  isWritable : Bool

structure Instruction where
  programId : Pubkey
  accounts : List AccountMeta

structure CompiledInstruction where
  programIdIndex : UInt8
  accounts : List UInt8

structure SvmMessage where
  instructions : List CompiledInstruction
  isSigner : ℕ → Bool
  isWritable : ℕ → Bool

/-- The deduplication map with the accounts of an instruction so far. -/
abbrev CalleeAccounts := List ℕ × List InstructionAccount

def emptyCallee : CalleeAccounts := (List.replicate maxAccountsPerTransaction u16Max, [])

def InstructionAccount.merge (e : InstructionAccount) (isSigner isWritable : Bool) :
    InstructionAccount :=
  { e with isSigner := e.isSigner || isSigner, isWritable := e.isWritable || isWritable }

def addCalleeAccount (s : TransactionContext) (callee : CalleeAccounts)
    (accountMeta : AccountMeta) : Except ContextStop CalleeAccounts :=
  match s.findIndexOfAccount accountMeta.pubkey with
  | none => .error (.error .missingAccount)
  | some indexInTransaction =>
    match callee.1[indexInTransaction]? with
    | none => .error .panic
    | some indexInCallee =>
      match callee.2[indexInCallee]? with
      | some first =>
        let merged := first.merge accountMeta.isSigner accountMeta.isWritable
        .ok (callee.1, callee.2.set indexInCallee merged ++ [merged])
      | none =>
        .ok (callee.1.set indexInTransaction (callee.2.length % 2 ^ 16),
          callee.2 ++ [⟨indexInTransaction, accountMeta.isSigner, accountMeta.isWritable⟩])

def copyFlags (accounts : List InstructionAccount) (currentIndex : ℕ) (account : InstructionAccount)
    (indexInCallee : ℕ) : Except ContextStop (List InstructionAccount) :=
  match accounts[indexInCallee]? with
  | none => .error (.error .missingAccount)
  | some reference =>
    .ok (accounts.set currentIndex (account.merge reference.isSigner reference.isWritable))

/-- Whether the caller, or the signers it gives, let the callee have the flags of an account. -/
def checkPrivileges (caller : InstructionContext) (signers : List Pubkey)
    (account : InstructionAccount) (accountKey : Pubkey) : Except ContextStop Unit :=
  match caller.getIndexOfAccountInInstruction account.indexInTransaction with
  | .error e => .error (.error e)
  | .ok indexInCaller =>
    match caller.instructionAccounts[indexInCaller]? with
    | none => .error .panic
    | some callerAccount =>
      if account.isWritable ∧ ¬ callerAccount.isWritable then .error (.error .privilegeEscalation)
      else if account.isSigner ∧ ¬ (callerAccount.isSigner ∨ accountKey ∈ signers) then
        .error (.error .privilegeEscalation)
      else .ok ()

def finishCalleeAccount (caller : InstructionContext) (signers : List Pubkey)
    (metas : List AccountMeta) (dedupMap : List ℕ) (accounts : List InstructionAccount)
    (currentIndex : ℕ) : Except ContextStop (List InstructionAccount) :=
  match accounts[currentIndex]?, metas[currentIndex]? with
  | some account, some accountMeta =>
    match dedupMap[account.indexInTransaction]? with
    | none => .error .panic
    | some indexInCallee =>
      if currentIndex ≠ indexInCallee then
        copyFlags accounts currentIndex account indexInCallee
      else do
        checkPrivileges caller signers account accountMeta.pubkey
        .ok accounts
  | _, _ => .error .panic

def calleeAccounts (s : TransactionContext) (caller : InstructionContext) (signers : List Pubkey)
    (metas : List AccountMeta) : Except ContextStop CalleeAccounts := do
  let callee ← metas.foldlM (addCalleeAccount s) emptyCallee
  let accounts ← (List.range callee.2.length).foldlM
    (finishCalleeAccount caller signers metas callee.1) callee.2
  .ok (callee.1, accounts)

/-- The program that is called must be an account of the caller's instruction. -/
def findProgram (s : TransactionContext) (caller : InstructionContext) (programId : Pubkey) :
    Except ContextStop ℕ :=
  match s.findIndexOfAccount programId with
  | none => .error (.error .missingAccount)
  | some index =>
    match caller.getIndexOfAccountInInstruction index with
    | .error _ => .error (.error .missingAccount)
    | .ok _ => .ok index

def ofStop {α : Type} : Except ContextStop α → ContextM α
  | .ok a => pure a
  | .error e => throw e

def prepareNextCpiInstruction (instruction : Instruction) (signers : List Pubkey) :
    ContextM Unit := do
  let s ← get
  let caller ← ofExcept s.getCurrentInstructionContext
  let callee ← ofStop (calleeAccounts s caller signers instruction.accounts)
  let program ← ofStop (findProgram s caller instruction.programId)
  let callerIndex ← ofExcept s.getCurrentInstructionIndex
  configureInstructionAtIndex s.getInstructionTraceLength program callee.2 callee.1
    (some (callerIndex % 2 ^ 16))

def addTopLevelAccount (message : SvmMessage) (callee : CalleeAccounts) (index : UInt8) :
    Except ContextStop CalleeAccounts :=
  match callee.1[index.toNat]? with
  | none => .error .panic
  | some indexInCallee =>
    .ok (if callee.2.length < indexInCallee then callee.1.set index.toNat (callee.2.length % 2 ^ 16)
        else callee.1,
      callee.2 ++ [⟨index.toNat, message.isSigner index.toNat, message.isWritable index.toNat⟩])

def prepareTopLevelInstruction (message : SvmMessage) (instruction : CompiledInstruction × ℕ) :
    ContextM Unit := do
  let callee ← ofStop (instruction.1.accounts.foldlM (addTopLevelAccount message) emptyCallee)
  configureInstructionAtIndex instruction.2 instruction.1.programIdIndex.toNat callee.2 callee.1
    none

def prepareTopLevelInstructions (message : SvmMessage) : ContextM Unit :=
  message.instructions.zipIdx.forM (prepareTopLevelInstruction message)

def runsProgram (s : TransactionContext) (programId : Pubkey)
    (c : Except InstructionError InstructionContext) : Bool :=
  match c >>= s.getProgramKey with
  | .ok programKey => programKey = programId
  | .error _ => false

/-- Push a stack frame; a program may only be entered again by itself. -/
def invokePush : ContextM Unit := do
  let s ← get
  let next ← ofExcept s.getNextInstructionContext
  match s.getProgramKey next with
  | .error _ => throw (.error .unsupportedProgramId)
  | .ok programId => do
    ensure (s.instructionStack = []
      ∨ (List.range s.instructionStack.length).any (fun level =>
          runsProgram s programId (s.getInstructionContextAtNestingLevel level)) = false
      ∨ runsProgram s programId s.getCurrentInstructionContext = true) .reentrancyNotAllowed
    push

inductive InvokeOp
  | prepare (instruction : Instruction) (signers : List Pubkey)
  | push
  | pop

/-- The context, and for every configured instruction by which one it was called and with which
signers; whether an instruction is prepared that is to be entered next. -/
structure InvokeSession where
  context : TransactionContext
  callers : List (Option (ℕ × List Pubkey))
  prepared : Bool

namespace InvokeSession

def execute {α : Type} (x : ContextM α) (s : TransactionContext) :
    Except ContextStop TransactionContext :=
  match x s with
  | .ok _ s' => .ok s'
  | .error e _ => .error e

def start (accounts : List TransactionAccount) (sdk : ContextSdk)
    (stackCapacity traceCapacity : ℕ) (message : SvmMessage) :
    Except ContextStop InvokeSession := do
  let context ← execute (prepareTopLevelInstructions message)
    (.new accounts sdk stackCapacity traceCapacity message.instructions.length)
  .ok ⟨context, List.replicate message.instructions.length none, false⟩

def step (s : InvokeSession) : InvokeOp → Except ContextStop (InvokeSession × List Empty)
  | .prepare instruction signers => do
    let context ← execute (prepareNextCpiInstruction instruction signers) s.context
    let caller := (s.context.instructionStack.getLast?).map fun i => (i, signers)
    .ok (⟨context, s.callers ++ [caller], true⟩, [])
  | .push => do
    let context ← execute invokePush s.context
    .ok (⟨context, s.callers, false⟩, [])
  | .pop => do
    let context ← execute pop s.context
    .ok (⟨context, s.callers, false⟩, [])

end InvokeSession

end BlackBull.Svm
