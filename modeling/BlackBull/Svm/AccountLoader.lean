import BlackBull.Svm.TransactionContext

/-!
# Loading the accounts of a transaction

`svm/src/account_loader.rs` and `rollback_accounts.rs`: the account cache of a batch in front of the
accounts of the bank, and the loading of a transaction whose fee payer has been validated.
-/

namespace BlackBull.Svm

def bpfLoaderUpgradeableId : Pubkey :=
  ⟨[2, 168, 246, 145, 78, 136, 161, 176, 226, 16, 21, 62, 247, 99, 174, 43, 0, 194, 185, 61, 22,
    193, 36, 210, 192, 83, 122, 16, 4, 128, 0, 0], rfl⟩

def bpfLoaderId : Pubkey :=
  ⟨[2, 168, 246, 145, 78, 136, 161, 110, 57, 90, 225, 40, 148, 143, 250, 105, 86, 147, 55, 104, 24,
    221, 71, 67, 82, 33, 243, 198, 0, 0, 0, 0], rfl⟩

def bpfLoaderDeprecatedId : Pubkey :=
  ⟨[2, 168, 246, 145, 78, 136, 161, 107, 189, 35, 149, 133, 95, 100, 4, 217, 180, 244, 86, 183, 130,
    27, 176, 20, 87, 73, 66, 140, 0, 0, 0, 0], rfl⟩

def loaderV4Id : Pubkey :=
  ⟨[5, 18, 180, 17, 81, 81, 227, 122, 173, 10, 139, 197, 211, 136, 46, 123, 127, 218, 76, 243, 210,
    192, 40, 200, 207, 131, 54, 24, 0, 0, 0, 0], rfl⟩

def nativeLoaderId : Pubkey :=
  ⟨[5, 135, 132, 191, 20, 139, 164, 40, 47, 176, 18, 87, 72, 136, 169, 241, 83, 160, 125, 173, 247,
    101, 192, 69, 92, 154, 151, 3, 128, 0, 0, 0], rfl⟩

def incineratorId : Pubkey :=
  ⟨[0, 51, 144, 114, 141, 52, 17, 96, 121, 189, 201, 17, 191, 255, 0, 219, 212, 77, 46, 205, 204,
    247, 156, 166, 225, 0, 56, 225, 0, 0, 0, 0], rfl⟩

def slotHistoryId : Pubkey :=
  ⟨[6, 167, 213, 23, 25, 47, 10, 175, 200, 117, 226, 225, 132, 87, 124, 80, 105, 207, 200, 70, 73,
    227, 235, 146, 120, 47, 149, 141, 72, 0, 0, 0], rfl⟩

def programOwners : List Pubkey :=
  [bpfLoaderUpgradeableId, bpfLoaderId, bpfLoaderDeprecatedId, loaderV4Id]

def transactionAccountBaseSize : ℕ := 64

def addressLookupTableBaseSize : ℕ := 8248

def rentExemptRentEpoch : UInt64 := 2 ^ 64 - 1

def u32Max : ℕ := 2 ^ 32 - 1

def saturateUsize (n : ℕ) : ℕ := min n (2 ^ 64 - 1)

def checkedSub (a b : UInt64) : Option UInt64 := if b ≤ a then some (a - b) else none

structure AccountSharedData where
  lamports : UInt64
  data : List UInt8
  owner : Pubkey
  executable : Bool
  rentEpoch : UInt64
  deriving DecidableEq

instance : Inhabited AccountSharedData := ⟨⟨0, [], ⟨List.replicate 32 0, rfl⟩, false, 0⟩⟩

abbrev KeyedAccountSharedData := Pubkey × AccountSharedData

/-- The errors that loading gives by name; the checks and the execution have others. -/
inductive TransactionError
  | accountNotFound
  | programAccountNotFound
  | invalidAccountForFee
  | insufficientFundsForFee
  | insufficientFundsForRent (accountIndex : UInt8)
  | blockhashNotFound
  | invalidProgramForExecution
  | maxLoadedAccountsDataSizeExceeded
  | programCacheHitMaxLimit
  | commitCancelled
  | unbalancedTransaction
  | other (code : ℕ)
  deriving DecidableEq, Repr

/-- An instruction of a message over `n` accounts: sanitizing has checked its indices. -/
structure MessageInstruction (n : ℕ) where
  programIdIndex : Fin n
  accounts : List (Fin n)
  data : List UInt8

structure SvmTransaction where
  accountKeys : List Pubkey
  keys_pos : 0 < accountKeys.length
  isWritable : ℕ → Bool
  isSigner : ℕ → Bool
  isInvoked : ℕ → Bool
  instructions : List (MessageInstruction accountKeys.length)
  recentBlockhash : Hash
  numLookupTables : ℕ

namespace SvmTransaction

def feePayer (tx : SvmTransaction) : Pubkey := tx.accountKeys.get ⟨0, tx.keys_pos⟩

def programId (tx : SvmTransaction) (ix : MessageInstruction tx.accountKeys.length) : Pubkey :=
  tx.accountKeys.get ix.programIdIndex

def isInstructionAccount (tx : SvmTransaction) (keyIndex : ℕ) : Bool :=
  decide (keyIndex < 2 ^ 8) && tx.instructions.any fun ix => ix.accounts.any (·.val = keyIndex)

def getIxSigners (tx : SvmTransaction) (index : ℕ) : List Pubkey :=
  match tx.instructions[index]? with
  | some ix => (ix.accounts.filter fun i => tx.isSigner i.val).map tx.accountKeys.get
  | none => []

end SvmTransaction

structure BorrowedAccountMeta where
  isSigner : Bool
  isWritable : Bool
  pubkey : Pubkey

structure BorrowedInstruction where
  programId : Pubkey
  accounts : List BorrowedAccountMeta
  data : List UInt8

structure Rent where
  isExempt : UInt64 → ℕ → Bool
  minimumBalance : ℕ → UInt64

inductive SystemAccountKind
  | system
  | nonce
  deriving DecidableEq

structure NonceData where
  authority : Pubkey
  durableNonce : Hash
  lamportsPerSignature : UInt64

structure TokenAccount where
  mint : Pubkey
  owner : Pubkey
  amount : UInt64

structure FeeDetails where
  transactionFee : UInt64
  prioritizationFee : UInt64
  deriving DecidableEq

/-- The functions of other crates. The sums of fees are exact where they fit 64 bits. -/
structure Sdk where
  getSystemAccountKind : AccountSharedData → Option SystemAccountKind
  /-- The nonce data of an initialized nonce account that stores the given durable nonce. -/
  verifyNonceAccount : AccountSharedData → Hash → Option NonceData
  durableNonce : Hash → Hash
  /-- The data of an account that parsed as a nonce account, with another state written to it. -/
  writeNonceState : List UInt8 → NonceData → List UInt8
  /-- The address in data that parses as `UpgradeableLoaderState::Program`. -/
  programdataAddress : List UInt8 → Option Pubkey
  constructInstructionsData : List BorrowedInstruction → List UInt8
  isKnownSplTokenId : Pubkey → Bool
  unpackTokenAccount : List UInt8 → Pubkey → Option TokenAccount
  unpackMint : List UInt8 → Pubkey → Option UInt8
  totalFee : FeeDetails → UInt64
  accumulate : FeeDetails → FeeDetails → FeeDetails
  toNat_totalFee : ∀ {f}, f.transactionFee.toNat + f.prioritizationFee.toNat < 2 ^ 64 →
    (totalFee f).toNat = f.transactionFee.toNat + f.prioritizationFee.toNat
  transactionFee_accumulate : ∀ {f g}, f.transactionFee.toNat + g.transactionFee.toNat < 2 ^ 64 →
    (accumulate f g).transactionFee.toNat = f.transactionFee.toNat + g.transactionFee.toNat
  prioritizationFee_accumulate : ∀ {f g},
    f.prioritizationFee.toNat + g.prioritizationFee.toNat < 2 ^ 64 →
    (accumulate f g).prioritizationFee.toNat
      = f.prioritizationFee.toNat + g.prioritizationFee.toNat

structure ExecutionBudget where
  computeUnitLimit : UInt64
  maxInstructionStackDepth : ℕ
  maxInstructionTraceLength : ℕ
  sha256MaxSlices : UInt64
  maxCallDepth : ℕ
  stackFrameSize : ℕ
  heapSize : UInt32
  deriving DecidableEq

/-- The accounts of the bank, each with the slot it was last modified in. -/
abbrev Accounts := Pubkey → Option (AccountSharedData × ℕ)

/-- An account with no lamports loads as absent. -/
def getAccountSharedData (accounts : Accounts) (key : Pubkey) : Option (AccountSharedData × ℕ) :=
  (accounts key).filter fun entry => entry.1.lamports ≠ 0

structure Inspection where
  key : Pubkey
  state : Option AccountSharedData
  isWritable : Bool

structure AccountLoader where
  loadedAccounts : Pubkey → Option (AccountSharedData × ℕ)
  callbacks : Pubkey → Option (AccountSharedData × ℕ)
  inspected : List Inspection
  defineLtdsFeeOnlySemantics : Bool

structure LoadedTransactionAccount where
  account : AccountSharedData
  loadedSize : ℕ
  deriving DecidableEq

/-- Captured account states, committed where the execution fails. -/
inductive RollbackAccounts
  | feePayerOnly (feePayer : KeyedAccountSharedData)
  | sameNonceAndFeePayer (nonce : KeyedAccountSharedData)
  | separateNonceAndFeePayer (nonce feePayer : KeyedAccountSharedData)
  deriving DecidableEq

structure NonceInfo where
  address : Pubkey
  account : AccountSharedData

namespace RollbackAccounts

def new (nonce : Option NonceInfo) (feePayerAddress : Pubkey) (feePayerAccount : AccountSharedData)
    (feePayerLoadedRentEpoch : UInt64) : RollbackAccounts :=
  match nonce with
  | some nonce =>
    if feePayerAddress = nonce.address then
      .sameNonceAndFeePayer
        (feePayerAddress, { feePayerAccount with data := nonce.account.data })
    else
      .separateNonceAndFeePayer (nonce.address, nonce.account) (feePayerAddress, feePayerAccount)
  | none =>
    .feePayerOnly (feePayerAddress, { feePayerAccount with rentEpoch := feePayerLoadedRentEpoch })

def iter : RollbackAccounts → List KeyedAccountSharedData
  | feePayerOnly feePayer => [feePayer]
  | sameNonceAndFeePayer nonce => [nonce]
  | separateNonceAndFeePayer nonce feePayer => [feePayer, nonce]

def dataSize (r : RollbackAccounts) : ℕ :=
  r.iter.foldl (fun total entry => saturateUsize (total + entry.2.data.length)) 0

end RollbackAccounts

namespace AccountLoader

/-- A loader for a batch. No override other than that of the slot history is expected. -/
def new (accountOverrides : Option (Pubkey → Option AccountSharedData)) (accounts : Accounts)
    (defineLtdsFeeOnlySemantics : Bool) : AccountLoader where
  loadedAccounts :=
    match accountOverrides.bind (· slotHistoryId) with
    | some slotHistory => Function.update (fun _ => none) slotHistoryId (some (slotHistory, 0))
    | none => fun _ => none
  callbacks := getAccountSharedData accounts
  inspected := []
  defineLtdsFeeOnlySemantics

def insert (l : AccountLoader) (key : Pubkey) (entry : AccountSharedData × ℕ) : AccountLoader :=
  { l with loadedAccounts := Function.update l.loadedAccounts key (some entry) }

/-- The account, and whether it was looked up in the bank. A cached account without lamports was
deallocated by an earlier transaction, or never existed. -/
def doLoad (l : AccountLoader) (key : Pubkey) : Option (AccountSharedData × ℕ) × Bool :=
  match l.loadedAccounts key with
  | some (account, slot) => (if account.lamports = 0 then none else some (account, slot), false)
  | none =>
    match l.callbacks key with
    | some (account, slot) => (some (account, slot), true)
    | none => (none, true)

def loadAccount (key : Pubkey) : StateM AccountLoader (Option AccountSharedData) := fun l =>
  match l.doLoad key with
  | (some (account, _), false) => (some account, l)
  | (none, false) => (none, l)
  | (some (account, lastModificationSlot), true) =>
    (some account, l.insert key (account, lastModificationSlot))
  | (none, true) => (none, l.insert key (default, 0))

def inspect (i : Inspection) : StateM AccountLoader Unit :=
  modify fun l => { l with inspected := l.inspected ++ [i] }

def loadTransactionAccount (key : Pubkey) (isWritable : Bool) :
    StateM AccountLoader (Option LoadedTransactionAccount) := do
  let account ← loadAccount key
  inspect { key, state := account, isWritable }
  pure <| account.map fun account =>
    { loadedSize := saturateUsize (transactionAccountBaseSize + account.data.length), account }

def updateAccountsForFailedTx (l : AccountLoader) (rollbackAccounts : RollbackAccounts)
    (currentSlot : ℕ) : AccountLoader :=
  rollbackAccounts.iter.foldl (fun l entry => l.insert entry.1 (entry.2, currentSlot)) l

def updateAccountsForSuccessfulTx (l : AccountLoader) (tx : SvmTransaction)
    (transactionAccounts : List KeyedAccountSharedData) (currentSlot : ℕ) : AccountLoader :=
  ((List.range tx.accountKeys.length).zip transactionAccounts).foldl (fun l entry =>
    if !tx.isWritable entry.1 then l
    else if tx.isInvoked entry.1 && !tx.isInstructionAccount entry.1 then l
    else l.insert entry.2.1 (entry.2.2, currentSlot)) l

end AccountLoader

def updateRentExemptStatusForAccount (rent : Rent) (account : AccountSharedData) :
    AccountSharedData :=
  if account.rentEpoch ≠ rentExemptRentEpoch ∧ rent.isExempt account.lamports account.data.length
  then { account with rentEpoch := rentExemptRentEpoch }
  else account

inductive RentState
  | uninitialized
  | rentPaying (lamports : UInt64) (dataSize : ℕ)
  | rentExempt

def getAccountRentState (rent : Rent) (accountLamports : UInt64) (accountSize : ℕ) : RentState :=
  if accountLamports = 0 then .uninitialized
  else if rent.isExempt accountLamports accountSize then .rentExempt
  else .rentPaying accountLamports accountSize

def transitionAllowed : RentState → RentState → Bool
  | _, .uninitialized => true
  | _, .rentExempt => true
  | .uninitialized, .rentPaying _ _ => false
  | .rentExempt, .rentPaying _ _ => false
  | .rentPaying preLamports preDataSize, .rentPaying postLamports postDataSize =>
    postDataSize == preDataSize && postLamports ≤ preLamports

def checkRentStateWithAccount (pre post : RentState) (address : Pubkey) (accountIndex : ℕ) :
    Except TransactionError Unit :=
  if address ≠ incineratorId ∧ ¬ transitionAllowed pre post then
    .error (.insufficientFundsForRent (.ofNat accountIndex))
  else .ok ()

def nonceStateSize : ℕ := 80

def validateFeePayer (sdk : Sdk) (payerAddress : Pubkey) (payerAccount : AccountSharedData)
    (payerIndex : ℕ) (rent : Rent) (fee : UInt64) : Except TransactionError AccountSharedData := do
  if payerAccount.lamports = 0 then throw .accountNotFound
  let kind ← (sdk.getSystemAccountKind payerAccount).elim (.error .invalidAccountForFee) .ok
  let minBalance :=
    match kind with
    | .system => 0
    | .nonce => rent.minimumBalance nonceStateSize
  let _ ← ((checkedSub payerAccount.lamports minBalance).bind (checkedSub · fee)).elim
    (.error .insufficientFundsForFee) .ok
  let preRentState :=
    getAccountRentState rent payerAccount.lamports payerAccount.data.length
  let lamports ← (checkedSub payerAccount.lamports fee).elim (.error .insufficientFundsForFee) .ok
  let postRentState := getAccountRentState rent lamports payerAccount.data.length
  checkRentStateWithAccount preRentState postRentState payerAddress payerIndex
  pure { payerAccount with lamports }

structure CheckedTransactionDetails where
  nonceAddress : Option Pubkey
  budget : ExecutionBudget
  loadedAccountsDataSizeLimit : ℕ
  feeDetails : FeeDetails

structure ValidatedTransactionDetails where
  rollbackAccounts : RollbackAccounts
  computeBudget : ExecutionBudget
  loadedAccountsBytesLimit : ℕ
  feeDetails : FeeDetails
  loadedFeePayerAccount : LoadedTransactionAccount

structure LoadedTransaction where
  accounts : List KeyedAccountSharedData
  feeDetails : FeeDetails
  rollbackAccounts : RollbackAccounts
  computeBudget : ExecutionBudget
  loadedAccountsDataSize : ℕ
  deriving DecidableEq

structure FeesOnlyTransaction where
  loadError : TransactionError
  rollbackAccounts : RollbackAccounts
  feeDetails : FeeDetails
  loadedAccountsDataSize : ℕ
  deriving DecidableEq

inductive TransactionLoadResult
  | loaded (tx : LoadedTransaction)
  | feesOnly (tx : FeesOnlyTransaction)
  | notLoaded (e : TransactionError)

/-- The cache, and what `load_transaction_accounts` has gathered so far. -/
structure LoadState where
  accountLoader : AccountLoader
  loadedAccountsDataSize : ℕ
  requestedLoadedAccountsDataSizeLimit : ℕ
  additionalLoadedAccounts : List Pubkey
  loadedTransactionAccounts : List KeyedAccountSharedData

abbrev LoadM := ExceptT TransactionError (StateM LoadState)

namespace LoadState

def withMaxSize (l : AccountLoader) (limit : ℕ) : LoadState := ⟨l, 0, limit, [], []⟩

def dataSize (s : LoadState) : ℕ :=
  min s.loadedAccountsDataSize s.requestedLoadedAccountsDataSizeLimit

def onLoader {α : Type} (x : StateM AccountLoader α) : LoadM α :=
  ExceptT.lift fun s => ((x s.accountLoader).1, { s with accountLoader := (x s.accountLoader).2 })

def increaseCalculatedDataSize (dataSizeDelta : ℕ) : LoadM Unit := do
  if u32Max < dataSizeDelta then
    modify fun s => { s with loadedAccountsDataSize := u32Max }
    throw .maxLoadedAccountsDataSizeExceeded
  else
    modify fun s =>
      { s with loadedAccountsDataSize := min (s.loadedAccountsDataSize + dataSizeDelta) u32Max }
    let exceeded ← (fun s : LoadState =>
      decide (s.requestedLoadedAccountsDataSizeLimit < s.loadedAccountsDataSize)) <$> get
    if exceeded then throw .maxLoadedAccountsDataSizeExceeded else pure ()

/-- Count an account of program data once for a transaction, if it exists. -/
def countProgramdata (accountKeys : List Pubkey) (programdataAddress : Pubkey) : LoadM Unit := do
  let additional ← LoadState.additionalLoadedAccounts <$> get
  if programdataAddress ∉ accountKeys ∧ programdataAddress ∉ additional then
    let programdataAccount ← onLoader (AccountLoader.loadAccount programdataAddress)
    match programdataAccount with
    | some account =>
      increaseCalculatedDataSize (saturateUsize (transactionAccountBaseSize + account.data.length))
      modify fun s => { s with
        additionalLoadedAccounts := programdataAddress :: s.additionalLoadedAccounts }
    | none => pure ()
  else pure ()

/-- Add a loaded account to those of the transaction. The data of a program of the upgradeable
loader counts with it. -/
def collectLoadedAccount (sdk : Sdk) (accountKeys : List Pubkey) (key : Pubkey)
    (loaded : LoadedTransactionAccount) : LoadM Unit := do
  increaseCalculatedDataSize loaded.loadedSize
  match if loaded.account.owner = bpfLoaderUpgradeableId then
      sdk.programdataAddress loaded.account.data else none with
  | some programdataAddress => countProgramdata accountKeys programdataAddress
  | none => pure ()
  modify fun s => { s with
    loadedTransactionAccounts := s.loadedTransactionAccounts ++ [(key, loaded.account)] }

def checkProgram (programId : Pubkey) : LoadM Unit := do
  let some programAccount ← onLoader (AccountLoader.loadAccount programId)
    | throw .programAccountNotFound
  if programAccount.owner ≠ nativeLoaderId ∧ programAccount.owner ∉ programOwners then
    throw .invalidProgramForExecution
  else pure ()

end LoadState

def constructInstructionsAccount (sdk : Sdk) (tx : SvmTransaction) : AccountSharedData :=
  let decompiledInstructions := tx.instructions.map fun ix =>
    { programId := tx.programId ix
      accounts := ix.accounts.map fun i =>
        ⟨tx.isSigner i.val, tx.isWritable i.val, tx.accountKeys.get i⟩
      data := ix.data : BorrowedInstruction }
  { (default : AccountSharedData) with
    data := sdk.constructInstructionsData decompiledInstructions
    owner := sysvarId }

def loadTransactionAccount (sdk : Sdk) (rent : Rent) (tx : SvmTransaction) (accountKey : Pubkey)
    (accountIndex : ℕ) : StateM AccountLoader LoadedTransactionAccount := do
  if accountKey = instructionsId then
    pure { account := constructInstructionsAccount sdk tx, loadedSize := 0 }
  else
    let loaded ← AccountLoader.loadTransactionAccount accountKey (tx.isWritable accountIndex)
    match loaded with
    | some loaded =>
      if tx.isWritable accountIndex then
        pure { loaded with account := updateRentExemptStatusForAccount rent loaded.account }
      else pure loaded
    | none =>
      pure { account := { (default : AccountSharedData) with rentEpoch := rentExemptRentEpoch }
             loadedSize := 0 }

open LoadState in
def loadTransactionAccounts (sdk : Sdk) (rent : Rent) (tx : SvmTransaction)
    (loadedFeePayerAccount : LoadedTransactionAccount) : LoadM (List KeyedAccountSharedData) := do
  increaseCalculatedDataSize (saturateUsize (tx.numLookupTables * addressLookupTableBaseSize))
  collectLoadedAccount sdk tx.accountKeys tx.feePayer loadedFeePayerAccount
  (tx.accountKeys.zipIdx.drop 1).forM fun key => do
    let loadedAccount ← onLoader (loadTransactionAccount sdk rent tx key.1 key.2)
    collectLoadedAccount sdk tx.accountKeys key.1 loadedAccount
  tx.instructions.forM fun ix => checkProgram (tx.programId ix)
  loadedTransactionAccounts <$> get

def LoadState.loadResult (details : ValidatedTransactionDetails)
    (accounts : Except TransactionError (List KeyedAccountSharedData)) (s : LoadState) :
    TransactionLoadResult :=
  match accounts with
  | .ok accounts => .loaded
      { accounts, feeDetails := details.feeDetails
        rollbackAccounts := details.rollbackAccounts, computeBudget := details.computeBudget
        loadedAccountsDataSize := s.dataSize }
  | .error loadError => .feesOnly
      { loadError, feeDetails := details.feeDetails
        loadedAccountsDataSize :=
          if s.accountLoader.defineLtdsFeeOnlySemantics then s.dataSize
          else details.rollbackAccounts.dataSize % 2 ^ 32
        rollbackAccounts := details.rollbackAccounts }

def loadTransaction (sdk : Sdk) (rent : Rent) (tx : SvmTransaction)
    (validationResult : Except TransactionError ValidatedTransactionDetails) :
    StateM AccountLoader TransactionLoadResult := fun l =>
  match validationResult with
  | .error e => (.notLoaded e, l)
  | .ok details =>
    let (accounts, s) := (loadTransactionAccounts sdk rent tx details.loadedFeePayerAccount).run
      (LoadState.withMaxSize l details.loadedAccountsBytesLimit)
    (s.loadResult details accounts, s.accountLoader)

end BlackBull.Svm
