import BlackBull.Svm.AccountLoader

/-!
# Processing a batch of transactions

`load_and_execute_sanitized_transactions` of `svm/src/transaction_processor.rs` with the validation
of the nonce and the fee payer, `transaction_balances.rs`, and `collect_accounts_to_store` of
`runtime/src/account_saver.rs`.
-/

namespace BlackBull.Svm

structure TransactionProcessingEnvironment where
  blockhash : Hash
  blockhashLamportsPerSignature : UInt64
  defineLtdsFeeOnlySemantics : Bool
  rent : Rent

structure TransactionProcessingConfig where
  accountOverrides : Option (Pubkey → Option AccountSharedData)
  enableTransactionBalanceRecording : Bool
  dropOnFailure : Bool
  allOrNothing : Bool
  strictNonceSizeCheck : Bool

abbrev TransactionCheckResult := Except TransactionError CheckedTransactionDetails

abbrev LoaderM := ExceptT TransactionError (StateM AccountLoader)

section Validation

variable (sdk : Sdk) (env : TransactionProcessingEnvironment) (config : TransactionProcessingConfig)
  (tx : SvmTransaction)

/-- The nonce account, advanced if it stores the nonce of the transaction and may be advanced. -/
def advanceNonce (nonceAddress : Pubkey) (nonceAccount : AccountSharedData) :
    Except TransactionError NonceInfo :=
  if config.strictNonceSizeCheck ∧ sdk.getSystemAccountKind nonceAccount ≠ some .nonce then
    .error .blockhashNotFound
  else
    match sdk.verifyNonceAccount nonceAccount tx.recentBlockhash with
    | none => .error .blockhashNotFound
    | some nonceData =>
      if nonceData.durableNonce ≠ sdk.durableNonce env.blockhash
          ∧ nonceData.authority ∈ tx.getIxSigners 0 then
        .ok
          { address := nonceAddress
            account := { nonceAccount with
              data := sdk.writeNonceState nonceAccount.data
                { authority := nonceData.authority
                  durableNonce := sdk.durableNonce env.blockhash
                  lamportsPerSignature := env.blockhashLamportsPerSignature } } }
      else .error .blockhashNotFound

def validateTransactionNonce (nonceAddress : Pubkey) : LoaderM NonceInfo := do
  let some loaded ← ExceptT.lift (AccountLoader.loadTransactionAccount nonceAddress true)
    | throw .accountNotFound
  ExceptT.mk (pure (advanceNonce sdk env config tx nonceAddress loaded.account))

/-- The loaded fee payer with the fee taken, and the accounts to roll back to. -/
def chargeFeePayer (nonceInfo : Option NonceInfo) (details : CheckedTransactionDetails)
    (loaded : LoadedTransactionAccount) : Except TransactionError ValidatedTransactionDetails := do
  let account := updateRentExemptStatusForAccount env.rent loaded.account
  let account ← validateFeePayer sdk tx.feePayer account 0 env.rent
    (sdk.totalFee details.feeDetails)
  pure
    { feeDetails := details.feeDetails
      rollbackAccounts :=
        RollbackAccounts.new nonceInfo tx.feePayer account loaded.account.rentEpoch
      loadedAccountsBytesLimit := details.loadedAccountsDataSizeLimit
      computeBudget := details.budget
      loadedFeePayerAccount := { loaded with account } }

def validateTransactionFeePayer (nonceInfo : Option NonceInfo)
    (details : CheckedTransactionDetails) : LoaderM ValidatedTransactionDetails := do
  let some loaded ← ExceptT.lift (AccountLoader.loadTransactionAccount tx.feePayer true)
    | throw .accountNotFound
  ExceptT.mk (pure (chargeFeePayer sdk env tx nonceInfo details loaded))

def validateTransactionNonceAndFeePayer (details : CheckedTransactionDetails) :
    LoaderM ValidatedTransactionDetails :=
  match details.nonceAddress with
  | some nonceAddress => do
    let nonceInfo ← validateTransactionNonce sdk env config tx nonceAddress
    validateTransactionFeePayer sdk env tx (some nonceInfo) details
  | none => validateTransactionFeePayer sdk env tx none details

end Validation

structure SvmTokenInfo where
  accountIndex : UInt8
  mint : Pubkey
  amount : UInt64
  owner : Pubkey
  programId : Pubkey
  decimals : UInt8

structure BalanceCollector where
  nativePre : List (List UInt64)
  nativePost : List (List UInt64)
  tokenPre : List (List SvmTokenInfo)
  tokenPost : List (List SvmTokenInfo)

def unpackTokenAccount (sdk : Sdk) (account : AccountSharedData) (index : ℕ) :
    StateM AccountLoader (Option SvmTokenInfo) :=
  match sdk.unpackTokenAccount account.data account.owner with
  | none => pure none
  | some token => do
    let mintAccount ← AccountLoader.loadAccount token.mint
    pure do
      let mintAccount ← mintAccount
      guard (mintAccount.owner = account.owner)
      let decimals ← sdk.unpackMint mintAccount.data account.owner
      guard (index < 2 ^ 8)
      pure
        { accountIndex := .ofNat index, mint := token.mint, amount := token.amount
          owner := token.owner, programId := account.owner, decimals }

def collectBalance (sdk : Sdk) (tx : SvmTransaction) (key : Pubkey × ℕ) :
    StateM AccountLoader (UInt64 × Option SvmTokenInfo) := do
  let account ← AccountLoader.loadAccount key.1
  match account with
  | none => pure (0, none)
  | some account =>
    if tx.accountKeys.any sdk.isKnownSplTokenId && !tx.isInvoked key.2
        && !sdk.isKnownSplTokenId key.1 && sdk.isKnownSplTokenId account.owner then
      let tokenInfo ← unpackTokenAccount sdk account key.2
      pure (account.lamports, tokenInfo)
    else pure (account.lamports, none)

def collectBalances (sdk : Sdk) (tx : SvmTransaction) :
    StateM AccountLoader (List UInt64 × List SvmTokenInfo) := do
  let balances ← tx.accountKeys.zipIdx.mapM (collectBalance sdk tx)
  pure (balances.map Prod.fst, balances.filterMap Prod.snd)

def collectIfRecording (sdk : Sdk) (config : TransactionProcessingConfig) (tx : SvmTransaction) :
    StateM AccountLoader (List UInt64 × List SvmTokenInfo) :=
  if config.enableTransactionBalanceRecording then collectBalances sdk tx else pure ([], [])

def BalanceCollector.push (c : BalanceCollector) (pre post : List UInt64 × List SvmTokenInfo) :
    BalanceCollector :=
  ⟨c.nativePre ++ [pre.1], c.nativePost ++ [post.1], c.tokenPre ++ [pre.2], c.tokenPost ++ [post.2]⟩

structure Execution (δ : Type) where
  status : Except TransactionError Unit
  accounts : List KeyedAccountSharedData
  details : δ

structure ExecutedTransaction (δ : Type) where
  loadedTransaction : LoadedTransaction
  status : Except TransactionError Unit
  details : δ

inductive ProcessedTransaction (δ : Type)
  | executed (tx : ExecutedTransaction δ)
  | feesOnly (tx : FeesOnlyTransaction)

abbrev TransactionProcessingResult (δ : Type) := Except TransactionError (ProcessedTransaction δ)

structure TransactionBatchProcessor (κ δ : Type) where
  slot : ℕ
  builtinProgramCache : κ
  hitMaxLimit : κ → Bool
  /-- Load the programs of a transaction, among the accounts as the loader shows them. -/
  replenishProgramCache : κ → SvmTransaction → (Pubkey → Option (AccountSharedData × ℕ)) → κ
  execute : SvmTransaction → LoadedTransaction → Execution δ
  merge : κ → δ → κ

structure BatchState (κ δ : Type) where
  accountLoader : AccountLoader
  programCache : κ
  processingResults : List (TransactionProcessingResult δ)
  balanceCollector : Option BalanceCollector

inductive BatchAbort (δ : Type)
  | programCacheHitMaxLimit
  | cancelled (processingResults : List (TransactionProcessingResult δ))

structure BatchOutput (δ : Type) where
  processingResults : List (TransactionProcessingResult δ)
  balanceCollector : Option BalanceCollector

namespace TransactionBatchProcessor

variable {κ δ : Type} (p : TransactionBatchProcessor κ δ) (sdk : Sdk)
  (env : TransactionProcessingEnvironment) (config : TransactionProcessingConfig)

/-- What the code adds up in 128 bits, which the accounts of a transaction do not exceed. -/
def transactionAccountsLamportsSum (accounts : List KeyedAccountSharedData) : ℕ :=
  (accounts.map fun entry => entry.2.lamports.toNat).sum

def executeLoadedTransaction (tx : SvmTransaction) (loadedTransaction : LoadedTransaction) :
    ExecutedTransaction δ where
  loadedTransaction :=
    { loadedTransaction with accounts := (p.execute tx loadedTransaction).accounts }
  status := do
    (p.execute tx loadedTransaction).status
    if transactionAccountsLamportsSum (p.execute tx loadedTransaction).accounts
        = transactionAccountsLamportsSum loadedTransaction.accounts then .ok ()
    else .error .unbalancedTransaction
  details := (p.execute tx loadedTransaction).details

def finishExecuted (tx : SvmTransaction) (executed : ExecutedTransaction δ) (l : AccountLoader)
    (programCache : κ) : TransactionProcessingResult δ × AccountLoader × κ :=
  match executed.status, config.dropOnFailure with
  | .ok _, _ =>
    (.ok (.executed executed),
      l.updateAccountsForSuccessfulTx tx executed.loadedTransaction.accounts p.slot,
      p.merge programCache executed.details)
  | .error err, true => (.error err, l, programCache)
  | .error _, false =>
    (.ok (.executed executed),
      l.updateAccountsForFailedTx executed.loadedTransaction.rollbackAccounts p.slot, programCache)

def processLoadResult (tx : SvmTransaction) (loadResult : TransactionLoadResult)
    (l : AccountLoader) (programCache : κ) :
    Except (BatchAbort δ) (TransactionProcessingResult δ × AccountLoader × κ) :=
  match loadResult with
  | .notLoaded err => .ok (.error err, l, programCache)
  | .feesOnly feesOnlyTx =>
    if config.dropOnFailure then .ok (.error feesOnlyTx.loadError, l, programCache)
    else
      .ok (.ok (.feesOnly feesOnlyTx),
        l.updateAccountsForFailedTx feesOnlyTx.rollbackAccounts p.slot, programCache)
  | .loaded loadedTransaction =>
    let programCache := p.replenishProgramCache programCache tx fun key => (l.doLoad key).1
    if p.hitMaxLimit programCache then .error .programCacheHitMaxLimit
    else
      .ok (p.finishExecuted config tx (p.executeLoadedTransaction tx loadedTransaction) l
        programCache)

def loadPhase (tx : SvmTransaction) (checkResult : TransactionCheckResult) :
    StateM AccountLoader (TransactionLoadResult × List UInt64 × List SvmTokenInfo) := do
  let validateResult ←
    match checkResult with
    | .error e => pure (.error e)
    | .ok txDetails => (validateTransactionNonceAndFeePayer sdk env config tx txDetails).run
  let loadResult ← loadTransaction sdk env.rent tx validateResult
  let preBalances ← collectIfRecording sdk config tx
  pure (loadResult, preBalances)

/-- One turn of the loop over the `total` transactions of a batch. -/
def processTransaction (total : ℕ) (s : BatchState κ δ)
    (item : SvmTransaction × TransactionCheckResult) : Except (BatchAbort δ) (BatchState κ δ) := do
  let ((loadResult, preBalances), l) := loadPhase sdk env config item.1 item.2 s.accountLoader
  let (processingResult, l, programCache) ←
    p.processLoadResult config item.1 loadResult l s.programCache
  let (postBalances, l) := collectIfRecording sdk config item.1 l
  if config.allOrNothing ∧ processingResult.toOption.isNone then
    .error <| .cancelled <| s.processingResults.map (fun _ => .error .commitCancelled)
      ++ [processingResult]
      ++ List.replicate (total - (s.processingResults.length + 1)) (.error .commitCancelled)
  else
    .ok
      { accountLoader := l
        programCache
        processingResults := s.processingResults ++ [processingResult]
        balanceCollector := s.balanceCollector.map (·.push preBalances postBalances) }

def start (accounts : Accounts) : BatchState κ δ where
  accountLoader := AccountLoader.new config.accountOverrides accounts env.defineLtdsFeeOnlySemantics
  programCache := p.builtinProgramCache
  processingResults := []
  balanceCollector :=
    if config.enableTransactionBalanceRecording then some ⟨[], [], [], []⟩ else none

def processBatch (accounts : Accounts) (txs : List SvmTransaction)
    (checkResults : List TransactionCheckResult) : Except (BatchAbort δ) (BatchState κ δ) :=
  if p.hitMaxLimit p.builtinProgramCache then .error .programCacheHitMaxLimit
  else
    (txs.zip checkResults).foldlM (p.processTransaction sdk env config txs.length)
      (p.start env config accounts)

/-- What the bank is shown by the turns of a batch. One that ends the batch has loaded its
transaction. -/
def inspectionsOf (total : ℕ) :
    BatchState κ δ → List (SvmTransaction × TransactionCheckResult) → List Inspection
  | s, [] => s.accountLoader.inspected
  | s, item :: items =>
    match p.processTransaction sdk env config total s item with
    | .ok s' => inspectionsOf total s' items
    | .error _ => (loadPhase sdk env config item.1 item.2 s.accountLoader).2.inspected

def batchInspections (accounts : Accounts) (txs : List SvmTransaction)
    (checkResults : List TransactionCheckResult) : List Inspection :=
  if p.hitMaxLimit p.builtinProgramCache then []
  else
    p.inspectionsOf sdk env config txs.length (p.start env config accounts) (txs.zip checkResults)

def loadAndExecuteSanitizedTransactions (accounts : Accounts) (txs : List SvmTransaction)
    (checkResults : List TransactionCheckResult) : BatchOutput δ :=
  match p.processBatch sdk env config accounts txs checkResults with
  | .ok s => ⟨s.processingResults, s.balanceCollector⟩
  | .error .programCacheHitMaxLimit =>
    ⟨List.replicate txs.length (.error .programCacheHitMaxLimit), none⟩
  | .error (.cancelled processingResults) => ⟨processingResults, none⟩

end TransactionBatchProcessor

section Store

variable {δ : Type}

def collectAccountsForSuccessfulTx (collectedAccounts : List KeyedAccountSharedData)
    (tx : SvmTransaction) (transactionAccounts : List KeyedAccountSharedData) :
    List KeyedAccountSharedData :=
  ((List.range tx.accountKeys.length).zip transactionAccounts).foldl (fun collected entry =>
    if !tx.isWritable entry.1 then collected
    else if tx.isInvoked entry.1 && !tx.isInstructionAccount entry.1 then collected
    else collected ++ [entry.2]) collectedAccounts

def collectAccountsForFailedTx (collectedAccounts : List KeyedAccountSharedData)
    (rollbackAccounts : RollbackAccounts) : List KeyedAccountSharedData :=
  rollbackAccounts.iter.foldl (fun collected entry => collected ++ [entry]) collectedAccounts

def collectAccountsToStore (txs : List SvmTransaction)
    (processingResults : List (TransactionProcessingResult δ)) : List KeyedAccountSharedData :=
  (processingResults.zip txs).foldl (fun accounts entry =>
    match entry.1 with
    | .error _ => accounts
    | .ok (.executed executedTx) =>
      match executedTx.status with
      | .ok _ =>
        collectAccountsForSuccessfulTx accounts entry.2 executedTx.loadedTransaction.accounts
      | .error _ =>
        collectAccountsForFailedTx accounts executedTx.loadedTransaction.rollbackAccounts
    | .ok (.feesOnly feesOnlyTx) =>
      collectAccountsForFailedTx accounts feesOnlyTx.rollbackAccounts) []

/-- The cache of the accounts skips an account without lamports that is not there; it is stored
here, where no load sees it. -/
def storeAccounts (accounts : Accounts) (slot : ℕ) (toStore : List KeyedAccountSharedData) :
    Accounts :=
  toStore.foldl (fun accounts entry => Function.update accounts entry.1 (some (entry.2, slot)))
    accounts

end Store

namespace TransactionBatchProcessor

variable {κ δ : Type} (p : TransactionBatchProcessor κ δ) (sdk : Sdk)
  (env : TransactionProcessingEnvironment) (config : TransactionProcessingConfig)

def processAndStore (accounts : Accounts) (txs : List SvmTransaction)
    (checkResults : List TransactionCheckResult) :
    Accounts × List (TransactionProcessingResult δ) :=
  let output := p.loadAndExecuteSanitizedTransactions sdk env config accounts txs checkResults
  (storeAccounts accounts p.slot (collectAccountsToStore txs output.processingResults),
    output.processingResults)

def processAlone (accounts : Accounts) (item : SvmTransaction × TransactionCheckResult) :
    Except Empty (Accounts × List (TransactionProcessingResult δ)) :=
  .ok (p.processAndStore sdk env config accounts [item.1] [item.2])

def WithinCacheLimit (accounts : Accounts) (txs : List SvmTransaction)
    (checkResults : List TransactionCheckResult) : Prop :=
  p.processBatch sdk env config accounts txs checkResults ≠ .error .programCacheHitMaxLimit

end TransactionBatchProcessor

end BlackBull.Svm
