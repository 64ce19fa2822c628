import BlackBull.Proofs.TransactionLoad

/-!
# A batch and its transactions one by one

The account cache of a batch shows the accounts as they would be loaded if the accounts of every
transaction were stored before the next one.
-/

namespace BlackBull.Svm

open AccountLoader List

variable {v : Accounts} {f : Bool} {κ δ : Type} {tx : SvmTransaction}

def writtenAccounts (tx : SvmTransaction) (accounts : List KeyedAccountSharedData) :
    List KeyedAccountSharedData :=
  let entries := ((List.range tx.accountKeys.length).zip accounts).filter fun entry =>
    tx.isWritable entry.1 && !(tx.isInvoked entry.1 && !tx.isInstructionAccount entry.1)
  entries.map Prod.snd

lemma foldl_written {β : Type} (tx : SvmTransaction) (accounts : List KeyedAccountSharedData)
    (g : β → KeyedAccountSharedData → β) (b : β) :
    ((range tx.accountKeys.length).zip accounts).foldl (fun b entry =>
      if !tx.isWritable entry.1 then b
      else if tx.isInvoked entry.1 && !tx.isInstructionAccount entry.1 then b
      else g b entry.2) b
    = (writtenAccounts tx accounts).foldl g b := by
  unfold writtenAccounts
  induction (range tx.accountKeys.length).zip accounts generalizing b with
  | nil => rfl
  | cons entry entries ih =>
    rw [foldl_cons, ih, filter_cons]
    cases tx.isWritable entry.1 with
    | false => rfl
    | true => cases tx.isInvoked entry.1 && !tx.isInstructionAccount entry.1 <;> rfl

lemma foldl_push (collected entries : List KeyedAccountSharedData) :
    entries.foldl (fun collected entry => collected ++ [entry]) collected = collected ++ entries :=
  foldl_append_eq_append.trans
    (congrArg (collected ++ ·) (flatMap_singleton' entries))

def accountsToStore (tx : SvmTransaction) : TransactionProcessingResult δ →
    List KeyedAccountSharedData
  | .error _ => []
  | .ok (.executed executedTx) =>
    match executedTx.status with
    | .ok _ => writtenAccounts tx executedTx.loadedTransaction.accounts
    | .error _ => executedTx.loadedTransaction.rollbackAccounts.iter
  | .ok (.feesOnly feesOnlyTx) => feesOnlyTx.rollbackAccounts.iter

lemma collectAccountsToStore_eq (txs : List SvmTransaction)
    (results : List (TransactionProcessingResult δ)) :
    collectAccountsToStore txs results
      = (results.zip txs).flatMap fun entry => accountsToStore entry.2 entry.1 := by
  rw [flatMap_eq_foldl]
  unfold collectAccountsToStore
  congr 1
  funext collected entry
  rcases entry with ⟨e | executed | feesOnly, tx⟩
  · exact (append_nil _).symm
  · dsimp only [accountsToStore]
    cases executed.status with
    | ok _ => exact (foldl_written tx _ _ collected).trans (foldl_push collected _)
    | error e => exact foldl_push collected _
  · exact foldl_push collected _

lemma collectAccountsToStore_cons (tx : SvmTransaction) (txs : List SvmTransaction)
    (r : TransactionProcessingResult δ) (results : List (TransactionProcessingResult δ)) :
    collectAccountsToStore (tx :: txs) (r :: results)
      = accountsToStore tx r ++ collectAccountsToStore txs results := by
  simp only [collectAccountsToStore_eq, zip_cons_cons, flatMap_cons]

lemma storeAccounts_append (accounts : Accounts) (slot : ℕ) (l l' : List KeyedAccountSharedData) :
    storeAccounts accounts slot (l ++ l') = storeAccounts (storeAccounts accounts slot l) slot l' :=
  foldl_append

namespace TransactionBatchProcessor

variable {p : TransactionBatchProcessor κ δ} {sdk : Sdk}
  {env : TransactionProcessingEnvironment} {config : TransactionProcessingConfig} {item : SvmTransaction × TransactionCheckResult} {s s' : BatchState κ δ}
  {total : ℕ}

def executedOutcome (config : TransactionProcessingConfig) (executed : ExecutedTransaction δ) :
    TransactionProcessingResult δ :=
  match executed.status, config.dropOnFailure with
  | .error err, true => .error err
  | _, _ => .ok (.executed executed)

def outcome (p : TransactionBatchProcessor κ δ) (config : TransactionProcessingConfig)
    (tx : SvmTransaction) : TransactionLoadResult → TransactionProcessingResult δ
  | .notLoaded err => .error err
  | .feesOnly feesOnlyTx =>
    if config.dropOnFailure then .error feesOnlyTx.loadError else .ok (.feesOnly feesOnlyTx)
  | .loaded loadedTransaction =>
    executedOutcome config (p.executeLoadedTransaction tx loadedTransaction)

lemma finishExecuted_spec (l : AccountLoader) (executed : ExecutedTransaction δ) (cache : κ) :
    (p.finishExecuted config tx executed l cache).1 = executedOutcome config executed
      ∧ (p.finishExecuted config tx executed l cache).2.1
        = l.insertAll p.slot (accountsToStore tx (executedOutcome config executed)) := by
  unfold finishExecuted executedOutcome
  rcases hs : executed.status with err | _
  · cases config.dropOnFailure with
    | true => exact ⟨rfl, rfl⟩
    | false =>
      refine ⟨rfl, ?_⟩
      simp only [accountsToStore, hs]
      rfl
  · refine ⟨rfl, ?_⟩
    simp only [accountsToStore, hs]
    exact foldl_written tx _ (fun (l : AccountLoader) entry => l.insert entry.1 (entry.2, p.slot)) l

theorem processLoadResult_spec {l l' : AccountLoader} {cache cache' : κ}
    {loadResult : TransactionLoadResult} {r : TransactionProcessingResult δ}
    (h : p.processLoadResult config tx loadResult l cache = .ok (r, l', cache')) :
    r = p.outcome config tx loadResult ∧ l' = l.insertAll p.slot (accountsToStore tx r) := by
  cases loadResult with
  | notLoaded err =>
    cases h
    exact ⟨rfl, rfl⟩
  | feesOnly feesOnlyTx =>
    unfold processLoadResult at h
    unfold outcome
    split_ifs at h ⊢
    · cases h
      exact ⟨rfl, rfl⟩
    · cases h
      exact ⟨rfl, rfl⟩
  | loaded loadedTransaction =>
    obtain ⟨-, h⟩ := ite_error_eq_ok.1 h
    have hspec := @finishExecuted_spec _ _ tx p config l
      (p.executeLoadedTransaction tx loadedTransaction)
      (p.replenishProgramCache cache tx fun key => (l.doLoad key).1)
    rw [Except.ok.inj h] at hspec
    obtain ⟨rfl, hinsert⟩ := hspec
    exact ⟨rfl, hinsert⟩

/-- One turn of the loop, which goes on to the next. To execute a transaction and to cache its
accounts shows nothing to the bank. -/
lemma processTransaction_spec (hs : Shows v f s.accountLoader)
    (h : p.processTransaction sdk env config total s item = .ok s') :
    ∃ r, r = p.outcome config item.1 (loadPhase sdk env config item.1 item.2 s.accountLoader).1.1
      ∧ s'.processingResults = s.processingResults ++ [r]
      ∧ Shows (storedView p.slot v (accountsToStore item.1 r)) f s'.accountLoader
      ∧ s'.accountLoader.inspected
        = (loadPhase sdk env config item.1 item.2 s.accountLoader).2.inspected := by
  obtain ⟨-, keys, -, hphase⟩ := @loadPhase_spec _ _ sdk env config item.1 _ _ hs hs item.2
  obtain ⟨⟨r, l, cache⟩, hprocess, h⟩ := Except.bind_eq_ok.1 h
  obtain ⟨hr, rfl⟩ := processLoadResult_spec hprocess
  have hpost := @ensures_collectIfRecording sdk config item.1 (fun l =>
    Shows (storedView p.slot v (accountsToStore item.1 r)) f l
      ∧ l.inspected = (loadPhase sdk env config item.1 item.2 s.accountLoader).2.inspected)
    (fun key l hl => ⟨(hl.1.loadAccount key).2, (inspected_loadAccount key l).trans hl.2⟩) _
    ⟨hphase.shows'.insertAll _, inspected_insertAll _ _ _⟩
  obtain ⟨-, h⟩ := ite_error_eq_ok.1 h
  cases h
  exact ⟨r, hr, rfl, hpost⟩

lemma processTransaction_agree {total' : ℕ} {t t' : BatchState κ δ}
    (hs : Shows v f s.accountLoader) (ht : Shows v f t.accountLoader)
    (hs' : p.processTransaction sdk env config total s item = .ok s')
    (ht' : p.processTransaction sdk env config total' t item = .ok t') :
    ∃ r, s'.processingResults = s.processingResults ++ [r]
      ∧ t'.processingResults = t.processingResults ++ [r]
      ∧ Shows (storedView p.slot v (accountsToStore item.1 r)) f s'.accountLoader := by
  obtain ⟨hval, -⟩ := @loadPhase_spec _ _ sdk env config item.1 _ _ hs ht item.2
  obtain ⟨r, hr, hsr, hshows, -⟩ := processTransaction_spec hs hs'
  obtain ⟨r', hr', htr, -⟩ := processTransaction_spec ht ht'
  rw [hval, ← hr'] at hr
  subst hr
  exact ⟨r, hsr, htr, hshows⟩

lemma processLoadResult_error {l : AccountLoader} {cache : κ} {loadResult : TransactionLoadResult}
    {e : BatchAbort δ} (h : p.processLoadResult config tx loadResult l cache = .error e) :
    e = .programCacheHitMaxLimit ∧ ∃ cache, p.hitMaxLimit cache = true := by
  unfold processLoadResult at h
  cases loadResult with
  | notLoaded err => cases h
  | feesOnly feesOnlyTx => split_ifs at h
  | loaded loadedTransaction =>
    dsimp only at h
    split_ifs at h with hlimit
    cases h
    exact ⟨rfl, _, hlimit⟩

lemma processTransaction_error (hall : config.allOrNothing = false) {e : BatchAbort δ}
    (h : p.processTransaction sdk env config total s item = .error e) :
    e = .programCacheHitMaxLimit ∧ ∃ cache, p.hitMaxLimit cache = true := by
  rcases Except.bind_eq_error.1 h with h | ⟨r, -, h⟩
  · exact processLoadResult_error h
  · rw [hall] at h
    cases h

lemma shows_start (hover : config.accountOverrides = none) (accounts : Accounts) :
    Shows (getAccountSharedData accounts) env.defineLtdsFeeOnlySemantics
      (p.start env config accounts).accountLoader := by
  unfold start
  rw [hover]
  exact shows_new _ _

lemma processBatch_eq (accounts : Accounts) (txs : List SvmTransaction)
    (checkResults : List TransactionCheckResult) :
    p.processBatch sdk env config accounts txs checkResults
      = if p.hitMaxLimit p.builtinProgramCache then .error .programCacheHitMaxLimit
        else (txs.zip checkResults).foldlM (p.processTransaction sdk env config txs.length)
          (p.start env config accounts) := rfl

lemma processBatch_ok (hall : config.allOrNothing = false) {accounts : Accounts}
    {txs : List SvmTransaction} {checkResults : List TransactionCheckResult}
    (h : p.WithinCacheLimit sdk env config accounts txs checkResults) :
    ∃ s, (txs.zip checkResults).foldlM (p.processTransaction sdk env config txs.length)
        (p.start env config accounts) = .ok s
      ∧ p.loadAndExecuteSanitizedTransactions sdk env config accounts txs checkResults
        = ⟨s.processingResults, s.balanceCollector⟩ := by
  unfold loadAndExecuteSanitizedTransactions
  unfold WithinCacheLimit at h
  have hbatch := @processBatch_eq _ _ p sdk env config accounts txs checkResults
  by_cases hlimit : p.hitMaxLimit p.builtinProgramCache
  · rw [if_pos hlimit] at hbatch
    exact absurd hbatch h
  · rw [if_neg hlimit] at hbatch
    rw [hbatch] at h ⊢
    rcases hr : (txs.zip checkResults).foldlM (p.processTransaction sdk env config txs.length)
        (p.start env config accounts) with (_ | results) | s
    · exact absurd hr h
    · refine absurd hr (foldlM_ne_error (fun s item h => ?_) _ _)
      cases (processTransaction_error hall h).1
    · exact ⟨s, rfl, rfl⟩

lemma withinCacheLimit_of_never (hall : config.allOrNothing = false)
    (hnever : ∀ cache, p.hitMaxLimit cache = false) (accounts : Accounts)
    (txs : List SvmTransaction) (checkResults : List TransactionCheckResult) :
    p.WithinCacheLimit sdk env config accounts txs checkResults := by
  unfold WithinCacheLimit processBatch
  rw [if_neg (by rw [hnever]; exact Bool.false_ne_true)]
  refine foldlM_ne_error (fun s item h => ?_) _ _
  obtain ⟨-, cache, hfull⟩ := processTransaction_error hall h
  rw [hnever cache] at hfull
  cases hfull

lemma foldlM_eq_run (hall : config.allOrNothing = false) (hover : config.accountOverrides = none)
    {batch : List (SvmTransaction × TransactionCheckResult)} {accounts : Accounts}
    (hs : Shows (getAccountSharedData accounts) env.defineLtdsFeeOnlySemantics s.accountLoader)
    (h : batch.foldlM (p.processTransaction sdk env config total) s = .ok s')
    (heach : Guarded (p.processAlone sdk env config)
      (fun accounts item => p.WithinCacheLimit sdk env config accounts [item.1] [item.2])
      accounts batch) :
    ∃ results, s'.processingResults = s.processingResults ++ results
      ∧ run (p.processAlone sdk env config) accounts batch = .ok
        (storeAccounts accounts p.slot (collectAccountsToStore (batch.map Prod.fst) results),
          results) := by
  induction batch generalizing accounts s with
  | nil =>
    cases h
    exact ⟨[], (append_nil _).symm, rfl⟩
  | cons item batch ih =>
    obtain ⟨s1, hturn, hrest⟩ := Except.bind_eq_ok.1 h
    obtain ⟨hlimit, hguard⟩ := heach
    obtain ⟨t, hfold, hcall⟩ := processBatch_ok hall hlimit
    have halone : p.processTransaction sdk env config 1 (p.start env config accounts) item
        = .ok t := by
      obtain ⟨t', ht', hnil⟩ := Except.bind_eq_ok.1 (foldlM_cons.symm.trans hfold)
      cases hnil
      exact ht'
    obtain ⟨r, hr, hrt, hshows⟩ :=
      processTransaction_agree hs (shows_start hover accounts) hturn halone
    have hstep : p.processAlone sdk env config accounts item
        = .ok (storeAccounts accounts p.slot (accountsToStore item.1 r), [r]) := by
      rw [processAlone, processAndStore, hcall]
      rw [hrt]
      exact congrArg (fun toStore => Except.ok (storeAccounts accounts p.slot toStore, [r]))
        (show collectAccountsToStore [item.1] [r] = _ by simp [collectAccountsToStore_eq])
    rw [← getAccountSharedData_storeAccounts] at hshows
    obtain ⟨results, hresults, hrun⟩ := ih hshows hrest (hguard _ _ hstep)
    refine ⟨r :: results, ?_, run_cons_ok.2 ⟨_, [r], results, hstep, ?_, rfl⟩⟩
    · rw [hresults, hr, append_assoc, singleton_append]
    · rw [hrun, map_cons, collectAccountsToStore_cons, storeAccounts_append]

/-- One call for a batch gives the results and the accounts that one call for each of its
transactions gives, each with its accounts stored before the next. -/
theorem processAndStore_eq_each (p : TransactionBatchProcessor κ δ) (sdk : Sdk)
    (env : TransactionProcessingEnvironment) (config : TransactionProcessingConfig)
    (accounts : Accounts) (batch : List (SvmTransaction × TransactionCheckResult))
    (hall : config.allOrNothing = false) (hover : config.accountOverrides = none)
    (hlimit : p.WithinCacheLimit sdk env config accounts (batch.map Prod.fst) (batch.map Prod.snd))
    (heach : Guarded (p.processAlone sdk env config)
      (fun accounts item => p.WithinCacheLimit sdk env config accounts [item.1] [item.2])
      accounts batch) :
    run (p.processAlone sdk env config) accounts batch
      = .ok (p.processAndStore sdk env config accounts (batch.map Prod.fst)
          (batch.map Prod.snd)) := by
  obtain ⟨s, hfold, hcall⟩ := processBatch_ok hall hlimit
  rw [zip_map', map_id'' fun _ => rfl] at hfold
  obtain ⟨results, hresults, hrun⟩ :=
    foldlM_eq_run hall hover (shows_start hover accounts) hfold heach
  rw [hrun, processAndStore, hcall]
  rw [hresults]
  rfl

/-! Two transfers of 3 lamports with one fee payer, who can pay the fee of 6 lamports once. -/

section SharedPayer

def payerKey : Pubkey := ⟨List.replicate 32 1, rfl⟩

def receiverKey : Pubkey := ⟨List.replicate 32 2, rfl⟩

def transfer : SvmTransaction where
  accountKeys := [payerKey, receiverKey]
  keys_pos := by decide
  isWritable _ := true
  isSigner i := i = 0
  isInvoked _ := false
  instructions := []
  recentBlockhash := ⟨payerKey.bytes, payerKey.length_eq⟩
  numLookupTables := 0

def transferCheck : TransactionCheckResult :=
  .ok
    { nonceAddress := none
      budget := ⟨200000, 5, 64, 20000, 64, 4096, 32768⟩
      loadedAccountsDataSizeLimit := 1000
      feeDetails := ⟨5, 1⟩ }

def transferProcessor : TransactionBatchProcessor Unit Unit where
  slot := 7
  builtinProgramCache := ()
  hitMaxLimit _ := false
  replenishProgramCache _ _ _ := ()
  execute _ loaded :=
    { status := .ok ()
      accounts := loaded.accounts.map fun entry =>
        (entry.1, { entry.2 with
          lamports := if entry.1 = payerKey then entry.2.lamports - 3 else entry.2.lamports + 3 })
      details := () }
  merge _ _ := ()

def transferSdk : Sdk where
  getSystemAccountKind _ := some .system
  verifyNonceAccount _ _ := none
  durableNonce h := h
  writeNonceState data _ := data
  programdataAddress _ := none
  constructInstructionsData _ := []
  isKnownSplTokenId _ := false
  unpackTokenAccount _ _ := none
  unpackMint _ _ := none
  totalFee f := f.transactionFee + f.prioritizationFee
  accumulate f g := ⟨f.transactionFee + g.transactionFee, f.prioritizationFee + g.prioritizationFee⟩
  toNat_totalFee h := (UInt64.toNat_add _ _).trans (Nat.mod_eq_of_lt h)
  transactionFee_accumulate h := (UInt64.toNat_add _ _).trans (Nat.mod_eq_of_lt h)
  prioritizationFee_accumulate h := (UInt64.toNat_add _ _).trans (Nat.mod_eq_of_lt h)

def transferEnv : TransactionProcessingEnvironment where
  blockhash := ⟨List.replicate 32 9, rfl⟩
  blockhashLamportsPerSignature := 5
  defineLtdsFeeOnlySemantics := true
  rent := ⟨fun _ _ => true, fun _ => 0⟩

def transferConfig : TransactionProcessingConfig := ⟨none, true, false, false, true⟩

def transferAccounts : Accounts := fun key =>
  if key = payerKey then some ({ (default : AccountSharedData) with lamports := 10 }, 3) else none

theorem processAndStore_eq_each_sharedPayer :
    (transferProcessor.processAndStore transferSdk transferEnv transferConfig transferAccounts
        [transfer, transfer] [transferCheck, transferCheck]).2.map (·.toOption.isSome)
      = [true, false]
    ∧ run (transferProcessor.processAlone transferSdk transferEnv transferConfig) transferAccounts
        [(transfer, transferCheck), (transfer, transferCheck)]
      = .ok (transferProcessor.processAndStore transferSdk transferEnv transferConfig
          transferAccounts [transfer, transfer] [transferCheck, transferCheck]) := by
  have hlimit := @withinCacheLimit_of_never _ _ transferProcessor transferSdk transferEnv
    transferConfig rfl fun _ => rfl
  exact ⟨by decide +kernel, processAndStore_eq_each transferProcessor transferSdk transferEnv
    transferConfig transferAccounts [(transfer, transferCheck), (transfer, transferCheck)] rfl rfl
    (hlimit _ _ _) ⟨hlimit _ _ _, fun _ _ _ => ⟨hlimit _ _ _, fun _ _ _ => trivial⟩⟩⟩

end SharedPayer

end TransactionBatchProcessor

end BlackBull.Svm
