import BlackBull.Proofs.TransactionBatch

/-!
# What becomes of one transaction

What a validated transaction is charged, which of its accounts are written, and a batch as a sequence
of transactions: each is loaded from the accounts that the ones before it leave.
-/

namespace BlackBull.Svm

open AccountLoader List

variable {v : Accounts} {f : Bool} {log : List Inspection} {sdk : Sdk} {rent : Rent}
  {env : TransactionProcessingEnvironment} {config : TransactionProcessingConfig}
  {tx : SvmTransaction} {validated : ValidatedTransactionDetails}

lemma checkedSub_eq_some {a b c : UInt64} (h : checkedSub a b = some c) :
    c.toNat + b.toNat = a.toNat := by
  unfold checkedSub at h
  split_ifs at h with hle
  cases h
  rw [UInt64.toNat_sub_of_le _ _ hle]
  exact Nat.sub_add_cancel (UInt64.le_iff_toNat_le.1 hle)

lemma validateFeePayer_ok {payerAddress : Pubkey} {account account' : AccountSharedData}
    {index : ℕ} {fee : UInt64}
    (h : validateFeePayer sdk payerAddress account index rent fee = .ok account') :
    ∃ lamports, account' = { account with lamports }
      ∧ lamports.toNat + fee.toNat = account.lamports.toNat := by
  unfold validateFeePayer at h
  split_ifs at h
  · cases h
  obtain ⟨kind, -, h⟩ := Except.bind_eq_ok.1 h
  obtain ⟨-, -, h⟩ := Except.bind_eq_ok.1 h
  obtain ⟨lamports, hlamports, h⟩ := Except.bind_eq_ok.1 h
  obtain ⟨-, -, h⟩ := Except.bind_eq_ok.1 h
  cases h
  refine ⟨lamports, rfl, checkedSub_eq_some ?_⟩
  cases hsub : checkedSub account.lamports fee with
  | none =>
    rw [hsub] at hlamports
    cases hlamports
  | some lamports' =>
    rw [hsub] at hlamports
    cases hlamports
    rfl

/-- The nonce account that is rolled back to: the one stored, with the next durable nonce. -/
structure Advanced (sdk : Sdk) (env : TransactionProcessingEnvironment) (tx : SvmTransaction)
    (account : AccountSharedData) (info : NonceInfo) : Prop where
  advanced : ∃ nonceData, sdk.verifyNonceAccount account tx.recentBlockhash = some nonceData
    ∧ nonceData.durableNonce ≠ sdk.durableNonce env.blockhash
    ∧ info.account = { account with
        data := sdk.writeNonceState account.data
          { authority := nonceData.authority
            durableNonce := sdk.durableNonce env.blockhash
            lamportsPerSignature := env.blockhashLamportsPerSignature } }

lemma advanceNonce_ok {address : Pubkey} {account : AccountSharedData} {info : NonceInfo}
    (h : advanceNonce sdk env config tx address account = .ok info) :
    info.address = address ∧ Advanced sdk env tx account info := by
  unfold advanceNonce at h
  split_ifs at h
  split at h
  · cases h
  · next nonceData hverify =>
    split_ifs at h with hnonce
    cases h
    exact ⟨rfl, nonceData, hverify, hnonce.1, rfl⟩

structure Charged (sdk : Sdk) (env : TransactionProcessingEnvironment) (v : Accounts)
    (tx : SvmTransaction) (details : CheckedTransactionDetails)
    (validated : ValidatedTransactionDetails) : Prop where
  feeDetails : validated.feeDetails = details.feeDetails
  payer : ∃ account slot lamports nonceInfo, v tx.feePayer = some (account, slot)
    ∧ lamports.toNat + (sdk.totalFee details.feeDetails).toNat = account.lamports.toNat
    ∧ validated.loadedFeePayerAccount.account
      = { updateRentExemptStatusForAccount env.rent account with lamports }
    ∧ validated.rollbackAccounts
      = RollbackAccounts.new nonceInfo tx.feePayer validated.loadedFeePayerAccount.account
        account.rentEpoch
    ∧ nonceInfo.map NonceInfo.address = details.nonceAddress
    ∧ ∀ info ∈ nonceInfo, ∃ nonceAccount slot, v info.address = some (nonceAccount, slot)
      ∧ Advanced sdk env tx nonceAccount info

lemma lamports_updateRentExemptStatus (rent : Rent) (account : AccountSharedData) :
    (updateRentExemptStatusForAccount rent account).lamports = account.lamports := by
  unfold updateRentExemptStatusForAccount
  split_ifs <;> rfl

lemma charged_of_payerAt {nonceInfo : Option NonceInfo} {details : CheckedTransactionDetails}
    (h : payerAt sdk env v tx nonceInfo details = .ok validated)
    (haddress : nonceInfo.map NonceInfo.address = details.nonceAddress)
    (hinfo : ∀ info ∈ nonceInfo, ∃ nonceAccount slot, v info.address = some (nonceAccount, slot)
      ∧ Advanced sdk env tx nonceAccount info) : Charged sdk env v tx details validated := by
  unfold payerAt at h
  split at h
  · cases h
  · next entry hentry =>
    obtain ⟨account, haccount, h⟩ := Except.bind_eq_ok.1 h
    cases h
    obtain ⟨lamports, rfl, hlamports⟩ := validateFeePayer_ok haccount
    rw [lamports_updateRentExemptStatus] at hlamports
    exact ⟨rfl, entry.1, entry.2, lamports, nonceInfo, hentry, hlamports, rfl, rfl, haddress, hinfo⟩

lemma validatedAt_ok {details : CheckedTransactionDetails}
    (h : validatedAt sdk env config v tx details = .ok validated) :
    Charged sdk env v tx details validated := by
  unfold validatedAt at h
  split at h
  · next address haddress =>
    obtain ⟨info, hinfo, hpayer⟩ := Except.bind_eq_ok.1 h
    unfold nonceAt at hinfo
    split at hinfo
    · cases hinfo
    · next entry hentry =>
      obtain ⟨rfl, hadvanced⟩ := advanceNonce_ok hinfo
      refine charged_of_payerAt hpayer haddress.symm ?_
      rintro _ ⟨⟩
      exact ⟨entry.1, entry.2, hentry, hadvanced⟩
  · next haddress => exact charged_of_payerAt h haddress.symm nofun

/-- The account at an index is stored if the transaction succeeds. -/
def SvmTransaction.writes (tx : SvmTransaction) (index : ℕ) : Bool :=
  tx.isWritable index && !(tx.isInvoked index && !tx.isInstructionAccount index)

/-- What sanitizing and the locking of the accounts have checked. The account of the instructions
sysvar is a reserved one. -/
structure SvmTransaction.Sanitized (tx : SvmTransaction) : Prop where
  nodup : tx.accountKeys.Nodup
  payer_writable : tx.isWritable 0 = true
  payer_not_invoked : tx.isInvoked 0 = false
  instructions_readonly : ∀ key ∈ tx.accountKeys.zipIdx, key.1 = instructionsId →
    tx.isWritable key.2 = false

lemma SvmTransaction.Sanitized.writes_payer (h : tx.Sanitized) : tx.writes 0 = true := by
  rw [SvmTransaction.writes, h.payer_writable, h.payer_not_invoked]
  rfl

lemma zip_range'_map {α β : Type} (g : α × ℕ → β) (as : List α) (start : ℕ) :
    (range' start as.length).zip ((as.zipIdx start).map g)
      = (as.zipIdx start).map fun a => (a.2, g a) := by
  induction as generalizing start with
  | nil => rfl
  | cons a as ih =>
    rw [length_cons, range'_succ, zipIdx_cons, map_cons, zip_cons_cons,
      ih, map_cons]

lemma keys_loadedAccountsAt (payer : AccountSharedData) :
    (loadedAccountsAt sdk v tx rent payer).map Prod.fst = tx.accountKeys := by
  obtain ⟨keys, hpos, _, _, _, _, _, _⟩ := tx
  cases keys with
  | nil => exact absurd hpos (Nat.lt_irrefl 0)
  | cons key keys =>
    simp only [loadedAccountsAt, map_cons, map_map]
    congr 1
    exact zipIdx_map_fst ..

lemma writtenAccounts_loaded (payer : AccountSharedData) :
    writtenAccounts tx (loadedAccountsAt sdk v tx rent payer)
      = (if tx.writes 0 then [(tx.feePayer, payer)] else [])
        ++ ((tx.accountKeys.zipIdx.drop 1).filter fun key => tx.writes key.2).map fun key =>
          (key.1, loadedAt sdk v tx rent key) := by
  have hzip : (range tx.accountKeys.length).zip (loadedAccountsAt sdk v tx rent payer)
      = (0, (tx.feePayer, payer)) :: (tx.accountKeys.zipIdx.drop 1).map fun key =>
        (key.2, (key.1, loadedAt sdk v tx rent key)) := by
    unfold loadedAccountsAt
    generalize loadedAt sdk v tx rent = g
    have hpos := tx.keys_pos
    revert hpos
    cases tx.accountKeys with
    | nil => exact fun hpos => absurd hpos (Nat.lt_irrefl 0)
    | cons key keys =>
      intro _
      rw [length_cons, range_eq_range', range'_succ, zip_cons_cons,
        zipIdx_cons, drop_succ_cons, drop_zero,
        zip_range'_map (fun key => (key.1, g key)) keys (0 + 1)]
  show (((range tx.accountKeys.length).zip (loadedAccountsAt sdk v tx rent payer)).filter
    fun entry => tx.writes entry.1).map Prod.snd = _
  rw [hzip, filter_cons, filter_map]
  split_ifs
  · rw [map_cons, map_map]
    rfl
  · rw [map_map]
    rfl

lemma keys_writtenAccounts {accounts accounts' : List KeyedAccountSharedData}
    (h : accounts'.map Prod.fst = accounts.map Prod.fst) :
    (writtenAccounts tx accounts').map Prod.fst = (writtenAccounts tx accounts).map Prod.fst := by
  have hkeys (accounts : List KeyedAccountSharedData) : (writtenAccounts tx accounts).map Prod.fst
      = (((range tx.accountKeys.length).zip (accounts.map Prod.fst)).filter
        fun entry => tx.writes entry.1).map Prod.snd := by
    rw [zip_map_right, filter_map, map_map]
    show (map Prod.snd _).map Prod.fst = _
    rw [map_map]
    rfl
  rw [hkeys, hkeys, h]

lemma nodup_writtenAccounts (hnodup : tx.accountKeys.Nodup) (payer : AccountSharedData) :
    ((writtenAccounts tx (loadedAccountsAt sdk v tx rent payer)).map Prod.fst).Nodup := by
  have hsub : ((writtenAccounts tx (loadedAccountsAt sdk v tx rent payer)).map Prod.fst).Sublist
      ((loadedAccountsAt sdk v tx rent payer).map Prod.fst) := by
    rw [writtenAccounts_loaded]
    refine List.Sublist.map _ (@List.Sublist.append _ _ [(tx.feePayer, payer)] _ _ ?_
      (filter_sublist.map _))
    split_ifs
    · exact List.Sublist.refl _
    · exact nil_sublist _
  rw [keys_loadedAccountsAt] at hsub
  exact hnodup.sublist hsub

namespace TransactionBatchProcessor

variable {κ δ : Type}

/-- The transactions `items` are processed one after another, each from the accounts that the ones
before it leave. They give `results` and leave `accounts'`, and the bank is shown what is in `log`. -/
inductive Processes (p : TransactionBatchProcessor κ δ) (sdk : Sdk)
    (env : TransactionProcessingEnvironment) (config : TransactionProcessingConfig) :
    Accounts → List (SvmTransaction × TransactionCheckResult) →
      List (TransactionProcessingResult δ) → List Inspection → Accounts → Prop
  | nil {accounts : Accounts} : Processes p sdk env config accounts [] [] [] accounts
  | cons {accounts accounts' : Accounts} {tx : SvmTransaction} {checkResult : TransactionCheckResult}
      {items : List (SvmTransaction × TransactionCheckResult)} {loadResult : TransactionLoadResult}
      {keys : List Pubkey} {results : List (TransactionProcessingResult δ)}
      {shown log : List Inspection}
      (hload : LoadedAs sdk env config (getAccountSharedData accounts) tx checkResult loadResult keys)
      (hshown : ∀ i ∈ shown, i.state = (getAccountSharedData accounts i.key).map Prod.fst)
      (hkeys : ∀ key ∈ keys, ∃ i ∈ shown, i.key = key ∧ i.isWritable = true)
      (hrest : Processes p sdk env config
        (storeAccounts accounts p.slot (accountsToStore tx (p.outcome config tx loadResult)))
        items results log accounts') :
      Processes p sdk env config accounts ((tx, checkResult) :: items)
        (p.outcome config tx loadResult :: results) (shown ++ log) accounts'

variable {p : TransactionBatchProcessor κ δ} {accounts accounts' : Accounts}
  {items : List (SvmTransaction × TransactionCheckResult)}
  {results : List (TransactionProcessingResult δ)} {total : ℕ}

lemma Processes.accounts_eq (h : Processes p sdk env config accounts items results log accounts') :
    accounts' = storeAccounts accounts p.slot
      (collectAccountsToStore (items.map Prod.fst) results) := by
  induction h with
  | nil => rfl
  | cons hload hshown hkeys hrest ih =>
    rw [ih, map_cons, collectAccountsToStore_cons, storeAccounts_append]

lemma processes_foldlM {s s' : BatchState κ δ}
    (hs : Shows (getAccountSharedData accounts) f s.accountLoader)
    (h : items.foldlM (p.processTransaction sdk env config total) s = .ok s') :
    ∃ results log accounts', s'.processingResults = s.processingResults ++ results
      ∧ s'.accountLoader.inspected = s.accountLoader.inspected ++ log
      ∧ Processes p sdk env config accounts items results log accounts'
      ∧ Shows (getAccountSharedData accounts') f s'.accountLoader := by
  induction items generalizing accounts s with
  | nil =>
    cases h
    exact ⟨[], [], accounts, (append_nil _).symm, (append_nil _).symm, .nil, hs⟩
  | cons item items ih =>
    obtain ⟨s1, hturn, hrest⟩ := Except.bind_eq_ok.1 h
    obtain ⟨-, keys, hload, hseen⟩ := @loadPhase_spec _ f sdk env config item.1 _ _ hs hs item.2
    obtain ⟨shown, hshown, hstate, hkeys⟩ := hseen.logged
    obtain ⟨r, rfl, hresults, hshows, hinspected⟩ := processTransaction_spec hs hturn
    rw [← getAccountSharedData_storeAccounts] at hshows
    obtain ⟨results, log, accounts', hres, hlog, hprocesses, hend⟩ := ih hshows hrest
    refine ⟨_ :: results, shown ++ log, accounts', ?_, ?_, .cons hload hstate hkeys hprocesses, hend⟩
    · rw [hres, hresults, append_assoc, singleton_append]
    · rw [hlog, hinspected, hshown, append_assoc]

lemma inspectionsOf_ok {s s' : BatchState κ δ}
    (h : items.foldlM (p.processTransaction sdk env config total) s = .ok s') :
    p.inspectionsOf sdk env config total s items = s'.accountLoader.inspected := by
  induction items generalizing s with
  | nil =>
    cases h
    rfl
  | cons item items ih =>
    obtain ⟨s1, hturn, hrest⟩ := Except.bind_eq_ok.1 h
    rw [inspectionsOf, hturn]
    exact ih hrest

/-- Also where a batch does not come to its end, some of its transactions are processed one after
another, and at most one more is loaded. -/
lemma inspectionsOf_spec {s : BatchState κ δ}
    (hs : Shows (getAccountSharedData accounts) f s.accountLoader) :
    ∃ done results log accounts' shown, done <+: items
      ∧ Processes p sdk env config accounts done results log accounts'
      ∧ (∀ i ∈ shown, i.state = (getAccountSharedData accounts' i.key).map Prod.fst)
      ∧ p.inspectionsOf sdk env config total s items
        = s.accountLoader.inspected ++ (log ++ shown) := by
  induction items generalizing accounts s with
  | nil =>
    exact ⟨[], [], [], accounts, [], nil_prefix, .nil, nofun, (append_nil _).symm⟩
  | cons item items ih =>
    obtain ⟨-, keys, hload, hseen⟩ := @loadPhase_spec _ f sdk env config item.1 _ _ hs hs item.2
    obtain ⟨shown, hshown, hstate, hkeys⟩ := hseen.logged
    rw [inspectionsOf]
    split
    · next s1 hturn =>
      obtain ⟨r, rfl, hresults, hshows, hinspected⟩ := processTransaction_spec hs hturn
      rw [← getAccountSharedData_storeAccounts] at hshows
      obtain ⟨done, results, log, accounts', last, hdone, hprocesses, hlast, heq⟩ := ih hshows
      refine ⟨item :: done, _ :: results, shown ++ log, accounts', last,
        cons_prefix_cons.2 ⟨rfl, hdone⟩, .cons hload hstate hkeys hprocesses, hlast, ?_⟩
      rw [heq, hinspected, hshown, append_assoc, append_assoc]
    · exact ⟨[], [], [], accounts, shown, nil_prefix, .nil, hstate, hshown⟩

lemma cancelled_errors {s : BatchState κ δ}
    (h : items.foldlM (p.processTransaction sdk env config total) s = .error (.cancelled results)) :
    ∀ r ∈ results, ∃ e, r = .error e := by
  by_contra hno
  refine foldlM_ne_error (fun s item hturn => hno ?_) _ _ h
  rcases Except.bind_eq_error.1 hturn with hturn | ⟨⟨r, l, cache⟩, -, hturn⟩
  · cases (processLoadResult_error hturn).1
  · dsimp only at hturn
    split_ifs at hturn with hcancel
    · cases hturn
      intro r' hr'
      simp only [mem_append, mem_map, mem_singleton] at hr'
      rcases hr' with (⟨_, -, rfl⟩ | rfl) | hr'
      · exact ⟨_, rfl⟩
      · cases r' with
        | error e => exact ⟨e, rfl⟩
        | ok processedTx => cases hcancel.2
      · exact ⟨_, eq_of_mem_replicate hr'⟩
    · cases hturn

lemma collectAccountsToStore_errors (txs : List SvmTransaction)
    (h : ∀ r ∈ results, ∃ e, r = .error e) : collectAccountsToStore txs results = [] := by
  rw [collectAccountsToStore_eq, flatMap_eq_nil_iff]
  rintro ⟨r, tx⟩ hr
  obtain ⟨e, rfl⟩ := h r (of_mem_zip hr).1
  rfl

lemma loadAndExecute_cases (hover : config.accountOverrides = none)
    (txs : List SvmTransaction) (checkResults : List TransactionCheckResult) :
    (∃ accounts', Processes p sdk env config accounts (txs.zip checkResults)
      (p.loadAndExecuteSanitizedTransactions sdk env config accounts txs checkResults).processingResults
      (p.batchInspections sdk env config accounts txs checkResults) accounts')
    ∨ ∀ r ∈ (p.loadAndExecuteSanitizedTransactions sdk env config accounts txs
      checkResults).processingResults, ∃ e, r = .error e := by
  unfold loadAndExecuteSanitizedTransactions
  rcases hbatch : p.processBatch sdk env config accounts txs checkResults with (_ | results) | s
  · exact .inr fun r hr => ⟨_, eq_of_mem_replicate hr⟩
  · refine .inr ?_
    rw [processBatch_eq] at hbatch
    split_ifs at hbatch
    · cases hbatch
    · exact cancelled_errors hbatch
  · refine .inl ?_
    rw [processBatch_eq] at hbatch
    split_ifs at hbatch with hlimit
    obtain ⟨results, log, accounts', hresults, hlog, hprocesses, -⟩ :=
      processes_foldlM (@shows_start _ _ p env config hover accounts) hbatch
    have hinspections : p.batchInspections sdk env config accounts txs checkResults = log := by
      rw [batchInspections, if_neg hlimit, inspectionsOf_ok hbatch, hlog]
      rfl
    refine ⟨accounts', ?_⟩
    show Processes p sdk env config accounts _ s.processingResults _ accounts'
    rw [hresults, hinspections]
    exact hprocesses

end TransactionBatchProcessor

end BlackBull.Svm
