import BlackBull.Lib.Total
import BlackBull.Proofs.TransactionEffects
import BlackBull.Runtime.Bank

/-!
# Lamports are neither made nor lost

A processed transaction takes its fee out of the accounts and leaves their sum otherwise as it was
(`total_processed`).
-/

namespace BlackBull.Runtime

open Svm AccountLoader TransactionBatchProcessor List Bank CheckedTransaction FeeDetails

instance : Finite Pubkey := by
  have hbyte : Finite UInt8 := Finite.of_injective UInt8.toFin fun a b h => UInt8.toFin_inj.1 h
  have hlists : Finite {w : List UInt8 | w.length = 32} := (List.finite_length_eq UInt8 32).to_subtype
  refine Finite.of_injective (fun key : Pubkey =>
    (⟨key.bytes, key.length_eq⟩ : {w : List UInt8 | w.length = 32})) ?_
  rintro ⟨w, hw⟩ ⟨w', hw'⟩ h
  cases h
  rfl

/-! ### Sums of lamports -/

def lamportsAt (accounts : Accounts) (key : Pubkey) : ℕ :=
  (accounts key).elim 0 fun entry => entry.1.lamports.toNat

noncomputable def totalLamports (accounts : Accounts) : ℕ := total (lamportsAt accounts)

lemma lamportsAt_of_some {accounts : Accounts} {key : Pubkey} {account : AccountSharedData}
    {slot : ℕ} (h : accounts key = some (account, slot)) :
    lamportsAt accounts key = account.lamports.toNat := by
  rw [lamportsAt, h]
  rfl

lemma lamportsAt_getAccountSharedData (accounts : Accounts) (key : Pubkey) :
    lamportsAt (getAccountSharedData accounts) key = lamportsAt accounts key := by
  unfold lamportsAt getAccountSharedData
  cases accounts key with
  | none => rfl
  | some entry =>
    by_cases h : entry.1.lamports = 0 <;> simp [Option.filter, h]

lemma lamportsAt_storeAccounts (accounts : Accounts) (slot : ℕ)
    (toStore : List KeyedAccountSharedData) :
    lamportsAt (storeAccounts accounts slot toStore)
      = updates (lamportsAt accounts) (toStore.map fun entry => (entry.1, entry.2.lamports.toNat)) := by
  induction toStore generalizing accounts with
  | nil => rfl
  | cons entry toStore ih =>
    have hentry : lamportsAt (Function.update accounts entry.1 (some (entry.2, slot)))
        = Function.update (lamportsAt accounts) entry.1 entry.2.lamports.toNat := by
      funext key
      by_cases hkey : key = entry.1
      · subst hkey
        simp [lamportsAt]
      · simp [lamportsAt, hkey]
    show lamportsAt (storeAccounts (Function.update accounts _ _) slot toStore) = _
    rw [ih, hentry]
    rfl

lemma totalLamports_storeAccounts (accounts : Accounts) (slot : ℕ)
    (toStore : List KeyedAccountSharedData) (h : (toStore.map Prod.fst).Nodup) :
    totalLamports (storeAccounts accounts slot toStore)
        + (toStore.map fun entry => lamportsAt accounts entry.1).sum
      = totalLamports accounts + (toStore.map fun entry => entry.2.lamports.toNat).sum := by
  have hnodup : ((toStore.map fun entry => (entry.1, entry.2.lamports.toNat)).map Prod.fst).Nodup := by
    rwa [map_map]
  have := total_updates hnodup (lamportsAt accounts)
  rw [← lamportsAt_storeAccounts accounts slot, map_map, map_map] at this
  exact this

/-! ### One transaction -/

variable {κ δ : Type} {p : TransactionBatchProcessor κ δ} {sdk : Sdk}
  {env : TransactionProcessingEnvironment} {config : TransactionProcessingConfig}
  {tx : SvmTransaction} {accounts accounts' : Accounts}
  {results : List (TransactionProcessingResult δ)} {b b' : Bank}
  {batch : List CheckedTransaction}

/-- The accounts of a transaction that are not stored. -/
def unwrittenAccounts (tx : SvmTransaction) (accounts : List KeyedAccountSharedData) :
    List KeyedAccountSharedData :=
  (((range tx.accountKeys.length).zip accounts).filter fun entry => !tx.writes entry.1).map Prod.snd

lemma sum_written_add_unwritten {accounts : List KeyedAccountSharedData}
    (h : accounts.length = tx.accountKeys.length) :
    transactionAccountsLamportsSum (writtenAccounts tx accounts)
        + transactionAccountsLamportsSum (unwrittenAccounts tx accounts)
      = transactionAccountsLamportsSum accounts := by
  have hsplit := filter_append_perm (fun entry : ℕ × KeyedAccountSharedData => tx.writes entry.1)
    ((range tx.accountKeys.length).zip accounts)
  have hsum := ((hsplit.map Prod.snd).map fun entry => entry.2.lamports.toNat).sum_eq
  rw [map_snd_zip (by rw [length_range, h]), map_append, map_append, sum_append] at hsum
  exact hsum

/-- Execution keeps the places of the accounts, and the lamports of those that are not stored. -/
structure KeepsUnwritten (p : TransactionBatchProcessor κ δ) : Prop where
  keys : ∀ tx loaded, (p.execute tx loaded).accounts.map Prod.fst = loaded.accounts.map Prod.fst
  lamports : ∀ tx loaded, (unwrittenAccounts tx (p.execute tx loaded).accounts).map (·.2.lamports)
    = (unwrittenAccounts tx loaded.accounts).map (·.2.lamports)

lemma KeepsUnwritten.sum_written {loadedTx : LoadedTransaction} (hp : KeepsUnwritten p)
    (hsum : transactionAccountsLamportsSum (p.execute tx loadedTx).accounts
      = transactionAccountsLamportsSum loadedTx.accounts)
    (hkeys : loadedTx.accounts.map Prod.fst = tx.accountKeys) :
    transactionAccountsLamportsSum (writtenAccounts tx (p.execute tx loadedTx).accounts)
      = transactionAccountsLamportsSum (writtenAccounts tx loadedTx.accounts) := by
  have hold := @sum_written_add_unwritten tx loadedTx.accounts (by rw [← hkeys, length_map])
  have hnew := @sum_written_add_unwritten tx (p.execute tx loadedTx).accounts
    (by rw [← hkeys, ← hp.keys, length_map])
  have hrest : transactionAccountsLamportsSum (unwrittenAccounts tx (p.execute tx loadedTx).accounts)
      = transactionAccountsLamportsSum (unwrittenAccounts tx loadedTx.accounts) := by
    have := congrArg (map UInt64.toNat) (hp.lamports tx loadedTx)
    rw [map_map, map_map] at this
    exact congrArg sum this
  omega

variable (sdk) in
def feeTaken : TransactionProcessingResult δ → ℕ
  | .ok processedTx => (sdk.totalFee (feeDetailsOf processedTx)).toNat
  | .error _ => 0

lemma total_rollback {details : CheckedTransactionDetails} {validated : ValidatedTransactionDetails}
    (h : Charged sdk env (getAccountSharedData accounts) tx details validated) (slot : ℕ) :
    totalLamports (storeAccounts accounts slot validated.rollbackAccounts.iter)
      + (sdk.totalFee details.feeDetails).toNat = totalLamports accounts := by
  obtain ⟨account, slot0, lamports, nonceInfo, hpayer, hlamports, haccount, hrollback, -, hinfo⟩ :=
    h.payer
  have hpay := lamportsAt_of_some hpayer
  rw [lamportsAt_getAccountSharedData] at hpay
  rw [hrollback, haccount]
  cases nonceInfo with
  | none =>
    have := totalLamports_storeAccounts accounts slot (RollbackAccounts.iter
      (RollbackAccounts.new none tx.feePayer
        { updateRentExemptStatusForAccount env.rent account with lamports } account.rentEpoch))
      (nodup_singleton _)
    simp only [RollbackAccounts.new, RollbackAccounts.iter, map_cons, map_nil,
      sum_singleton] at this ⊢
    omega
  | some info =>
    obtain ⟨nonceAccount, nonceSlot, hnonce, nonceData, -, -, hadvanced⟩ := hinfo info rfl
    have hnon := lamportsAt_of_some hnonce
    rw [lamportsAt_getAccountSharedData] at hnon
    unfold RollbackAccounts.new
    dsimp only
    split_ifs with hsame
    · have := totalLamports_storeAccounts accounts slot [(tx.feePayer,
        { updateRentExemptStatusForAccount env.rent account with
          lamports, data := info.account.data })] (nodup_singleton _)
      simp only [RollbackAccounts.iter, map_cons, map_nil, sum_singleton] at this ⊢
      omega
    · have := totalLamports_storeAccounts accounts slot [(tx.feePayer,
        { updateRentExemptStatusForAccount env.rent account with lamports }),
          (info.address, info.account)] (by simpa using hsame)
      simp only [RollbackAccounts.iter, map_cons, map_nil, sum_cons,
        hadvanced] at this ⊢
      omega

lemma lamports_loadedAt {rent : Rent} {v : Accounts} {key : Pubkey × ℕ} (h : key.1 ≠ instructionsId) :
    (loadedAt sdk v tx rent key).lamports.toNat = lamportsAt v key.1 := by
  unfold loadedAt lamportsAt
  rw [if_neg h]
  cases v key.1 with
  | none => rfl
  | some entry =>
    dsimp only [Option.elim_some]
    split_ifs
    · rw [lamports_updateRentExemptStatus]
    · rfl

lemma sum_written_loaded (hsan : tx.Sanitized) {rent : Rent} {v : Accounts}
    {payer : AccountSharedData} {fee : ℕ}
    (hpayer : payer.lamports.toNat + fee = lamportsAt v tx.feePayer) :
    ((writtenAccounts tx (loadedAccountsAt sdk v tx rent payer)).map fun entry =>
        entry.2.lamports.toNat).sum + fee
      = ((writtenAccounts tx (loadedAccountsAt sdk v tx rent payer)).map fun entry =>
        lamportsAt v entry.1).sum := by
  have hrest : ((tx.accountKeys.zipIdx.drop 1).filter fun key => tx.writes key.2).map
        (fun key => (loadedAt sdk v tx rent key).lamports.toNat)
      = ((tx.accountKeys.zipIdx.drop 1).filter fun key => tx.writes key.2).map
        (fun key => lamportsAt v key.1) := by
    refine map_congr_left fun key hkey => lamports_loadedAt fun heq => ?_
    obtain ⟨hmem, hwrites⟩ := mem_filter.1 hkey
    have hreadonly := hsan.instructions_readonly key (mem_of_mem_drop hmem) heq
    rw [SvmTransaction.writes, hreadonly] at hwrites
    cases hwrites
  rw [writtenAccounts_loaded, if_pos hsan.writes_payer]
  simp only [map_append, map_cons, map_nil, map_map, Function.comp_def,
    sum_append, sum_singleton, hrest]
  omega

lemma outcome_cases {v : Accounts} {checkResult : TransactionCheckResult}
    {loadResult : TransactionLoadResult} {keys : List Pubkey}
    (h : LoadedAs sdk env config v tx checkResult loadResult keys) :
    (∃ e, p.outcome config tx loadResult = .error e)
      ∨ ∃ details validated processedTx, checkResult = .ok details
        ∧ Charged sdk env v tx details validated
        ∧ p.outcome config tx loadResult = .ok processedTx
        ∧ feeDetailsOf processedTx = details.feeDetails
        ∧ (accountsToStore tx (.ok processedTx) = validated.rollbackAccounts.iter
            ∧ details.nonceAddress.toList ++ [tx.feePayer] ⊆ keys
          ∨ ∃ loadedTx, transactionAccountsLamportsSum (p.execute tx loadedTx).accounts
              = transactionAccountsLamportsSum loadedTx.accounts
            ∧ loadedTx.accounts
              = loadedAccountsAt sdk v tx env.rent validated.loadedFeePayerAccount.account
            ∧ accountsToStore tx (.ok processedTx)
              = writtenAccounts tx (p.execute tx loadedTx).accounts
            ∧ [tx.feePayer] ++ shownWritable tx (tx.accountKeys.zipIdx.drop 1) ⊆ keys) := by
  cases h with
  | unchecked | invalid h => exact .inl ⟨_, rfl⟩
  | feesOnly h hrollback hfee =>
    have hcharged := validatedAt_ok h
    dsimp only [outcome]
    split_ifs
    · exact .inl ⟨_, rfl⟩
    · exact .inr ⟨_, _, _, rfl, hcharged, rfl, hfee.trans hcharged.feeDetails,
        .inl ⟨congrArg RollbackAccounts.iter hrollback, Subset.refl _⟩⟩
  | @loaded details validated loadedTx h haccounts hrollback hfee =>
    have hcharged := validatedAt_ok h
    dsimp only [outcome]
    unfold executedOutcome
    split
    · exact .inl ⟨_, rfl⟩
    refine .inr ⟨_, _, _, rfl, hcharged, rfl, hfee.trans hcharged.feeDetails, ?_⟩
    unfold accountsToStore
    dsimp only
    rcases hs : (p.executeLoadedTransaction tx loadedTx).status with e | _
    · exact .inl ⟨congrArg RollbackAccounts.iter hrollback, subset_append_left _ _⟩
    · obtain ⟨_, -, hsum⟩ := Except.bind_eq_ok.1 hs
      refine .inr ⟨loadedTx, by_contra fun hne => ?_, haccounts, rfl, ?_⟩
      · cases hsum.symm.trans (if_neg hne)
      rw [append_assoc]
      exact subset_append_right _ _

theorem total_processed (hp : KeepsUnwritten p) (hsan : tx.Sanitized) (slot : ℕ)
    {checkResult : TransactionCheckResult} {loadResult : TransactionLoadResult} {keys : List Pubkey}
    (h : LoadedAs sdk env config (getAccountSharedData accounts) tx checkResult loadResult keys) :
    totalLamports (storeAccounts accounts slot
        (accountsToStore tx (p.outcome config tx loadResult)))
      + feeTaken sdk (p.outcome config tx loadResult) = totalLamports accounts := by
  rcases outcome_cases h with ⟨e, he⟩ | ⟨details, validated, processedTx, -, hcharged, he, hfee, hstored⟩
  · rw [he]
    rfl
  rw [he, feeTaken, hfee]
  rcases hstored with ⟨hstored, -⟩ | ⟨loadedTx, hsum, haccounts, hstored, -⟩ <;> rw [hstored]
  · exact total_rollback hcharged slot
  · obtain ⟨account, slot0, lamports, nonceInfo, hpayer, hlamports, haccount, -⟩ := hcharged.payer
    have hpay := lamportsAt_of_some hpayer
    have hkeys : ((writtenAccounts tx (p.execute tx loadedTx).accounts).map Prod.fst)
        = (writtenAccounts tx loadedTx.accounts).map Prod.fst :=
      keys_writtenAccounts (hp.keys tx loadedTx)
    have hnodup : ((writtenAccounts tx (p.execute tx loadedTx).accounts).map Prod.fst).Nodup := by
      rw [hkeys, haccounts]
      exact nodup_writtenAccounts hsan.nodup _
    have hstore := totalLamports_storeAccounts accounts slot _ hnodup
    have hbalanced := hp.sum_written hsum (by rw [haccounts, keys_loadedAccountsAt])
    unfold transactionAccountsLamportsSum at hbalanced
    have hold : ((writtenAccounts tx (p.execute tx loadedTx).accounts).map fun entry =>
          lamportsAt accounts entry.1).sum
        = ((writtenAccounts tx loadedTx.accounts).map fun entry =>
          lamportsAt (getAccountSharedData accounts) entry.1).sum := by
      have := congrArg (map (lamportsAt accounts)) hkeys
      rw [map_map, map_map] at this
      simp only [lamportsAt_getAccountSharedData]
      exact congrArg sum this
    have hfees := @sum_written_loaded sdk tx hsan env.rent (getAccountSharedData accounts)
      validated.loadedFeePayerAccount.account (sdk.totalFee details.feeDetails).toNat
      (by rw [haccount, hpay]; exact hlamports)
    rw [← haccounts] at hfees
    omega

lemma total_processes (hp : KeepsUnwritten p)
    {items : List (SvmTransaction × TransactionCheckResult)}
    (hsan : ∀ item ∈ items, item.1.Sanitized) {log : List Inspection}
    (h : Processes p sdk env config accounts items results log accounts') :
    totalLamports accounts' + (results.map (feeTaken sdk)).sum = totalLamports accounts := by
  induction h with
  | nil => rfl
  | cons hload hshown hkeys hrest ih =>
    have hone := total_processed hp (hsan _ mem_cons_self) p.slot hload
    have hmore := ih fun item hitem => hsan item (mem_cons_of_mem _ hitem)
    rw [map_cons, sum_cons]
    dsimp only at hone
    omega

/-! ### Collecting the fees of a batch -/

lemma toNat_saturatingAdd {a b : UInt64} (h : a.toNat + b.toNat < 2 ^ 64) :
    (saturatingAdd a b).toNat = a.toNat + b.toNat := by
  unfold saturatingAdd
  rw [Nat.min_eq_left (by omega), UInt64.toNat_ofNat_of_lt' h]

def feesOf (fee : FeeDetails → UInt64) : TransactionProcessingResult δ → ℕ
  | .ok processedTx => (fee (feeDetailsOf processedTx)).toNat
  | .error _ => 0

lemma foldl_accumulate {fee : FeeDetails → UInt64}
    (hfee : ∀ {a b}, (fee a).toNat + (fee b).toNat < 2 ^ 64 →
      (fee (sdk.accumulate a b)).toNat = (fee a).toNat + (fee b).toNat)
    (total : FeeDetails) (h : (fee total).toNat + (results.map (feesOf fee)).sum < 2 ^ 64) :
    (fee (results.foldl (accumulateResult sdk) total)).toNat
      = (fee total).toNat + (results.map (feesOf fee)).sum := by
  induction results generalizing total with
  | nil => rfl
  | cons result results ih =>
    rw [map_cons, sum_cons] at h
    rw [map_cons, sum_cons]
    cases result with
    | error e =>
      simp only [feesOf, Nat.zero_add] at h ⊢
      exact ih total h
    | ok processedTx =>
      simp only [feesOf] at h ⊢
      have hone := @hfee total (feeDetailsOf processedTx) (by omega)
      have hrest := ih (sdk.accumulate total (feeDetailsOf processedTx)) (by omega)
      show (fee (results.foldl (accumulateResult sdk) (sdk.accumulate total _))).toNat = _
      omega

def FeeDetails.Exact (fee : FeeDetails) : Prop :=
  fee.transactionFee.toNat + fee.prioritizationFee.toNat < 2 ^ 64

lemma feeTaken_processes {items : List (SvmTransaction × TransactionCheckResult)}
    (hexact : ∀ item ∈ items, ∀ details, item.2 = .ok details → FeeDetails.Exact details.feeDetails)
    {log : List Inspection}
    (h : Processes p sdk env config accounts items results log accounts') :
    (results.map (feeTaken sdk)).sum = (results.map (feesOf transactionFee)).sum
      + (results.map (feesOf prioritizationFee)).sum := by
  induction h with
  | nil => rfl
  | cons hload hshown hkeys hrest ih =>
    have hmore := ih fun item hitem => hexact item (mem_cons_of_mem _ hitem)
    simp
    -- the fee details of a result are those of the check
    rcases @outcome_cases _ _ p _ _ _ _ _ _ _ _ hload with
      ⟨e, he⟩ | ⟨details, _, _, hcheck, -, he, hfee, -⟩ <;> rw [he]
    · simpa [feeTaken, feesOf] using hmore
    · have := sdk.toNat_totalFee (hfee ▸ hexact _ mem_cons_self details hcheck)
      simp only [feeTaken, feesOf]
      omega

/-! ### The bank -/

/-- While the bank is open its capitalization counts the collected fees. -/
def InBalance (b : Bank) : Prop :=
  b.capitalization.toNat = totalLamports b.accounts + b.collectorFeeDetails.transactionFee.toNat
    + b.collectorFeeDetails.priorityFee.toNat

/-- A transaction whose fees can be taken as they are. -/
structure Bank.CheckedTransaction.Charged (t : CheckedTransaction) (lamportsPerSignature : UInt64) :
    Prop where
  sanitized : t.tx.Sanitized
  fee : FeeDetails.Exact (t.feeDetails lamportsPerSignature)

lemma inBalance_collect (hb : InBalance b)
    (htotal : totalLamports (storeAccounts b.accounts b.slot
        (collectAccountsToStore (batch.map CheckedTransaction.tx) results))
      + ((results.map (feesOf transactionFee)).sum
        + (results.map (feesOf prioritizationFee)).sum) = totalLamports b.accounts) :
    InBalance (b.commitTransactions sdk (batch.map CheckedTransaction.tx) results) := by
  have hcap := b.capitalization.toNat_lt
  unfold InBalance at hb
  have htx := @foldl_accumulate _ sdk results transactionFee sdk.transactionFee_accumulate ⟨0, 0⟩
    (by simp; omega)
  have hprio := @foldl_accumulate _ sdk results prioritizationFee
    sdk.prioritizationFee_accumulate ⟨0, 0⟩ (by simp; omega)
  simp at htx hprio
  unfold InBalance commitTransactions filterProgramErrorsAndCollectFeeDetails
    CollectorFeeDetails.accumulate
  dsimp only
  rw [toNat_saturatingAdd (by omega), toNat_saturatingAdd (by omega)]
  omega

lemma inBalance_commit (hp : KeepsUnwritten p) (hslot : p.slot = b.slot)
    (hover : config.accountOverrides = none)
    (hbatch : ∀ t ∈ batch, t.Charged b.lamportsPerSignature) (hb : InBalance b) :
    InBalance (b.loadExecuteAndCommitTransactions p sdk env config batch) := by
  refine inBalance_collect hb ?_
  rcases @loadAndExecute_cases sdk env config _ _ p b.accounts hover
    (batch.map tx) (batch.map b.checkResult) with ⟨accounts', h⟩ | h
  · rw [zip_map'] at h
    have htotal := total_processes hp (forall_mem_map.2 fun t ht => (hbatch t ht).sanitized) h
    have hfees := feeTaken_processes (forall_mem_map.2 fun t ht details hdetails => by
      obtain ⟨_, -, rfl⟩ := Except.map_eq_ok.1 hdetails
      exact (hbatch t ht).fee) h
    rw [← zip_map'] at h
    rw [h.accounts_eq, hslot, map_fst_zip (by simp), hfees] at htotal
    exact htotal
  · have hnone (fee : FeeDetails → UInt64) : ((p.loadAndExecuteSanitizedTransactions sdk env config
        b.accounts (batch.map tx)
        (batch.map b.checkResult)).processingResults.map (feesOf fee)).sum = 0 := by
      refine sum_eq_zero fun n hn => ?_
      obtain ⟨r, hr, rfl⟩ := mem_map.1 hn
      obtain ⟨e, rfl⟩ := h r hr
      rfl
    rw [hnone, hnone, collectAccountsToStore_errors _ h]
    rfl

/-! ### Paying the fees out -/

def lostFees (d : CollectorFeeDetails) : ℕ := if d.transactionFee = 0 then d.priorityFee.toNat else 0

lemma deposit_add_burn {d : CollectorFeeDetails}
    (h : d.transactionFee.toNat + d.priorityFee.toNat < 2 ^ 64) :
    (calculateRewardAndBurnFeeDetails d).deposit.toNat
        + (calculateRewardAndBurnFeeDetails d).burn.toNat + lostFees d
      = d.transactionFee.toNat + d.priorityFee.toNat := by
  unfold calculateRewardAndBurnFeeDetails lostFees
  split_ifs with hzero
  · simp [hzero]
  · have hburn : (d.transactionFee * burnPercent / 100).toNat ≤ d.transactionFee.toNat := by
      rw [UInt64.toNat_div]
      calc d.transactionFee.toNat * 50 % 2 ^ 64 / 100
          ≤ d.transactionFee.toNat * 50 / 100 := Nat.div_le_div_right (Nat.mod_le _ _)
        _ ≤ d.transactionFee.toNat := by omega
    have hsub : (saturatingSub d.transactionFee (d.transactionFee * burnPercent / 100)).toNat
        = d.transactionFee.toNat - (d.transactionFee * burnPercent / 100).toNat := by
      unfold saturatingSub
      rw [UInt64.toNat_ofNat_of_lt' (lt_of_le_of_lt (Nat.sub_le _ _) (UInt64.toNat_lt _))]
    dsimp only
    rw [toNat_saturatingAdd (by omega)]
    omega

lemma totalLamports_storeAccount (b : Bank) (key : Pubkey) (account : AccountSharedData) :
    totalLamports (b.storeAccount key account).accounts + lamportsAt b.accounts key
      = totalLamports b.accounts + account.lamports.toNat := by
  have := totalLamports_storeAccounts b.accounts b.slot [(key, account)] (nodup_singleton _)
  rwa [map_singleton] at this

lemma lamports_getAccount (b : Bank) (key : Pubkey) :
    ((b.getAccount key).getD default).lamports.toNat = lamportsAt b.accounts key := by
  rw [← lamportsAt_getAccountSharedData]
  unfold Bank.getAccount lamportsAt
  cases getAccountSharedData b.accounts key <;> rfl

lemma checkedAdd_eq_some {a fees c : UInt64} (h : checkedAdd a fees = some c) :
    c.toNat = a.toNat + fees.toNat := by
  unfold checkedAdd at h
  split_ifs at h with hlt
  cases h
  rw [UInt64.toNat_add, Nat.mod_eq_of_lt hlt]

lemma depositedAccount_ok {collectorId : Pubkey} {fees : UInt64} {account : AccountSharedData}
    (h : b.depositedAccount collectorId fees = .ok account) :
    account.lamports.toNat = lamportsAt b.accounts collectorId + fees.toNat := by
  rw [← lamports_getAccount]
  unfold Bank.depositedAccount at h
  dsimp only at h
  split at h
  · split at h
    · cases h
    · next lamports hadd =>
      split_ifs at h
      · obtain ⟨-, -, h⟩ := Except.bind_eq_ok.1 h
        cases h
        exact checkedAdd_eq_some hadd
      · cases h
        exact checkedAdd_eq_some hadd
  · obtain ⟨-, h⟩ := ite_error_eq_ok.1 h
    split at h
    · cases h
    · next lamports hadd =>
      split_ifs at h
      cases h
      exact checkedAdd_eq_some hadd

lemma depositOrBurnFee_some {deposit burned : UInt64}
    (h : b.depositOrBurnFee deposit = some (b', burned)) :
    totalLamports b'.accounts + burned.toNat = totalLamports b.accounts + deposit.toNat
      ∧ b'.capitalization = b.capitalization ∧ burned ≤ deposit := by
  unfold Bank.depositOrBurnFee at h
  split_ifs at h with hzero
  · cases h
    rw [hzero]
    exact ⟨rfl, rfl, UInt64.le_refl _⟩
  · obtain ⟨collectorId, -, h⟩ := Option.map_eq_some_iff.1 h
    split at h
    · next b1 postBalance hdeposit =>
      cases h
      obtain ⟨account, haccount, hstore⟩ := Except.bind_eq_ok.1 hdeposit
      cases hstore
      have htotal := totalLamports_storeAccount b collectorId account
      have hlamports := depositedAccount_ok haccount
      refine ⟨?_, rfl, UInt64.zero_le⟩
      show totalLamports (b.storeAccount collectorId account).accounts + 0 = _
      omega
    · cases h
      exact ⟨rfl, rfl, UInt64.le_refl _⟩

lemma distribute_some (hb : InBalance b) (h : b.distributeTransactionFeeDetails = some b') :
    b'.capitalization.toNat = totalLamports b'.accounts + lostFees b.collectorFeeDetails := by
  have hcap := b.capitalization.toNat_lt
  unfold InBalance at hb
  have hsum : b.collectorFeeDetails.totalTransactionFee.toNat
      = b.collectorFeeDetails.transactionFee.toNat + b.collectorFeeDetails.priorityFee.toNat :=
    toNat_saturatingAdd (by omega)
  unfold Bank.distributeTransactionFeeDetails at h
  split_ifs at h with hzero
  · cases h
    rw [hzero, UInt64.toNat_zero] at hsum
    have hprio : b.collectorFeeDetails.priorityFee.toNat = 0 := by omega
    unfold lostFees
    rw [hprio, ite_self]
    omega
  · obtain ⟨⟨b1, burned⟩, hdeposit, h⟩ := Option.map_eq_some_iff.1 h
    cases h
    obtain ⟨htotal, hsame, hle⟩ := depositOrBurnFee_some hdeposit
    have hparts := deposit_add_burn (d := b.collectorFeeDetails) (by omega)
    have hle' := UInt64.le_iff_toNat_le.1 hle
    have hburn := toNat_saturatingAdd (a := burned)
      (b := (calculateRewardAndBurnFeeDetails b.collectorFeeDetails).burn) (by omega)
    show (b1.capitalization - _).toNat = totalLamports b1.accounts + _
    rw [hsame, UInt64.toNat_sub_of_le _ _ (UInt64.le_iff_toNat_le.2 (by omega))]
    omega

lemma runIncinerator_keeps {lost : ℕ}
    (h : b.capitalization.toNat = totalLamports b.accounts + lost) :
    b.runIncinerator.capitalization.toNat = totalLamports b.runIncinerator.accounts + lost := by
  unfold Bank.runIncinerator
  split
  · next account haccount =>
    obtain ⟨entry, hentry, rfl⟩ := Option.map_eq_some_iff.1 haccount
    have hlamports := lamportsAt_of_some (Option.filter_eq_some_iff.1 hentry).1
    rw [lamportsAt_getAccountSharedData] at hlamports
    have htotal := totalLamports_storeAccount b incineratorId default
    have hle : lamportsAt b.accounts incineratorId ≤ totalLamports b.accounts :=
      apply_le_total _ _
    have hzero : (default : AccountSharedData).lamports.toNat = 0 := rfl
    show (b.capitalization - entry.1.lamports).toNat
      = totalLamports (b.storeAccount incineratorId default).accounts + lost
    rw [UInt64.toNat_sub_of_le _ _ (UInt64.le_iff_toNat_le.2 (by omega))]
    omega
  · exact h

lemma settleFees_some (hb : InBalance b) (h : b.settleFees = some b') :
    b'.capitalization.toNat = totalLamports b'.accounts + lostFees b.collectorFeeDetails := by
  obtain ⟨b1, hdistribute, rfl⟩ := Option.map_eq_some_iff.1 h
  exact runIncinerator_keeps (distribute_some hb hdistribute)

/-! ### A slot -/

def Bank.commitBatches (p : TransactionBatchProcessor κ δ) (sdk : Sdk)
    (env : TransactionProcessingEnvironment) (config : TransactionProcessingConfig) (b : Bank)
    (batches : List (List CheckedTransaction)) : Bank :=
  batches.foldl (fun b batch => b.loadExecuteAndCommitTransactions p sdk env config batch) b

lemma inBalance_commitBatches {batches : List (List CheckedTransaction)}
    (hp : KeepsUnwritten p) (hslot : p.slot = b.slot) (hover : config.accountOverrides = none)
    (hbatches : ∀ batch ∈ batches, ∀ t ∈ batch, t.Charged b.lamportsPerSignature)
    (hb : InBalance b) : InBalance (b.commitBatches p sdk env config batches) := by
  induction batches generalizing b with
  | nil => exact hb
  | cons batch batches ih =>
    refine @ih (b.loadExecuteAndCommitTransactions p sdk env config batch) hslot ?_ ?_
    · exact fun batch' hbatch' => hbatches batch' (mem_cons_of_mem _ hbatch')
    · exact inBalance_commit hp hslot hover (hbatches batch mem_cons_self) hb

lemma lostFees_eq_zero {d : CollectorFeeDetails} :
    lostFees d = 0 ↔ (d.transactionFee = 0 → d.priorityFee = 0) := by
  unfold lostFees
  split_ifs with h
  · exact ⟨fun h' _ => UInt64.toNat_inj.1 h', fun h' => UInt64.toNat_inj.2 (h' h)⟩
  · exact ⟨fun _ h' => absurd h' h, fun _ => rfl⟩

/-- In a slot that begins in balance, the sum of all lamports is again the capitalization after
freezing exactly if priority fees were not collected without a transaction fee; and so is the sum of
what is deposited and burned what was collected. -/
theorem settleFees_balanced_iff (p : TransactionBatchProcessor κ δ) (sdk : Sdk)
    (env : TransactionProcessingEnvironment) (config : TransactionProcessingConfig) (b b' : Bank)
    (batches : List (List CheckedTransaction)) (hp : KeepsUnwritten p)
    (hslot : p.slot = b.slot) (hover : config.accountOverrides = none)
    (hbatches : ∀ batch ∈ batches, ∀ t ∈ batch, t.Charged b.lamportsPerSignature)
    (hcap : b.capitalization.toNat = totalLamports b.accounts)
    (hnone : b.collectorFeeDetails = ⟨0, 0⟩)
    (h : (b.commitBatches p sdk env config batches).settleFees = some b') :
    let collected := (b.commitBatches p sdk env config batches).collectorFeeDetails
    let distribution := calculateRewardAndBurnFeeDetails collected
    (b'.capitalization.toNat = totalLamports b'.accounts
      ↔ (collected.transactionFee = 0 → collected.priorityFee = 0))
    ∧ (distribution.deposit.toNat + distribution.burn.toNat
        = collected.transactionFee.toNat + collected.priorityFee.toNat
      ↔ (collected.transactionFee = 0 → collected.priorityFee = 0)) := by
  intro collected distribution
  have hopen : InBalance b := by
    unfold InBalance
    rw [hnone, hcap]
    rfl
  have hcommitted := @inBalance_commitBatches _ _ p sdk env config b batches hp hslot hover hbatches
    hopen
  have hsettled := settleFees_some hcommitted h
  have hbound := (b.commitBatches p sdk env config batches).capitalization.toNat_lt
  change b'.capitalization.toNat = _ + lostFees collected at hsettled
  have hsum : distribution.deposit.toNat + distribution.burn.toNat + lostFees collected
      = collected.transactionFee.toNat + collected.priorityFee.toNat := by
    refine deposit_add_burn ?_
    change _ = _ + collected.transactionFee.toNat + collected.priorityFee.toNat at hcommitted
    omega
  rw [← lostFees_eq_zero]
  omega

/-! A payer with 10 lamports sends one transaction with one signature and a priority fee of 7. -/

def idleProcessor : TransactionBatchProcessor Unit Unit where
  slot := 7
  builtinProgramCache := ()
  hitMaxLimit _ := false
  replenishProgramCache _ _ _ := ()
  execute _ loaded := { status := .ok (), accounts := loaded.accounts, details := () }
  merge _ _ := ()

lemma keepsUnwritten_idleProcessor : KeepsUnwritten idleProcessor :=
  ⟨fun _ _ => rfl, fun _ _ => rfl⟩

def payerBank (lamportsPerSignature : UInt64) : Bank where
  slot := 7
  accounts := storeAccounts (fun _ => none) 3
    [(payerKey, { (default : AccountSharedData) with lamports := 10 })]
  capitalization := 10
  collectorFeeDetails := ⟨0, 0⟩
  rewards := []
  lamportsPerSignature := lamportsPerSignature
  leader := ⟨⟨List.replicate 32 3, rfl⟩, ⟨List.replicate 32 4, rfl⟩⟩
  leaderVoteAccount := some none
  customCommissionCollector := true
  relaxPostExecMinBalanceCheck := false
  rent := ⟨fun _ _ => true, fun _ => 0⟩
  isReserved _ := false

def priorityTransaction : CheckedTransaction where
  tx := transfer
  signatureCounts := ⟨1, 0, 0, 0⟩
  priorityFeeLamports := 7
  check := .ok (none, ⟨200000, 5, 64, 20000, 64, 4096, 32768⟩, 1000)

lemma totalLamports_payerBank (lamportsPerSignature : UInt64) :
    totalLamports (payerBank lamportsPerSignature).accounts = 10 := by
  have := totalLamports_storeAccounts (fun _ => none) 3
    [(payerKey, { (default : AccountSharedData) with lamports := 10 })] (nodup_singleton _)
  have hempty : totalLamports (fun _ => none) = 0 := by
    unfold totalLamports total
    exact finsum_eq_zero_of_forall_eq_zero fun _ => rfl
  rw [hempty] at this
  exact this

lemma inBalance_payerBank (lamportsPerSignature : UInt64) :
    InBalance (payerBank lamportsPerSignature) := by
  unfold InBalance
  rw [totalLamports_payerBank]
  rfl

lemma charged_priorityTransaction {lamportsPerSignature : UInt64}
    (h : lamportsPerSignature.toNat ≤ 3) : priorityTransaction.Charged lamportsPerSignature where
  sanitized := ⟨by decide, rfl, rfl, by decide⟩
  fee := by
    show (saturatingMul 1 lamportsPerSignature).toNat + 7 < 2 ^ 64
    unfold saturatingMul
    rw [show (1 : UInt64).toNat = 1 from rfl, Nat.one_mul, Nat.min_eq_left (by omega),
      UInt64.toNat_ofNat_of_lt' (lt_of_le_of_lt h (by decide))]
    omega

def payerCommitted (lamportsPerSignature : UInt64) : Bank :=
  (payerBank lamportsPerSignature).commitBatches idleProcessor transferSdk transferEnv transferConfig
    [[priorityTransaction]]

lemma payerCommitted_settles (lamportsPerSignature c : UInt64)
    (h : ((payerCommitted lamportsPerSignature).settleFees.any fun b' => b'.capitalization = c)
      = true) :
    ∃ b', (payerCommitted lamportsPerSignature).settleFees = some b' ∧ b'.capitalization = c := by
  obtain ⟨b', hb', hcap⟩ := (Option.any_eq_true _ _).1 h
  exact ⟨b', hb', of_decide_eq_true hcap⟩

/-- Signatures are free in this slot, and the priority fee is lost. -/
theorem settleFees_freeSignatures :
    (payerBank 0).capitalization.toNat = totalLamports (payerBank 0).accounts
    ∧ ∃ b', (payerCommitted 0).settleFees = some b'
      ∧ b'.capitalization.toNat = 10 ∧ totalLamports b'.accounts = 3 := by
  refine ⟨by rw [totalLamports_payerBank]; rfl, ?_⟩
  obtain ⟨b', hb', hcap⟩ := payerCommitted_settles 0 10 (by decide +kernel)
  have hbalance : InBalance (payerCommitted 0) := inBalance_commitBatches
    keepsUnwritten_idleProcessor rfl rfl
    (by simpa using charged_priorityTransaction (by decide)) (inBalance_payerBank 0)
  have hsettled := settleFees_some hbalance hb'
  have hlost : lostFees (payerCommitted 0).collectorFeeDetails = 7 := by decide +kernel
  have hten : (10 : UInt64).toNat = 10 := rfl
  rw [hcap] at hsettled
  exact ⟨b', hb', by rw [hcap]; rfl, by omega⟩

/-- With 2 lamports for a signature one of them is burned, and the rest is paid out. -/
theorem settleFees_balanced_iff_paidSignatures :
    ∃ b', (payerCommitted 2).settleFees = some b'
      ∧ b'.capitalization = 9 ∧ b'.capitalization.toNat = totalLamports b'.accounts := by
  obtain ⟨b', hb', hcap⟩ := payerCommitted_settles 2 9 (by decide +kernel)
  refine ⟨b', hb', hcap, (settleFees_balanced_iff idleProcessor transferSdk transferEnv transferConfig
    (payerBank 2) b' [[priorityTransaction]] keepsUnwritten_idleProcessor rfl rfl
    (by simpa using charged_priorityTransaction (by decide)) (by rw [totalLamports_payerBank]; rfl) rfl
    hb').1.2 ?_⟩
  decide +kernel

end BlackBull.Runtime
