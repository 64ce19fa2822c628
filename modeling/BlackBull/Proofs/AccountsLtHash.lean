import BlackBull.Proofs.Supply
import BlackBull.Runtime.AccountsLtHash

/-!
# The accounts lattice hash is that of all live accounts

Transactions are shown every account before they write it, so the cache has what the ancestors have,
and the delta of a slot mixes this out.
-/

namespace BlackBull.Runtime

open Svm TransactionBatchProcessor List Bank HashedBank

/-- The account that a load at a key finds. -/
def liveAt (accounts : Accounts) (key : Pubkey) : Option AccountSharedData :=
  (getAccountSharedData accounts key).map Prod.fst

lemma storeAccounts_cases (accounts : Accounts) (slot : ℕ) (toStore : List KeyedAccountSharedData)
    (key : Pubkey) :
    (∃ account, (key, account) ∈ toStore
      ∧ storeAccounts accounts slot toStore key = some (account, slot))
    ∨ storeAccounts accounts slot toStore key = accounts key := by
  induction toStore generalizing accounts with
  | nil => exact .inr rfl
  | cons entry toStore ih =>
    rcases ih (Function.update accounts entry.1 (some (entry.2, slot))) with ⟨account, hmem, h⟩ | h
    · exact .inl ⟨account, mem_cons_of_mem _ hmem, h⟩
    · by_cases hkey : key = entry.1
      · subst hkey
        exact .inl ⟨entry.2, mem_cons_self, h.trans (Function.update_self ..)⟩
      · exact .inr (h.trans (Function.update_of_ne hkey ..))

variable {G : Type} [AddCommGroup G] {ltHash : Pubkey → AccountSharedData → G} {b : HashedBank G}
  {κ δ : Type} {p : TransactionBatchProcessor κ δ} {sdk : Sdk}
  {env : TransactionProcessingEnvironment} {config : TransactionProcessingConfig}
  {tx : SvmTransaction} {accounts accounts' : Accounts} {key : Pubkey}
  {initial now : Pubkey → Option AccountSharedData} {cache : Pubkey → Option CacheValue}

lemma liveAt_storeAccounts {slot : ℕ} {toStore : List KeyedAccountSharedData}
    (h : ∀ entry ∈ toStore, entry.1 ≠ key) :
    liveAt (storeAccounts accounts slot toStore) key = liveAt accounts key := by
  unfold liveAt getAccountSharedData
  rcases storeAccounts_cases accounts slot toStore key with ⟨account, hmem, -⟩ | heq
  · exact absurd rfl (h _ hmem)
  · rw [heq]

/-- The accounts of `b'` are those of `b` with some stored in its slot. -/
structure StoresTo (b b' : Bank) : Prop where
  slot : b'.slot = b.slot
  accounts : ∃ toStore, b'.accounts = storeAccounts b.accounts b.slot toStore

lemma StoresTo.refl (b : Bank) : StoresTo b b := ⟨rfl, [], rfl⟩

lemma StoresTo.trans {b1 b2 b3 : Bank} (h : StoresTo b1 b2) (h' : StoresTo b2 b3) :
    StoresTo b1 b3 := by
  obtain ⟨toStore, hstore⟩ := h.accounts
  obtain ⟨toStore', hstore'⟩ := h'.accounts
  exact ⟨h'.slot.trans h.slot, toStore ++ toStore',
    by rw [hstore', hstore, h.slot, storeAccounts_append]⟩

lemma storesTo_distribute {b b' : Bank} (h : b.distributeTransactionFeeDetails = some b') :
    StoresTo b b' := by
  unfold Bank.distributeTransactionFeeDetails at h
  split_ifs at h
  · cases h
    exact .refl b
  · obtain ⟨⟨b1, burned⟩, hdeposit, h⟩ := Option.map_eq_some_iff.1 h
    cases h
    unfold Bank.depositOrBurnFee at hdeposit
    split_ifs at hdeposit
    · cases hdeposit
      exact ⟨rfl, [], rfl⟩
    · obtain ⟨collectorId, -, hdeposit⟩ := Option.map_eq_some_iff.1 hdeposit
      split at hdeposit
      · next b2 postBalance hstore =>
        cases hdeposit
        obtain ⟨account, -, hstore⟩ := Except.bind_eq_ok.1 hstore
        cases hstore
        exact ⟨rfl, [(collectorId, account)], rfl⟩
      · cases hdeposit
        exact ⟨rfl, [], rfl⟩

lemma storesTo_runIncinerator (b : Bank) : StoresTo b b.runIncinerator := by
  unfold Bank.runIncinerator
  split
  · exact ⟨rfl, [(incineratorId, default)], rfl⟩
  · exact .refl b

lemma storesTo_finishDeferredChanges {b b' : Bank}
    {addSlot : Option AccountSharedData → AccountSharedData}
    (h : b.finishDeferredChanges addSlot = some b') : StoresTo b b' := by
  obtain ⟨b1, hdistribute, rfl⟩ := Option.map_eq_some_iff.1 h
  have hhistory : StoresTo b1 (b1.updateSysvarAccount slotHistoryId addSlot) := ⟨rfl, [_], rfl⟩
  exact ((storesTo_distribute hdistribute).trans hhistory).trans (storesTo_runIncinerator _)

/-- What the cache says of the accounts at the start of the slot. -/
structure CacheSound (initial now : Pubkey → Option AccountSharedData)
    (cache : Pubkey → Option CacheValue) : Prop where
  inspected : ∀ key state, cache key = some (.inspectAccount state) → state = initial key
  unseen : ∀ key, cache key = none → now key = initial key

lemma inspect_apply (i : Inspection) : inspectAccountForAccountsLtHash cache i key
    = if i.isWritable = true ∧ cache key = none ∧ i.key = key then some (.inspectAccount i.state)
      else cache key := by
  unfold inspectAccountForAccountsLtHash
  by_cases hkey : i.key = key
  · subst hkey
    cases i.isWritable <;> cases h : cache i.key <;> simp [h]
  · split_ifs <;> simp_all [Function.update_of_ne (Ne.symm hkey)]

lemma CacheSound.inspect (h : CacheSound initial now cache) {i : Inspection}
    (hi : i.state = now i.key) :
    CacheSound initial now (inspectAccountForAccountsLtHash cache i) := by
  refine ⟨fun key state hkey => ?_, fun key hkey => ?_⟩ <;> rw [inspect_apply] at hkey <;>
    split_ifs at hkey with hnew
  · cases hkey
    obtain ⟨-, hnone, rfl⟩ := hnew
    rw [hi, h.unseen _ hnone]
  · exact h.inspected key state hkey
  · exact h.unseen key hkey

lemma CacheSound.inspections (h : CacheSound initial now cache) {shown : List Inspection}
    (hshown : ∀ i ∈ shown, i.state = now i.key) :
    CacheSound initial now (shown.foldl inspectAccountForAccountsLtHash cache) := by
  induction shown generalizing cache with
  | nil => exact h
  | cons i shown ih =>
    exact ih (h.inspect (hshown i mem_cons_self)) fun j hj =>
      hshown j (mem_cons_of_mem _ hj)

lemma CacheSound.change (h : CacheSound initial now cache)
    {now' : Pubkey → Option AccountSharedData} (hsame : ∀ key, cache key = none → now' key = now key) :
    CacheSound initial now' cache :=
  ⟨h.inspected, fun key hkey => (hsame key hkey).trans (h.unseen key hkey)⟩

lemma cache_of_inspections {shown : List Inspection}
    (h : shown.foldl inspectAccountForAccountsLtHash cache key = none) :
    cache key = none ∧ ∀ i ∈ shown, i.isWritable = true → i.key ≠ key := by
  induction shown generalizing cache with
  | nil => exact ⟨h, nofun⟩
  | cons i shown ih =>
    obtain ⟨hcache, hrest⟩ := ih h
    rw [inspect_apply] at hcache
    split_ifs at hcache with hnew
    refine ⟨hcache, fun j hj => ?_⟩
    rcases mem_cons.1 hj with rfl | hj
    · exact fun hwritable hkey => hnew ⟨hwritable, hcache, hkey⟩
    · exact hrest j hj

/-- Execution keeps the places of the accounts. -/
def KeepsKeys (p : TransactionBatchProcessor κ δ) : Prop :=
  ∀ tx loaded, (p.execute tx loaded).accounts.map Prod.fst = loaded.accounts.map Prod.fst

lemma mem_rollback {v : Accounts} {details : CheckedTransactionDetails}
    {validated : ValidatedTransactionDetails} (h : Charged sdk env v tx details validated)
    {entry : KeyedAccountSharedData} (hentry : entry ∈ validated.rollbackAccounts.iter) :
    entry.1 ∈ details.nonceAddress.toList ++ [tx.feePayer] := by
  obtain ⟨account, slot, lamports, nonceInfo, -, -, -, hrollback, haddress, -⟩ := h.payer
  rw [hrollback] at hentry
  rw [← haddress]
  cases nonceInfo with
  | none =>
    rw [mem_singleton.1 hentry]
    exact mem_singleton_self _
  | some info =>
    unfold RollbackAccounts.new at hentry
    dsimp only at hentry
    split_ifs at hentry with hsame
    · rw [mem_singleton.1 hentry]
      simp
    · simp only [RollbackAccounts.iter, mem_cons, not_mem_nil, or_false] at hentry
      rcases hentry with rfl | rfl <;> simp

lemma mem_written {v : Accounts} {rent : Rent} {payer : AccountSharedData} (hsan : tx.Sanitized)
    (h : key ∈ (writtenAccounts tx (loadedAccountsAt sdk v tx rent payer)).map Prod.fst) :
    key ∈ [tx.feePayer] ++ shownWritable tx (tx.accountKeys.zipIdx.drop 1) := by
  rw [writtenAccounts_loaded, if_pos hsan.writes_payer, map_append, map_map] at h
  rcases mem_append.1 h with h | h
  · exact mem_append_left _ h
  · obtain ⟨entry, hentry, rfl⟩ := mem_map.1 h
    obtain ⟨hmem, hwrites⟩ := mem_filter.1 hentry
    have hwritable : tx.isWritable entry.2 = true := (Bool.and_eq_true _ _ ▸ hwrites).1
    refine mem_append_right _ (mem_map.2 ⟨entry, mem_filter.2 ⟨hmem, ?_⟩, rfl⟩)
    have hne : entry.1 ≠ instructionsId := fun heq => by
      rw [hsan.instructions_readonly entry (mem_of_mem_drop hmem) heq] at hwritable
      cases hwritable
    rw [hwritable]
    simpa using hne

lemma stored_shown (hp : KeepsKeys p) (hsan : tx.Sanitized) {checkResult : TransactionCheckResult}
    {loadResult : TransactionLoadResult} {keys : List Pubkey}
    (h : LoadedAs sdk env config (getAccountSharedData accounts) tx checkResult loadResult keys)
    {entry : KeyedAccountSharedData}
    (hentry : entry ∈ accountsToStore tx (p.outcome config tx loadResult)) : entry.1 ∈ keys := by
  rcases outcome_cases h with ⟨e, he⟩ | ⟨_, _, _, -, hcharged, he, -, hstored⟩ <;> rw [he] at hentry
  · cases hentry
  rcases hstored with ⟨hstored, hkeys⟩ | ⟨loadedTx, -, haccounts, hstored, hkeys⟩ <;>
    rw [hstored] at hentry
  · exact hkeys (mem_rollback hcharged hentry)
  · have hkey : entry.1 ∈ (writtenAccounts tx (p.execute tx loadedTx).accounts).map Prod.fst :=
      mem_map_of_mem hentry
    rw [keys_writtenAccounts (hp tx loadedTx), haccounts] at hkey
    exact hkeys (mem_written hsan hkey)

lemma cacheSound_processes (hp : KeepsKeys p)
    {items : List (SvmTransaction × TransactionCheckResult)} (hsan : ∀ item ∈ items, item.1.Sanitized)
    {results : List (TransactionProcessingResult δ)} {log : List Inspection}
    (h : Processes p sdk env config accounts items results log accounts')
    (hcache : CacheSound initial (liveAt accounts) cache) :
    CacheSound initial (liveAt accounts') (log.foldl inspectAccountForAccountsLtHash cache) := by
  induction h generalizing cache with
  | nil => exact hcache
  | cons hload hshown hkeys hrest ih =>
    rw [foldl_append]
    refine ih (fun item hitem => hsan item (mem_cons_of_mem _ hitem))
      ((hcache.inspections hshown).change fun key hkey => liveAt_storeAccounts fun entry hentry => ?_)
    obtain ⟨i, hi, hikey, hwritable⟩ := hkeys entry.1
      (stored_shown hp (hsan _ mem_cons_self) hload hentry)
    rw [← hikey]
    exact (cache_of_inspections hkey).2 i hi hwritable

lemma cacheSound_commit (hp : KeepsKeys p) {b : Bank} (hslot : p.slot = b.slot)
    (hover : config.accountOverrides = none) {batch : List CheckedTransaction}
    (hsan : ∀ t ∈ batch, t.tx.Sanitized) (hcache : CacheSound initial (liveAt b.accounts) cache) :
    CacheSound initial
      (liveAt (b.loadExecuteAndCommitTransactions p sdk env config batch).accounts)
      ((p.batchInspections sdk env config b.accounts (batch.map CheckedTransaction.tx)
        (batch.map b.checkResult)).foldl inspectAccountForAccountsLtHash cache) := by
  have hitems : ∀ item ∈ (batch.map CheckedTransaction.tx).zip (batch.map b.checkResult),
      item.1.Sanitized := by
    rw [zip_map']
    exact forall_mem_map.2 hsan
  show CacheSound initial (liveAt (storeAccounts b.accounts b.slot (collectAccountsToStore
    (batch.map CheckedTransaction.tx)
    (p.loadAndExecuteSanitizedTransactions ..).processingResults))) _
  rcases @loadAndExecute_cases sdk env config _ _ p b.accounts hover
    (batch.map CheckedTransaction.tx) (batch.map b.checkResult) with ⟨accounts', h⟩ | h
  · have heq := h.accounts_eq
    rw [map_fst_zip (by simp), hslot] at heq
    rw [← heq]
    exact cacheSound_processes hp hitems h hcache
  · -- nothing is stored, but the transactions up to the end of the batch were shown
    rw [collectAccountsToStore_errors _ h]
    unfold batchInspections
    split_ifs
    · exact hcache
    · obtain ⟨done, results, log, accounts', shown, hdone, hprocesses, hshown, heq⟩ :=
        @inspectionsOf_spec env.defineLtdsFeeOnlySemantics sdk env config _ _ p b.accounts
          ((batch.map CheckedTransaction.tx).zip (batch.map b.checkResult))
          (batch.map CheckedTransaction.tx).length (p.start env config b.accounts)
          (shows_start hover b.accounts)
      have hstart : (p.start env config b.accounts).accountLoader.inspected = [] := rfl
      rw [heq]
      have hsound := (cacheSound_processes hp (fun item hitem => hitems item (hdone.subset hitem))
        hprocesses hcache).inspections hshown
      rw [← foldl_append] at hsound
      exact ⟨hsound.inspected, fun key hkey => hcache.unseen key (cache_of_inspections hkey).1⟩

/-- The hash of the account at a key, zero if there is none. -/
def hashAt (ltHash : Pubkey → AccountSharedData → G) (accounts : Accounts) (key : Pubkey) : G :=
  (liveAt accounts key).elim 0 (ltHash key)

/-- The lattice hash of all accounts. -/
noncomputable def totalHash (ltHash : Pubkey → AccountSharedData → G) (accounts : Accounts) : G :=
  total (hashAt ltHash accounts)

lemma hashAt_of_some {account : AccountSharedData} {slot : ℕ}
    (h : accounts key = some (account, slot)) :
    hashAt ltHash accounts key = ltHashAccount ltHash key account := by
  unfold hashAt liveAt getAccountSharedData ltHashAccount
  rw [h]
  by_cases hzero : account.lamports = 0 <;> simp [Option.filter, hzero]

lemma lamports_of_liveAt {account : AccountSharedData}
    (h : liveAt accounts key = some account) : account.lamports ≠ 0 := by
  obtain ⟨entry, hentry, rfl⟩ := Option.map_eq_some_iff.1 h
  exact of_decide_eq_true (Option.filter_eq_some_iff.1 hentry).2

lemma mixAccount_eq (hinitial : ∀ key, b.initialStateOfAccount key = liveAt b.ancestors key)
    (accum : G) (entry : KeyedAccountSharedData) :
    b.mixAccount ltHash accum entry
      = accum + (ltHashAccount ltHash entry.1 entry.2 - hashAt ltHash b.ancestors entry.1) := by
  unfold mixAccount hashAt
  rw [hinitial]
  cases hlive : liveAt b.ancestors entry.1 with
  | none =>
    dsimp only [Option.elim_none]
    rw [sub_zero]
  | some prevAccount =>
    have hprev : ltHashAccount ltHash entry.1 prevAccount = ltHash entry.1 prevAccount :=
      if_neg (lamports_of_liveAt hlive)
    dsimp only [Option.elim_some]
    split_ifs with hsame
    · rw [hsame, hprev, sub_self, add_zero]
    · rw [hprev]
      abel

/-- The bank has stored on what its ancestors have, and its cache is sound. -/
structure Tracks (b : HashedBank G) : Prop where
  stores : ∃ toStore, b.bank.accounts = storeAccounts b.ancestors b.bank.slot toStore
  cache : b.bank.slot ≠ 0 →
    CacheSound (liveAt b.ancestors) (liveAt b.bank.accounts) b.cacheForAccountsLtHash

omit [AddCommGroup G] in
lemma tracks_newFromParent (parent : HashedBank G) (bank : Bank)
    (stored : List KeyedAccountSharedData) : Tracks (parent.newFromParent bank stored) := by
  refine ⟨⟨stored, rfl⟩, fun _ => ⟨fun key state h => ?_, fun key h => ?_⟩⟩
  · dsimp only [newFromParent] at h
    split_ifs at h
    cases h
  · dsimp only [newFromParent] at h ⊢
    split_ifs at h with hslot
    rcases storeAccounts_cases parent.bank.accounts bank.slot stored key with ⟨account, -, heq⟩ | heq
    · rw [heq] at hslot
      simp at hslot
    · unfold liveAt getAccountSharedData
      rw [heq]

omit [AddCommGroup G] in
lemma Tracks.replayBatch (h : Tracks b) (hp : KeepsKeys p) (hslot : p.slot = b.bank.slot)
    (hover : config.accountOverrides = none)
    {batch : List CheckedTransaction} (hsan : ∀ t ∈ batch, t.tx.Sanitized) :
    Tracks (b.replayBatch sdk env config p batch) := by
  obtain ⟨toStore, hstore⟩ := h.stores
  obtain ⟨toStore', hstore'⟩ : ∃ toStore', (b.replayBatch sdk env config p batch).bank.accounts
      = storeAccounts b.bank.accounts b.bank.slot toStore' := ⟨_, rfl⟩
  refine ⟨⟨toStore ++ toStore', ?_⟩, fun hzero =>
    cacheSound_commit hp hslot hover hsan (h.cache hzero)⟩
  rw [hstore', hstore, ← storeAccounts_append]
  rfl

lemma Tracks.updateAccountsLtHash (h : Tracks b) {frozen : Bank}
    (hfrozen : StoresTo b.bank frozen) (hhash : b.accountsLtHash = totalHash ltHash b.ancestors)
    {accountsCurr : Cut KeyedAccountSharedData}
    (hlist : HashedBank.ListsSlot frozen accountsCurr.items) :
    (({ b with bank := frozen } : HashedBank G).updateAccountsLtHash ltHash accountsCurr).accountsLtHash
      = totalHash ltHash frozen.accounts := by
  have hinitial : ∀ key,
      ({ b with bank := frozen } : HashedBank G).clearCacheInSlotZero.initialStateOfAccount key
        = liveAt b.ancestors key := fun key => by
    unfold clearCacheInSlotZero
    split_ifs with hzero
    · rfl
    · have hsound := h.cache (hfrozen.slot ▸ hzero)
      unfold initialStateOfAccount
      split
      · next state hstate => exact hsound.inspected key state hstate
      · rfl
      · rfl
  have hancestors : ({ b with bank := frozen } : HashedBank G).clearCacheInSlotZero.ancestors
      = b.ancestors := by
    unfold clearCacheInSlotZero
    split_ifs <;> rfl
  -- the keys of the slot are the only ones whose accounts may differ from those of the ancestors
  have hother (key : Pubkey) (hkey : key ∉ accountsCurr.items.map Prod.fst) :
      hashAt ltHash frozen.accounts key = hashAt ltHash b.ancestors key := by
    obtain ⟨toStore, hstore⟩ := h.stores
    obtain ⟨toStore', hstore'⟩ := hfrozen.accounts
    rw [hstore, ← storeAccounts_append, ← hfrozen.slot] at hstore'
    rcases storeAccounts_cases b.ancestors frozen.slot (toStore ++ toStore') key with
      ⟨account, -, heq⟩ | heq
    · rw [← hstore'] at heq
      exact absurd (mem_map_of_mem ((hlist.mem (key, account)).2 heq)) hkey
    · unfold hashAt liveAt getAccountSharedData
      rw [hstore', heq]
  have hdiff := total_sub_total hlist.nodup hother
  rw [map_map] at hdiff
  have hmixed : accountsCurr.items.map (fun entry =>
        ltHashAccount ltHash entry.1 entry.2 - hashAt ltHash b.ancestors entry.1)
      = accountsCurr.items.map ((fun key =>
        hashAt ltHash frozen.accounts key - hashAt ltHash b.ancestors key) ∘ Prod.fst) := by
    refine map_congr_left fun entry hentry => ?_
    rw [Function.comp_apply, hashAt_of_some ((hlist.mem entry).1 hentry)]
  show b.accountsLtHash + calculateDeltaLtHash ltHash _ accountsCurr = _
  unfold calculateDeltaLtHash
  rw [Cut.fold_eq_sum (mixAccount_eq fun key => (hinitial key).trans (by rw [hancestors])),
    hancestors, hmixed, ← hdiff, hhash]
  show totalHash ltHash b.ancestors + (totalHash ltHash frozen.accounts - totalHash ltHash b.ancestors)
    = totalHash ltHash frozen.accounts
  abel

/-- A bank that has just been created. The parent of a child has the right hash. -/
inductive Created (ltHash : Pubkey → AccountSharedData → G) : HashedBank G → Prop
  | child (parent : HashedBank G) (bank : Bank) (stored : List KeyedAccountSharedData)
      (h : parent.accountsLtHash = totalHash ltHash parent.bank.accounts) :
      Created ltHash (parent.newFromParent bank stored)
  | genesis (bank : Bank) (stored : List KeyedAccountSharedData) :
      Created ltHash (newFromGenesis bank stored)

lemma Created.hash (h : Created ltHash b) : b.accountsLtHash = totalHash ltHash b.ancestors := by
  cases h with
  | child parent bank stored h => exact h
  | genesis bank stored =>
    symm
    exact finsum_eq_zero_of_forall_eq_zero fun _ => rfl

lemma Created.tracks (h : Created ltHash b) : Tracks b := by
  cases h with
  | child parent bank stored h => exact tracks_newFromParent parent bank stored
  | genesis bank stored => exact ⟨⟨stored, rfl⟩, fun h => absurd rfl h⟩

/-- What replay sees to: the slot, sanitized transactions and an execution that keeps keys. -/
structure Replayable (b : HashedBank G)
    (batch : TransactionBatchProcessor κ δ × List CheckedTransaction) : Prop where
  keys : KeepsKeys batch.1
  slot : batch.1.slot = b.bank.slot
  sanitized : ∀ t ∈ batch.2, t.tx.Sanitized

omit [AddCommGroup G] in
lemma Tracks.replayBatches (h : Tracks b)
    (hover : config.accountOverrides = none)
    {batches : List (TransactionBatchProcessor κ δ × List CheckedTransaction)}
    (hbatches : ∀ batch ∈ batches, Replayable b batch) :
    Tracks (b.replayBatches sdk env config batches)
    ∧ (b.replayBatches sdk env config batches).accountsLtHash = b.accountsLtHash
    ∧ (b.replayBatches sdk env config batches).ancestors = b.ancestors := by
  induction batches generalizing b with
  | nil => exact ⟨h, rfl, rfl⟩
  | cons batch batches ih =>
    have hone := hbatches batch mem_cons_self
    refine @ih (b.replayBatch sdk env config batch.1 batch.2)
      (h.replayBatch hone.keys hone.slot hover hone.sanitized) fun batch' hbatch' => ?_
    have hrest := hbatches batch' (mem_cons_of_mem _ hbatch')
    exact { hrest with }

/-- After a slot was replayed and frozen, its hash is the sum of those of all live accounts. -/
theorem accountsLtHash_eq_totalHash (ltHash : Pubkey → AccountSharedData → G) (sdk : Sdk)
    (env : TransactionProcessingEnvironment) (config : TransactionProcessingConfig)
    (b : HashedBank G) (hb : Created ltHash b) (hover : config.accountOverrides = none)
    (batches : List (TransactionBatchProcessor κ δ × List CheckedTransaction))
    (hbatches : ∀ batch ∈ batches, Replayable b batch)
    (addSlot : Option AccountSharedData → AccountSharedData) (frozen : Bank)
    (hfrozen : (b.replayBatches sdk env config batches).bank.finishDeferredChanges addSlot
      = some frozen)
    (accountsCurr : Cut KeyedAccountSharedData)
    (hlist : HashedBank.ListsSlot frozen accountsCurr.items) :
    (({ b.replayBatches sdk env config batches with bank := frozen } :
        HashedBank G).updateAccountsLtHash ltHash accountsCurr).accountsLtHash
      = totalHash ltHash frozen.accounts := by
  obtain ⟨htracks, hhash, hancestors⟩ :=
    @Tracks.replayBatches _ b _ _ sdk env config hb.tracks hover batches hbatches
  exact htracks.updateAccountsLtHash (storesTo_finishDeferredChanges hfrozen)
    (by rw [hhash, hancestors, hb.hash]) hlist

lemma exists_listsSlot (b : Bank) : ∃ accountsCurr, HashedBank.ListsSlot b accountsCurr := by
  cases nonempty_fintype Pubkey
  let listed (key : Pubkey) : Option KeyedAccountSharedData :=
    (b.accounts key).bind fun entry => if entry.2 = b.slot then some (key, entry.1) else none
  have hlisted (key : Pubkey) (entry : KeyedAccountSharedData) :
      listed key = some entry ↔ key = entry.1 ∧ b.accounts entry.1 = some (entry.2, b.slot) := by
    rw [Option.bind_eq_some_iff]
    constructor
    · rintro ⟨⟨account, slot⟩, haccount, h⟩
      split_ifs at h with hslot
      cases h
      exact ⟨rfl, by rw [haccount]; exact congrArg some (congrArg (Prod.mk account) hslot)⟩
    · rintro ⟨rfl, haccount⟩
      exact ⟨_, haccount, if_pos rfl⟩
  refine ⟨Finset.univ.toList.filterMap listed, ?_, fun entry => ?_⟩
  · rw [map_filterMap]
    refine (Finset.nodup_toList _).filterMap fun key key' x h h' => ?_
    obtain ⟨entry, hentry, rfl⟩ := Option.mem_map.1 h
    obtain ⟨entry', hentry', heq⟩ := Option.mem_map.1 h'
    rw [((hlisted _ _).1 hentry).1, ((hlisted _ _).1 hentry').1, heq]
  · rw [mem_filterMap]
    constructor
    · rintro ⟨key, -, h⟩
      exact ((hlisted key entry).1 h).2
    · intro h
      exact ⟨entry.1, Finset.mem_toList.2 (Finset.mem_univ _), (hlisted _ _).2 ⟨rfl, h⟩⟩

/-! A child of a bank where the payer has 10 lamports, with one transaction. Accounts are hashed to
their lamports. -/

def lamportsHash (_ : Pubkey) (account : AccountSharedData) : ℤ := account.lamports.toNat

noncomputable def payerChild : HashedBank ℤ :=
  newFromParent
    { bank := payerBank 2
      ancestors := fun _ => none
      cacheForAccountsLtHash := fun _ => none
      accountsLtHash := totalHash lamportsHash (payerBank 2).accounts }
    (payerBank 2) []

noncomputable def payerReplayed : HashedBank ℤ :=
  payerChild.replayBatches transferSdk transferEnv transferConfig
    [(idleProcessor, [priorityTransaction])]

theorem accountsLtHash_eq_totalHash_payerChild :
    ∃ frozen accountsCurr,
      payerReplayed.bank.finishDeferredChanges (fun _ => default) = some frozen
      ∧ (({ payerReplayed with bank := frozen } : HashedBank ℤ).updateAccountsLtHash lamportsHash
        accountsCurr).accountsLtHash
        = totalHash lamportsHash frozen.accounts := by
  have hsome : ((payerBank 2).loadExecuteAndCommitTransactions idleProcessor transferSdk transferEnv
      transferConfig [priorityTransaction]).distributeTransactionFeeDetails.isSome = true := by
    decide +kernel
  obtain ⟨b, hb⟩ := Option.isSome_iff_exists.1 hsome
  have hfrozen : payerReplayed.bank.finishDeferredChanges (fun _ => default)
      = some (b.updateSysvarAccount slotHistoryId fun _ => default).runIncinerator :=
    Option.map_eq_some_iff.2 ⟨b, hb, rfl⟩
  obtain ⟨accountsCurr, hlist⟩ :=
    exists_listsSlot (b.updateSysvarAccount slotHistoryId fun _ => default).runIncinerator
  refine ⟨_, .chunk accountsCurr, hfrozen, accountsLtHash_eq_totalHash lamportsHash transferSdk
    transferEnv transferConfig payerChild (.child _ _ _ rfl) rfl _ ?_ _ _ hfrozen _ hlist⟩
  rw [forall_mem_singleton]
  refine ⟨fun _ _ => rfl, rfl, ?_⟩
  rw [forall_mem_singleton]
  exact ⟨by decide, rfl, rfl, by decide⟩

end BlackBull.Runtime
