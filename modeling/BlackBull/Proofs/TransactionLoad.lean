import BlackBull.Lib.StateHoare
import BlackBull.Svm.TransactionProcessor

/-!
# Loading a transaction

`AccountLoader.Shows` says which accounts a loader gives.
-/

namespace BlackBull.Svm

variable {v : Accounts} {f : Bool}

def stored (account : AccountSharedData) (slot : ℕ) : Option (AccountSharedData × ℕ) :=
  if account.lamports = 0 then none else some (account, slot)

def storedView (slot : ℕ) (v : Accounts) (toStore : List KeyedAccountSharedData) : Accounts :=
  toStore.foldl (fun v entry => Function.update v entry.1 (stored entry.2 slot)) v

lemma getAccountSharedData_storeAccounts (accounts : Accounts) (slot : ℕ)
    (toStore : List KeyedAccountSharedData) :
    getAccountSharedData (storeAccounts accounts slot toStore)
      = storedView slot (getAccountSharedData accounts) toStore := by
  induction toStore generalizing accounts with
  | nil => rfl
  | cons entry toStore ih =>
    have hentry : getAccountSharedData (Function.update accounts entry.1 (some (entry.2, slot)))
        = Function.update (getAccountSharedData accounts) entry.1 (stored entry.2 slot) := by
      refine (Function.comp_update (Option.filter _) accounts _ _).trans (congrArg _ ?_)
      simp [stored, Option.filter]
    show getAccountSharedData (storeAccounts (Function.update accounts _ _) slot toStore) = _
    rw [ih, hentry]
    rfl

namespace AccountLoader

/-- A loader gives the accounts as `v` has them; the bank gives it none without lamports. -/
structure Shows (v : Accounts) (f : Bool) (l : AccountLoader) : Prop where
  view : ∀ key, (l.doLoad key).1 = v key
  alive : ∀ key entry, l.callbacks key = some entry → entry.1.lamports ≠ 0
  feature : l.defineLtdsFeeOnlySemantics = f

lemma shows_new (accounts : Accounts) (f : Bool) :
    Shows (getAccountSharedData accounts) f (new none accounts f) where
  view key := by
    simp only [doLoad, new]
    cases getAccountSharedData accounts key <;> rfl
  alive key entry h := by
    have := (Option.filter_eq_some_iff.1 h).2
    exact of_decide_eq_true this
  feature := rfl

lemma Shows.insert {l : AccountLoader} (h : Shows v f l) (key : Pubkey)
    (account : AccountSharedData) (slot : ℕ) :
    Shows (Function.update v key (stored account slot)) f (l.insert key (account, slot)) where
  view k := by
    by_cases hk : k = key
    · subst hk
      simp [doLoad, AccountLoader.insert, stored]
    · rw [Function.update_of_ne hk, ← h.view k]
      simp [doLoad, AccountLoader.insert, hk]
  alive := h.alive
  feature := h.feature

def insertAll (slot : ℕ) (l : AccountLoader) (toStore : List KeyedAccountSharedData) :
    AccountLoader :=
  toStore.foldl (fun l entry => l.insert entry.1 (entry.2, slot)) l

lemma Shows.insertAll {slot : ℕ} {l : AccountLoader} (h : Shows v f l)
    (toStore : List KeyedAccountSharedData) :
    Shows (storedView slot v toStore) f (l.insertAll slot toStore) := by
  induction toStore generalizing l v with
  | nil => exact h
  | cons entry toStore ih => exact ih (h.insert entry.1 entry.2 slot)

lemma inspected_insertAll (slot : ℕ) (l : AccountLoader) (toStore : List KeyedAccountSharedData) :
    (l.insertAll slot toStore).inspected = l.inspected := by
  induction toStore generalizing l with
  | nil => rfl
  | cons entry toStore ih => exact ih _

lemma Shows.insert_same {l : AccountLoader} (h : Shows v f l) {key : Pubkey}
    {account : AccountSharedData} {slot : ℕ} (hkey : v key = stored account slot) :
    Shows v f (l.insert key (account, slot)) := by
  have := h.insert key account slot
  rwa [← hkey, Function.update_eq_self] at this

lemma callbacks_of_doLoad {l : AccountLoader} {key : Pubkey} {entry : AccountSharedData × ℕ}
    (h : l.doLoad key = (some entry, true)) : l.callbacks key = some entry := by
  unfold doLoad at h
  split at h
  · simp at h
  · split at h
    · simp at h
      rwa [← h]
    · simp at h

lemma Shows.loadAccount {l : AccountLoader} (h : Shows v f l) (key : Pubkey) :
    (AccountLoader.loadAccount key l).1 = (v key).map Prod.fst
      ∧ Shows v f (AccountLoader.loadAccount key l).2 := by
  have hv := h.view key
  unfold AccountLoader.loadAccount
  rcases hd : l.doLoad key with ⟨_ | ⟨account, slot⟩, _ | _⟩ <;> rw [hd] at hv <;> rw [← hv]
  · exact ⟨rfl, h⟩
  · exact ⟨rfl, h.insert_same (hv.symm.trans rfl)⟩
  · exact ⟨rfl, h⟩
  · refine ⟨rfl, h.insert_same ?_⟩
    rw [← hv, stored, if_neg (h.alive key _ (callbacks_of_doLoad hd))]

lemma Shows.inspect {l : AccountLoader} (h : Shows v f l) (i : Inspection) :
    Shows v f (inspect i l).2 := { h with }

end AccountLoader

open AccountLoader TransactionBatchProcessor LoadState
open Determines (run_bind run_pure map_get)

section View

variable (sdk : Sdk) (env : TransactionProcessingEnvironment) (config : TransactionProcessingConfig)
  (v : Accounts) (tx : SvmTransaction)

def loadedOf (account : AccountSharedData) : LoadedTransactionAccount where
  account := account
  loadedSize := saturateUsize (transactionAccountBaseSize + account.data.length)

def nonceAt (address : Pubkey) : Except TransactionError NonceInfo :=
  match v address with
  | none => .error .accountNotFound
  | some entry => advanceNonce sdk env config tx address entry.1

def payerAt (nonceInfo : Option NonceInfo) (details : CheckedTransactionDetails) :
    Except TransactionError ValidatedTransactionDetails :=
  match v tx.feePayer with
  | none => .error .accountNotFound
  | some entry => chargeFeePayer sdk env tx nonceInfo details (loadedOf entry.1)

def validatedAt (details : CheckedTransactionDetails) :
    Except TransactionError ValidatedTransactionDetails :=
  match details.nonceAddress with
  | some address => do
    let nonceInfo ← nonceAt sdk env config v tx address
    payerAt sdk env v tx (some nonceInfo) details
  | none => payerAt sdk env v tx none details

def loadedAt (rent : Rent) (key : Pubkey × ℕ) : AccountSharedData :=
  if key.1 = instructionsId then constructInstructionsAccount sdk tx
  else
    match v key.1 with
    | some entry =>
      if tx.isWritable key.2 then updateRentExemptStatusForAccount rent entry.1 else entry.1
    | none => { (default : AccountSharedData) with rentEpoch := rentExemptRentEpoch }

def loadedAccountsAt (rent : Rent) (payer : AccountSharedData) : List KeyedAccountSharedData :=
  (tx.feePayer, payer)
    :: (tx.accountKeys.zipIdx.drop 1).map fun key => (key.1, loadedAt sdk v tx rent key)

def shownWritable (keys : List (Pubkey × ℕ)) : List Pubkey :=
  (keys.filter fun key => key.1 ≠ instructionsId && tx.isWritable key.2).map Prod.fst

/-- How a transaction is loaded from the accounts, with the keys that the bank was then shown as
writable. -/
inductive LoadedAs : TransactionCheckResult → TransactionLoadResult → List Pubkey → Prop
  | unchecked {e : TransactionError} : LoadedAs (.error e) (.notLoaded e) []
  | invalid {details : CheckedTransactionDetails} {e : TransactionError}
      (h : validatedAt sdk env config v tx details = .error e) :
      LoadedAs (.ok details) (.notLoaded e) []
  | feesOnly {details : CheckedTransactionDetails} {validated : ValidatedTransactionDetails}
      {feesOnlyTx : FeesOnlyTransaction}
      (h : validatedAt sdk env config v tx details = .ok validated)
      (hrollback : feesOnlyTx.rollbackAccounts = validated.rollbackAccounts)
      (hfee : feesOnlyTx.feeDetails = validated.feeDetails) :
      LoadedAs (.ok details) (.feesOnly feesOnlyTx) (details.nonceAddress.toList ++ [tx.feePayer])
  | loaded {details : CheckedTransactionDetails} {validated : ValidatedTransactionDetails}
      {loadedTx : LoadedTransaction}
      (h : validatedAt sdk env config v tx details = .ok validated)
      (haccounts : loadedTx.accounts
        = loadedAccountsAt sdk v tx env.rent validated.loadedFeePayerAccount.account)
      (hrollback : loadedTx.rollbackAccounts = validated.rollbackAccounts)
      (hfee : loadedTx.feeDetails = validated.feeDetails) :
      LoadedAs (.ok details) (.loaded loadedTx)
        (details.nonceAddress.toList ++ [tx.feePayer] ++ shownWritable tx (tx.accountKeys.zipIdx.drop 1))

end View

variable {log : List Inspection} {must : List Pubkey} {sdk : Sdk} {rent : Rent}
  {env : TransactionProcessingEnvironment} {config : TransactionProcessingConfig}
  {tx : SvmTransaction} {l l' : AccountLoader} {acc : List KeyedAccountSharedData} {α : Type}

/-- A loader shows `v`, and has shown the bank only what it shows itself since `log`; the keys of
`must` it has shown as writable. -/
structure Seen (v : Accounts) (f : Bool) (log : List Inspection) (must : List Pubkey)
    (l : AccountLoader) : Prop where
  shows' : Shows v f l
  logged : ∃ new, l.inspected = log ++ new ∧ (∀ i ∈ new, i.state = (v i.key).map Prod.fst)
    ∧ ∀ key ∈ must, ∃ i ∈ new, i.key = key ∧ i.isWritable = true

lemma AccountLoader.Shows.seen (h : Shows v f l) : Seen v f l.inspected [] l :=
  ⟨h, [], (List.append_nil _).symm, nofun, nofun⟩

lemma Seen.mono {must' : List Pubkey} (h : Seen v f log must l)
    (hsub : ∀ key ∈ must', key ∈ must) : Seen v f log must' l := by
  obtain ⟨new, hnew, hstate, hmust⟩ := h.logged
  exact ⟨h.shows', new, hnew, hstate, fun key hkey => hmust key (hsub key hkey)⟩

lemma inspected_loadAccount (key : Pubkey) (l : AccountLoader) :
    (loadAccount key l).2.inspected = l.inspected := by
  unfold loadAccount
  split <;> rfl

lemma ensures_loadAccount (key : Pubkey) :
    Ensures (Seen v f log must) (loadAccount key)
      fun account l => account = (v key).map Prod.fst ∧ Seen v f log must l := by
  intro l hl
  obtain ⟨hval, hshows⟩ := hl.shows'.loadAccount key
  exact ⟨hval, hshows, by rw [inspected_loadAccount]; exact hl.logged⟩

def mustWith (must : List Pubkey) (key : Pubkey) (isWritable : Bool) : List Pubkey :=
  if isWritable then must ++ [key] else must

lemma Seen.inspect (h : Seen v f log must l) (i : Inspection)
    (hi : i.state = (v i.key).map Prod.fst) :
    Seen v f log (mustWith must i.key i.isWritable) (inspect i l).2 := by
  obtain ⟨new, hnew, hstate, hmust⟩ := h.logged
  refine ⟨h.shows'.inspect i, new ++ [i], ?_,
    List.forall_mem_append.2 ⟨hstate, List.forall_mem_singleton.2 hi⟩, fun key hkey => ?_⟩
  · show l.inspected ++ [i] = log ++ (new ++ [i])
    rw [hnew, List.append_assoc]
  · have hold (hkey : key ∈ must) : ∃ j ∈ new ++ [i], j.key = key ∧ j.isWritable = true := by
      obtain ⟨j, hj, hjkey⟩ := hmust key hkey
      exact ⟨j, List.mem_append_left _ hj, hjkey⟩
    unfold mustWith at hkey
    split at hkey
    · next hw =>
      rcases List.mem_append.1 hkey with hkey | hkey
      · exact hold hkey
      · exact ⟨i, List.mem_append_right _ (List.mem_singleton_self i),
          (List.mem_singleton.1 hkey).symm, hw⟩
    · exact hold hkey

lemma ensures_loaderLoad (key : Pubkey) (isWritable : Bool) :
    Ensures (Seen v f log must) (AccountLoader.loadTransactionAccount key isWritable)
      fun loaded l => loaded = (v key).map (fun entry => loadedOf entry.1)
        ∧ Seen v f log (mustWith must key isWritable) l := by
  refine (ensures_loadAccount key).bind fun account => ?_
  refine Ensures.bind (Q := fun _ l => account = (v key).map Prod.fst
    ∧ Seen v f log (mustWith must key isWritable) l) ?_ fun _ => Ensures.pure ?_
  · rintro l ⟨rfl, hl⟩
    exact ⟨rfl, hl.inspect ⟨key, _, isWritable⟩ rfl⟩
  · rintro l ⟨rfl, hl⟩
    refine ⟨?_, hl⟩
    rw [Option.map_map]
    rfl

lemma ensures_validateTransactionNonce (address : Pubkey) :
    Ensures (Seen v f log []) (validateTransactionNonce sdk env config tx address).run
      (onResult
        (fun info l => nonceAt sdk env config v tx address = .ok info ∧ Seen v f log [address] l)
        fun e l => nonceAt sdk env config v tx address = .error e ∧ Seen v f log [] l) := by
  refine Ensures.run_bind (Ensures.lift (ensures_loaderLoad address true)) fun loaded => ?_
  unfold nonceAt
  rcases v address with _ | entry
  · rintro l ⟨rfl, hl⟩
    exact ⟨rfl, hl.mono nofun⟩
  · rintro l ⟨rfl, hl⟩
    show onResult _ _ (advanceNonce sdk env config tx address entry.1) l
    dsimp only
    cases advanceNonce sdk env config tx address entry.1 with
    | ok info => exact ⟨rfl, hl⟩
    | error e => exact ⟨rfl, hl.mono nofun⟩

lemma ensures_validateTransactionFeePayer (nonceInfo : Option NonceInfo)
    (details : CheckedTransactionDetails) :
    Ensures (Seen v f log must) (validateTransactionFeePayer sdk env tx nonceInfo details).run
      (onResult
        (fun validated l => payerAt sdk env v tx nonceInfo details = .ok validated
          ∧ Seen v f log (must ++ [tx.feePayer]) l)
        fun e l => payerAt sdk env v tx nonceInfo details = .error e ∧ Seen v f log [] l) := by
  refine Ensures.run_bind (Ensures.lift (ensures_loaderLoad tx.feePayer true)) fun loaded => ?_
  unfold payerAt
  rcases v tx.feePayer with _ | entry
  · rintro l ⟨rfl, hl⟩
    exact ⟨rfl, hl.mono nofun⟩
  · rintro l ⟨rfl, hl⟩
    show onResult _ _ (chargeFeePayer sdk env tx nonceInfo details (loadedOf entry.1)) l
    dsimp only
    cases chargeFeePayer sdk env tx nonceInfo details (loadedOf entry.1) with
    | ok validated => exact ⟨rfl, hl⟩
    | error e => exact ⟨rfl, hl.mono nofun⟩

lemma ensures_validate (details : CheckedTransactionDetails) :
    Ensures (Seen v f log []) (validateTransactionNonceAndFeePayer sdk env config tx details).run
      (onResult
        (fun validated l => validatedAt sdk env config v tx details = .ok validated
          ∧ Seen v f log (details.nonceAddress.toList ++ [tx.feePayer]) l)
        fun e l => validatedAt sdk env config v tx details = .error e ∧ Seen v f log [] l) := by
  unfold validateTransactionNonceAndFeePayer validatedAt
  cases details.nonceAddress with
  | none => exact ensures_validateTransactionFeePayer none details
  | some address =>
    refine Ensures.run_bind (Q := fun info l => nonceAt sdk env config v tx address = .ok info
      ∧ Seen v f log [address] l) ((ensures_validateTransactionNonce address).mono ?_) ?_
    · rintro (e | info) l ⟨h, hl⟩
      · dsimp only [onResult]
        rw [h]
        exact ⟨rfl, hl⟩
      · exact ⟨h, hl⟩
    · rintro info l ⟨h, hl⟩
      dsimp only
      rw [h]
      exact ensures_validateTransactionFeePayer (some info) details l hl

def BothShow (v : Accounts) (f : Bool) (l l' : AccountLoader) : Prop := Shows v f l ∧ Shows v f l'

lemma respects_loadAccount (key : Pubkey) :
    Respects (BothShow v f) (loadAccount key) := by
  rintro l l' ⟨h, h'⟩
  obtain ⟨hval, hshows⟩ := h.loadAccount key
  obtain ⟨hval', hshows'⟩ := h'.loadAccount key
  exact ⟨hval.trans hval'.symm, hshows, hshows'⟩

lemma respects_loaderLoad (key : Pubkey) (isWritable : Bool) :
    Respects (BothShow v f) (AccountLoader.loadTransactionAccount key isWritable) := by
  refine (respects_loadAccount key).bind fun account => Respects.bind ?_ fun _ => Respects.pure _
  rintro l l' ⟨h, h'⟩
  exact ⟨rfl, h.inspect _, h'.inspect _⟩

lemma respects_loadTransactionAccount (key : Pubkey × ℕ) :
    Respects (BothShow v f) (loadTransactionAccount sdk rent tx key.1 key.2) := by
  unfold loadTransactionAccount
  by_cases hkey : key.1 = instructionsId
  · rw [if_pos hkey]
    exact Respects.pure _
  · rw [if_neg hkey]
    refine (respects_loaderLoad key.1 _).bind fun loaded => ?_
    cases loaded with
    | none => exact Respects.pure _
    | some loaded =>
      split_ifs <;> exact Respects.pure _

lemma ensures_loadTransactionAccount (key : Pubkey × ℕ) :
    Ensures (Seen v f log must) (loadTransactionAccount sdk rent tx key.1 key.2)
      fun loaded l => loaded.account = loadedAt sdk v tx rent key
        ∧ Seen v f log (must ++ shownWritable tx [key]) l := by
  unfold loadTransactionAccount loadedAt
  by_cases hkey : key.1 = instructionsId
  · rw [if_pos hkey, if_pos hkey]
    refine Ensures.pure fun l hl => ⟨rfl, hl.mono fun k hk => ?_⟩
    simpa [shownWritable, hkey] using hk
  · rw [if_neg hkey, if_neg hkey]
    have hmust : mustWith must key.1 (tx.isWritable key.2) = must ++ shownWritable tx [key] := by
      cases hw : tx.isWritable key.2 <;> simp [mustWith, shownWritable, hkey, hw]
    refine Ensures.bind (ensures_loaderLoad key.1 (tx.isWritable key.2)) fun loaded => ?_
    rw [hmust]
    rcases v key.1 with _ | entry
    · rintro l ⟨rfl, hl⟩
      exact ⟨rfl, hl⟩
    · rintro l ⟨rfl, hl⟩
      split_ifs <;> exact ⟨rfl, hl⟩

def SameLoad (v : Accounts) (f : Bool) (s t : LoadState) : Prop :=
  ∃ l, t = { s with accountLoader := l } ∧ BothShow v f s.accountLoader l

structure Gathered (v : Accounts) (f : Bool) (log : List Inspection) (must : List Pubkey)
    (acc : List KeyedAccountSharedData) (s : LoadState) : Prop where
  seen : Seen v f log must s.accountLoader
  accounts : s.loadedTransactionAccounts = acc

def Stopped (v : Accounts) (f : Bool) (log : List Inspection) (must : List Pubkey)
    (_ : TransactionError) (s : LoadState) : Prop := Seen v f log must s.accountLoader

abbrev LoadsTo (v : Accounts) (f : Bool) (log : List Inspection) (must : List Pubkey)
    (acc : List KeyedAccountSharedData) (x : LoadM α) (Q : α → LoadState → Prop) : Prop :=
  Determines (SameLoad v f) (Gathered v f log must acc) x.run (onResult Q (Stopped v f log must))

lemma loads_onLoader {x : StateM AccountLoader α} {Q : α → Prop} {must' : List Pubkey}
    (hx : Ensures (Seen v f log must) x fun a l => Q a ∧ Seen v f log must' l)
    (hr : Respects (BothShow v f) x) {E : TransactionError → LoadState → Prop} :
    Determines (SameLoad v f) (Gathered v f log must acc) (onLoader x).run
      (onResult (fun a s => Q a ∧ Gathered v f log must' acc s) E) := by
  rintro s _ hs ⟨l, rfl, h⟩
  obtain ⟨hval, hseen⟩ := hx s.accountLoader hs.seen
  obtain ⟨hsame, hshows⟩ := hr _ _ h
  exact ⟨congrArg Except.ok hsame, ⟨hval, hseen, hs.accounts⟩, _, rfl, hshows⟩

lemma loads_modify {g : LoadState → LoadState} {acc' : List KeyedAccountSharedData}
    (hg : ∀ s l, g { s with accountLoader := l } = { g s with accountLoader := l })
    (hacc : ∀ s, s.loadedTransactionAccounts = acc → (g s).loadedTransactionAccounts = acc') :
    LoadsTo v f log must acc (modify g) fun _ => Gathered v f log must acc' := by
  rintro s _ hs ⟨l, rfl, h⟩
  have hself := congrArg LoadState.accountLoader (hg s s.accountLoader)
  have hloader : (g s).accountLoader = s.accountLoader := hself
  rw [← hloader] at h
  exact ⟨rfl, ⟨hloader.symm ▸ hs.seen, hacc s hs.accounts⟩, l, hg s l, h⟩

lemma loads_get {g : LoadState → α} (hg : ∀ s l, g s = g { s with accountLoader := l }) :
    LoadsTo v f log must acc (g <$> get) fun _ => Gathered v f log must acc := by
  refine map_get (fun s hs => hs) ?_
  rintro s _ ⟨l, rfl, -⟩
  exact hg s l

lemma loads_increaseCalculatedDataSize (dataSizeDelta : ℕ) :
    LoadsTo v f log must acc (increaseCalculatedDataSize dataSizeDelta)
      fun _ => Gathered v f log must acc := by
  unfold increaseCalculatedDataSize
  split_ifs
  · exact run_bind (loads_modify (fun _ _ => rfl) fun _ h => h) fun _ =>
      Determines.throw fun s hs => hs.seen
  · refine run_bind (loads_modify (fun _ _ => rfl) fun _ h => h) fun _ =>
      run_bind (loads_get fun _ _ => rfl) fun exceeded => ?_
    split_ifs
    · exact Determines.throw fun s hs => hs.seen
    · exact run_pure fun s hs => hs

lemma loads_countProgramdata (keys : List Pubkey) (address : Pubkey) :
    LoadsTo v f log must acc (countProgramdata keys address)
      fun _ => Gathered v f log must acc := by
  refine run_bind (loads_get fun _ _ => rfl) fun additional => ?_
  split_ifs
  · refine (loads_onLoader (ensures_loadAccount address)
      (respects_loadAccount address)).run_bind fun account => ?_
    cases account with
    | none => exact run_pure fun s hs => hs.2
    | some account =>
      refine run_bind (Q := fun _ => Gathered v f log must acc)
        (fun s t hs => loads_increaseCalculatedDataSize _ s t hs.2) fun _ => ?_
      exact loads_modify (fun _ _ => rfl) fun _ h => h
  · exact run_pure fun s hs => hs

lemma loads_collectLoadedAccount (keys : List Pubkey) (key : Pubkey)
    (loaded : LoadedTransactionAccount) :
    LoadsTo v f log must acc (collectLoadedAccount sdk keys key loaded)
      fun _ => Gathered v f log must (acc ++ [(key, loaded.account)]) := by
  refine (loads_increaseCalculatedDataSize _).run_bind fun _ => ?_
  have hpush : LoadsTo v f log must acc (modify fun s : LoadState => { s with
      loadedTransactionAccounts := s.loadedTransactionAccounts ++ [(key, loaded.account)] })
      fun _ => Gathered v f log must (acc ++ [(key, loaded.account)]) :=
    loads_modify (fun _ _ => rfl) fun _ h => by rw [h]
  cases if loaded.account.owner = bpfLoaderUpgradeableId then
      sdk.programdataAddress loaded.account.data else none with
  | none => exact hpush
  | some address => exact (loads_countProgramdata keys address).run_bind fun _ => hpush

lemma loads_checkProgram (programId : Pubkey) :
    LoadsTo v f log must acc (checkProgram programId)
      fun _ => Gathered v f log must acc := by
  refine (loads_onLoader (ensures_loadAccount programId)
    (respects_loadAccount programId)).run_bind fun account => ?_
  cases account with
  | none => exact Determines.throw fun s hs => hs.2.seen
  | some account =>
    show Determines _ _ (ite _ _ _ : LoadM Unit).run _
    split_ifs
    · exact Determines.throw fun s hs => hs.2.seen
    · exact run_pure fun s hs => hs.2

lemma loads_loadTransactionAccounts (feePayer : LoadedTransactionAccount) :
    LoadsTo v f log must [] (loadTransactionAccounts sdk rent tx feePayer)
      fun accounts s => accounts = loadedAccountsAt sdk v tx rent feePayer.account
        ∧ Seen v f log (must ++ shownWritable tx (tx.accountKeys.zipIdx.drop 1)) s.accountLoader := by
  -- what the loop over the accounts has gathered after the keys `done`
  let I (done : List (Pubkey × ℕ)) (s : LoadState) : Prop :=
    Gathered v f log (must ++ shownWritable tx done)
      ((tx.feePayer, feePayer.account)
        :: done.map fun key => (key.1, loadedAt sdk v tx rent key)) s
  refine (loads_increaseCalculatedDataSize _).run_bind fun _ =>
    (loads_collectLoadedAccount _ _ _).run_bind fun _ =>
    run_bind
      (fun s t hs => Determines.forM (I := I) (fun done key => ?_) s t ⟨?_, hs.accounts⟩) fun _ =>
    run_bind
      (Determines.forM (I := fun _ => I (tx.accountKeys.zipIdx.drop 1)) fun _ ix => ?_) fun _ =>
    map_get (fun s hs => ⟨hs.accounts, hs.seen⟩) ?_
  · refine (loads_onLoader (ensures_loadTransactionAccount key)
      (respects_loadTransactionAccount key)).run_bind fun loaded => ?_
    rintro s t ⟨hloaded, hs⟩
    refine (loads_collectLoadedAccount tx.accountKeys key.1 loaded).mono ?_ s t hs
    rintro (e | _) s' hs'
    · exact hs'.mono fun k hk => by simp [hk]
    · refine ⟨hs'.seen.mono fun k hk => ?_, ?_⟩
      · simpa [shownWritable] using hk
      · rw [hs'.accounts, hloaded]
        simp
  · exact hs.seen.mono fun k hk => by simpa [shownWritable] using hk
  · refine (loads_checkProgram (tx.programId ix)).mono ?_
    rintro (e | _) s hs
    · exact hs.mono fun k hk => by simp [hk]
    · exact hs
  · rintro s _ ⟨l, rfl, -⟩
    rfl

lemma loadTransaction_spec {details : CheckedTransactionDetails}
    {validated : ValidatedTransactionDetails}
    (hvalidated : validatedAt sdk env config v tx details = .ok validated)
    (hl : Seen v f log (details.nonceAddress.toList ++ [tx.feePayer]) l) (hl' : Shows v f l') :
    (loadTransaction sdk env.rent tx (.ok validated) l).1
        = (loadTransaction sdk env.rent tx (.ok validated) l').1
      ∧ ∃ keys, LoadedAs sdk env config v tx (.ok details)
          (loadTransaction sdk env.rent tx (.ok validated) l).1 keys
        ∧ Seen v f log keys (loadTransaction sdk env.rent tx (.ok validated) l).2 := by
  have hload := @loads_loadTransactionAccounts v f log _ sdk env.rent tx
    validated.loadedFeePayerAccount (.withMaxSize l validated.loadedAccountsBytesLimit)
    (.withMaxSize l' validated.loadedAccountsBytesLimit) ⟨hl, rfl⟩ ⟨l', rfl, hl.shows', hl'⟩
  unfold loadTransaction
  dsimp only
  revert hload
  generalize (loadTransactionAccounts sdk env.rent tx validated.loadedFeePayerAccount).run
    (.withMaxSize l validated.loadedAccountsBytesLimit) = r
  generalize (loadTransactionAccounts sdk env.rent tx validated.loadedFeePayerAccount).run
    (.withMaxSize l' validated.loadedAccountsBytesLimit) = r'
  obtain ⟨a, s⟩ := r
  obtain ⟨a', s'⟩ := r'
  rintro ⟨rfl, hload, l1, rfl, hshows⟩
  cases a with
  | error e =>
    have hfeature : s.accountLoader.defineLtdsFeeOnlySemantics = f := hshows.1.feature
    refine ⟨?_, _, .feesOnly hvalidated rfl rfl, hload⟩
    simp only [loadResult, hfeature, hshows.2.feature]
    rfl
  | ok accounts => exact ⟨rfl, _, .loaded hvalidated hload.1 rfl rfl, hload.2⟩

lemma ensures_collectIfRecording {P : AccountLoader → Prop}
    (hload : ∀ key, Ensures P (loadAccount key) fun _ => P) :
    Ensures P (collectIfRecording sdk config tx) fun _ => P := by
  unfold collectIfRecording
  split_ifs
  · refine (Ensures.mapM (fun key => ?_) _).bind fun _ => Ensures.pure fun _ h => h
    refine (hload key.1).bind fun account => ?_
    cases account with
    | none => exact Ensures.pure fun _ h => h
    | some account =>
      dsimp only
      split_ifs
      · refine Ensures.bind (Q := fun _ => P) ?_ fun _ => Ensures.pure fun _ h => h
        unfold unpackTokenAccount
        cases sdk.unpackTokenAccount account.data account.owner with
        | none => exact Ensures.pure fun _ h => h
        | some token => exact (hload token.mint).bind fun _ => Ensures.pure fun _ h => h
      · exact Ensures.pure fun _ h => h
  · exact Ensures.pure fun _ h => h

/-- Up to its execution, a transaction is loaded from the accounts that the loader shows, and the
bank is shown them. Nothing else of the loader matters. -/
lemma loadPhase_spec (hl : Shows v f l) (hl' : Shows v f l')
    (checkResult : TransactionCheckResult) :
    (loadPhase sdk env config tx checkResult l).1.1
        = (loadPhase sdk env config tx checkResult l').1.1
      ∧ ∃ keys, LoadedAs sdk env config v tx checkResult
          (loadPhase sdk env config tx checkResult l).1.1 keys
        ∧ Seen v f l.inspected keys
          (loadPhase sdk env config tx checkResult l).2 := by
  have hcollect {keys : List Pubkey} : Ensures (Seen v f l.inspected keys)
      (collectIfRecording sdk config tx) fun _ => Seen v f l.inspected keys :=
    ensures_collectIfRecording fun key => (ensures_loadAccount key).mono fun _ _ h => h.2
  cases checkResult with
  | error e => exact ⟨rfl, [], .unchecked, hcollect l hl.seen⟩
  | ok details =>
    have hvalidate := @ensures_validate v f l.inspected sdk env config tx details l hl.seen
    have hvalidate' := @ensures_validate v f l'.inspected sdk env config tx details l' hl'.seen
    let load (r : Except TransactionError ValidatedTransactionDetails × AccountLoader) :=
      loadTransaction sdk env.rent tx r.1 r.2
    show (load ((validateTransactionNonceAndFeePayer sdk env config tx details).run l)).1
        = (load ((validateTransactionNonceAndFeePayer sdk env config tx details).run l')).1
      ∧ ∃ keys, LoadedAs sdk env config v tx (.ok details)
          (load ((validateTransactionNonceAndFeePayer sdk env config tx details).run l)).1 keys
        ∧ Seen v f l.inspected keys (collectIfRecording sdk config tx
          (load ((validateTransactionNonceAndFeePayer sdk env config tx details).run l)).2).2
    revert hvalidate hvalidate'
    generalize (validateTransactionNonceAndFeePayer sdk env config tx details).run l = r
    generalize (validateTransactionNonceAndFeePayer sdk env config tx details).run l' = r'
    rcases r with ⟨e | validated, l1⟩ <;> rcases r' with ⟨e' | validated', l1'⟩ <;>
      rintro ⟨h, hseen⟩ ⟨h', hseen'⟩ <;> cases h.symm.trans h'
    · exact ⟨rfl, [], .invalid h, hcollect l1 hseen⟩
    · obtain ⟨hsame, keys, hloaded, hkeys⟩ := loadTransaction_spec h hseen hseen'.shows'
      exact ⟨hsame, keys, hloaded, hcollect _ hkeys⟩

end BlackBull.Svm
