import BlackBull.Lib.ParFold
import BlackBull.Runtime.Bank

/-!
# The accounts lattice hash

`runtime/src/bank/accounts_lt_hash.rs`, with what `Bank::new_from_parent` and `Bank::freeze` do for
it.
-/

namespace BlackBull.Runtime

open Svm

inductive CacheValue
  | inspectAccount (initialState : Option AccountSharedData)
  | bankNew
  deriving DecidableEq

/-- A bank with its part in the accounts lattice hash. `ancestors` are the accounts as its strict
ancestors have left them. -/
structure HashedBank (G : Type) where
  bank : Bank
  ancestors : Accounts
  cacheForAccountsLtHash : Pubkey → Option CacheValue
  accountsLtHash : G

/-- The bank is not frozen while it replays. -/
def inspectAccountForAccountsLtHash (cache : Pubkey → Option CacheValue) (i : Inspection) :
    Pubkey → Option CacheValue :=
  if !i.isWritable then cache
  else if (cache i.key).isSome then cache
  else Function.update cache i.key (some (.inspectAccount i.state))

section Batch

variable {κ δ : Type} (sdk : Sdk) (env : TransactionProcessingEnvironment)
  (config : TransactionProcessingConfig)

namespace HashedBank

variable {G : Type}

def replayBatch (b : HashedBank G) (p : TransactionBatchProcessor κ δ)
    (batch : List Bank.CheckedTransaction) : HashedBank G :=
  let inspections := p.batchInspections sdk env config b.bank.accounts
    (batch.map Bank.CheckedTransaction.tx) (batch.map b.bank.checkResult)
  { b with
    bank := b.bank.loadExecuteAndCommitTransactions p sdk env config batch
    cacheForAccountsLtHash :=
      inspections.foldl inspectAccountForAccountsLtHash b.cacheForAccountsLtHash }

def replayBatches (b : HashedBank G)
    (batches : List (TransactionBatchProcessor κ δ × List Bank.CheckedTransaction)) :
    HashedBank G :=
  batches.foldl (fun b batch => b.replayBatch sdk env config batch.1 batch.2) b

end HashedBank

end Batch

namespace Bank

def adjustSysvarBalanceForRent (b : Bank) (account : AccountSharedData) : AccountSharedData :=
  { account with lamports := max (b.rent.minimumBalance account.data.length) account.lamports }

def storeAccountAndUpdateCapitalization (b : Bank) (key : Pubkey) (newAccount : AccountSharedData) :
    Bank :=
  let capitalization :=
    match b.getAccount key with
    | some oldAccount =>
      if oldAccount.lamports < newAccount.lamports then
        b.capitalization + (newAccount.lamports - oldAccount.lamports)
      else if newAccount.lamports < oldAccount.lamports then
        b.capitalization - (oldAccount.lamports - newAccount.lamports)
      else b.capitalization
    | none => b.capitalization + newAccount.lamports
  { b.storeAccount key newAccount with capitalization }

def updateSysvarAccount (b : Bank) (key : Pubkey)
    (updater : Option AccountSharedData → AccountSharedData) : Bank :=
  b.storeAccountAndUpdateCapitalization key
    (b.adjustSysvarBalanceForRent (updater (b.getAccount key)))

/-- The deferred changes to accounts. `addSlot` makes the slot history account with the slot added. -/
def finishDeferredChanges (addSlot : Option AccountSharedData → AccountSharedData) (b : Bank) :
    Option Bank :=
  b.distributeTransactionFeeDetails.map fun b =>
    (b.updateSysvarAccount slotHistoryId addSlot).runIncinerator

end Bank

section Hash

variable {G : Type} [AddCommGroup G] (ltHash : Pubkey → AccountSharedData → G)

def ltHashAccount (key : Pubkey) (account : AccountSharedData) : G :=
  if account.lamports = 0 then 0 else ltHash key account

namespace HashedBank

/-- The state of an account before this slot, where `None` is a dead account. -/
def initialStateOfAccount (b : HashedBank G) (key : Pubkey) : Option AccountSharedData :=
  match b.cacheForAccountsLtHash key with
  | some (.inspectAccount initialState) => initialState
  | some .bankNew => (getAccountSharedData b.ancestors key).map Prod.fst
  | none => (getAccountSharedData b.ancestors key).map Prod.fst

def mixAccount (b : HashedBank G) (accum : G) (entry : KeyedAccountSharedData) : G :=
  match b.initialStateOfAccount entry.1 with
  | none => accum + ltHashAccount ltHash entry.1 entry.2
  | some prevAccount =>
    if entry.2 = prevAccount then accum
    else accum - ltHashAccount ltHash entry.1 prevAccount + ltHashAccount ltHash entry.1 entry.2

/-- Slot 0 has no previous states, so its cache is cleared. -/
def clearCacheInSlotZero (b : HashedBank G) : HashedBank G :=
  if b.bank.slot = 0 then { b with cacheForAccountsLtHash := fun _ => none } else b

/-- The hash of this slot only. `accountsCurr` are the accounts stored in it, as the parallel fold
cuts them. -/
def calculateDeltaLtHash (b : HashedBank G) (accountsCurr : Cut KeyedAccountSharedData) : G :=
  accountsCurr.fold 0 (b.clearCacheInSlotZero.mixAccount ltHash) (· + ·)

def updateAccountsLtHash (b : HashedBank G) (accountsCurr : Cut KeyedAccountSharedData) :
    HashedBank G :=
  { b.clearCacheInSlotZero with
    accountsLtHash := b.accountsLtHash + b.calculateDeltaLtHash ltHash accountsCurr }

end HashedBank

end Hash

namespace HashedBank

variable {G : Type}

/-- A child. `bank` has what it does not take over from its parent, and `stored` is what is stored
before it processes transactions. -/
def newFromParent (parent : HashedBank G) (bank : Bank) (stored : List KeyedAccountSharedData) :
    HashedBank G :=
  let accounts := storeAccounts parent.bank.accounts bank.slot stored
  { bank := { bank with accounts }
    ancestors := parent.bank.accounts
    cacheForAccountsLtHash := fun key =>
      if (accounts key).any fun entry => entry.2 = bank.slot then some .bankNew else none
    accountsLtHash := parent.accountsLtHash }

def newFromGenesis [Zero G] (bank : Bank) (stored : List KeyedAccountSharedData) : HashedBank G where
  bank := { bank with slot := 0, accounts := storeAccounts (fun _ => none) 0 stored }
  ancestors _ := none
  cacheForAccountsLtHash _ := none
  accountsLtHash := 0

/-- The accounts stored in the slot of a bank, each once, in the order that they are listed in. -/
structure ListsSlot (b : Bank) (accountsCurr : List KeyedAccountSharedData) : Prop where
  nodup : (accountsCurr.map Prod.fst).Nodup
  mem : ∀ entry, entry ∈ accountsCurr ↔ b.accounts entry.1 = some (entry.2, b.slot)

end HashedBank

end BlackBull.Runtime
