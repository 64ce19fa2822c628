import BlackBull.Svm.TransactionProcessor

/-!
# The bank

The parts of `runtime/src/bank.rs` and `bank/fee_distribution.rs` that move lamports: what
`commit_transactions` stores and collects, the distribution of the collected fees, and the
incinerator.
-/

namespace BlackBull.Runtime

open Svm

def saturatingAdd (a b : UInt64) : UInt64 := .ofNat (min (a.toNat + b.toNat) (2 ^ 64 - 1))

def saturatingSub (a b : UInt64) : UInt64 := .ofNat (a.toNat - b.toNat)

def saturatingMul (a b : UInt64) : UInt64 := .ofNat (min (a.toNat * b.toNat) (2 ^ 64 - 1))

structure SignatureCounts where
  numTransactionSignatures : UInt64
  numEd25519Signatures : UInt64
  numSecp256k1Signatures : UInt64
  numSecp256r1Signatures : UInt64

def calculateSignatureFee (counts : SignatureCounts) (lamportsPerSignature : UInt64) : UInt64 :=
  let signatureCount := saturatingAdd (saturatingAdd
    (saturatingAdd counts.numTransactionSignatures counts.numEd25519Signatures)
    counts.numSecp256k1Signatures) counts.numSecp256r1Signatures
  saturatingMul signatureCount lamportsPerSignature

def calculateFeeDetails (counts : SignatureCounts) (lamportsPerSignature prioritizationFee : UInt64) :
    FeeDetails where
  transactionFee := calculateSignatureFee counts lamportsPerSignature
  prioritizationFee := prioritizationFee

structure CollectorFeeDetails where
  transactionFee : UInt64
  priorityFee : UInt64
  deriving DecidableEq, Repr

namespace CollectorFeeDetails

def accumulate (d : CollectorFeeDetails) (feeDetails : FeeDetails) : CollectorFeeDetails where
  transactionFee := saturatingAdd d.transactionFee feeDetails.transactionFee
  priorityFee := saturatingAdd d.priorityFee feeDetails.prioritizationFee

def totalTransactionFee (d : CollectorFeeDetails) : UInt64 :=
  saturatingAdd d.transactionFee d.priorityFee

end CollectorFeeDetails

structure SlotLeader where
  id : Pubkey
  voteAddress : Pubkey

structure RewardInfo where
  lamports : Int64
  postBalance : UInt64
  deriving DecidableEq

/-- `leaderVoteAccount` is the vote account of the leader in the stakes of the epoch, with its block
revenue collector. -/
structure Bank where
  slot : ℕ
  accounts : Accounts
  capitalization : UInt64
  collectorFeeDetails : CollectorFeeDetails
  rewards : List (Pubkey × RewardInfo)
  lamportsPerSignature : UInt64
  leader : SlotLeader
  leaderVoteAccount : Option (Option Pubkey)
  customCommissionCollector : Bool
  relaxPostExecMinBalanceCheck : Bool
  rent : Rent
  isReserved : Pubkey → Bool

inductive DepositFeeError
  | invalidRentPayingAccount
  | lamportOverflow
  | invalidAccountOwner
  | reservedCollector
  deriving DecidableEq, Repr

structure FeeDistribution where
  deposit : UInt64
  burn : UInt64
  deriving DecidableEq, Repr

def systemProgramId : Pubkey := ⟨List.replicate 32 0, List.length_replicate⟩

def checkedAdd (a b : UInt64) : Option UInt64 :=
  if a.toNat + b.toNat < 2 ^ 64 then some (a + b) else none

namespace Bank

variable (b : Bank)

def getAccount (key : Pubkey) : Option AccountSharedData :=
  (getAccountSharedData b.accounts key).map Prod.fst

def storeAccount (key : Pubkey) (account : AccountSharedData) : Bank :=
  { b with accounts := storeAccounts b.accounts b.slot [(key, account)] }

/-- A transaction with what the checks before its processing read off it. -/
structure CheckedTransaction where
  tx : SvmTransaction
  signatureCounts : SignatureCounts
  priorityFeeLamports : UInt64
  /-- the outcome of the checks, and what they pass on beside the fee -/
  check : Except TransactionError (Option Pubkey × ExecutionBudget × ℕ)

def CheckedTransaction.feeDetails (t : CheckedTransaction) (lamportsPerSignature : UInt64) :
    FeeDetails :=
  calculateFeeDetails t.signatureCounts lamportsPerSignature t.priorityFeeLamports

def checkResult (t : CheckedTransaction) : TransactionCheckResult :=
  t.check.map fun (nonceAddress, budget, limit) =>
    { nonceAddress, budget, loadedAccountsDataSizeLimit := limit
      feeDetails := t.feeDetails b.lamportsPerSignature }

section Commit

variable {κ δ : Type}

def feeDetailsOf : ProcessedTransaction δ → FeeDetails
  | .executed tx => tx.loadedTransaction.feeDetails
  | .feesOnly tx => tx.feeDetails

def accumulateResult (sdk : Sdk) (total : FeeDetails) : TransactionProcessingResult δ → FeeDetails
  | .ok processedTx => sdk.accumulate total (feeDetailsOf processedTx)
  | .error _ => total

def filterProgramErrorsAndCollectFeeDetails (sdk : Sdk) (b : Bank)
    (processingResults : List (TransactionProcessingResult δ)) : Bank :=
  let accumulatedFeeDetails := processingResults.foldl (accumulateResult sdk) ⟨0, 0⟩
  { b with collectorFeeDetails := b.collectorFeeDetails.accumulate accumulatedFeeDetails }

def commitTransactions (sdk : Sdk) (b : Bank) (txs : List SvmTransaction)
    (processingResults : List (TransactionProcessingResult δ)) : Bank :=
  filterProgramErrorsAndCollectFeeDetails sdk
    { b with
      accounts := storeAccounts b.accounts b.slot (collectAccountsToStore txs processingResults) }
    processingResults

variable (p : TransactionBatchProcessor κ δ) (sdk : Sdk) (env : TransactionProcessingEnvironment)
  (config : TransactionProcessingConfig)

def loadExecuteAndCommitTransactions (b : Bank) (batch : List CheckedTransaction) : Bank :=
  let txs := batch.map CheckedTransaction.tx
  let output := p.loadAndExecuteSanitizedTransactions sdk env config b.accounts txs
    (batch.map b.checkResult)
  b.commitTransactions sdk txs output.processingResults

end Commit

def burnPercent : UInt64 := 50

def calculateRewardAndBurnFeeDetails (feeDetails : CollectorFeeDetails) : FeeDistribution :=
  if feeDetails.transactionFee = 0 then ⟨0, 0⟩
  else
    let burn := feeDetails.transactionFee * burnPercent / 100
    { deposit := saturatingAdd feeDetails.priorityFee (saturatingSub feeDetails.transactionFee burn)
      burn }

def checkCollectorAccount (collectorId : Pubkey) (preLamports : UInt64)
    (account : AccountSharedData) : Except DepositFeeError Unit :=
  if account.owner ≠ systemProgramId then .error .invalidAccountOwner
  else if b.isReserved collectorId then .error .reservedCollector
  else if collectorId ≠ incineratorId ∧ ¬ b.rent.isExempt account.lamports account.data.length
      ∧ (¬ b.relaxPostExecMinBalanceCheck ∨ preLamports = 0) then
    .error .invalidRentPayingAccount
  else .ok ()

def depositedAccount (collectorId : Pubkey) (fees : UInt64) :
    Except DepositFeeError AccountSharedData :=
  let account := (b.getAccount collectorId).getD default
  if b.customCommissionCollector then
    match checkedAdd account.lamports fees with
    | none => .error .lamportOverflow
    | some lamports => do
      if collectorId ≠ b.leader.voteAddress then
        b.checkCollectorAccount collectorId account.lamports { account with lamports }
      else pure ()
      pure { account with lamports }
  else if account.owner ≠ systemProgramId then .error .invalidAccountOwner
  else
    match checkedAdd account.lamports fees with
    | none => .error .lamportOverflow
    | some lamports =>
      let recipientPreRentState := getAccountRentState b.rent account.lamports account.data.length
      let recipientPostRentState := getAccountRentState b.rent lamports account.data.length
      if transitionAllowed recipientPreRentState recipientPostRentState then
        .ok { account with lamports }
      else .error .invalidRentPayingAccount

def depositFees (collectorId : Pubkey) (fees : UInt64) :
    Except DepositFeeError (Bank × UInt64) := do
  let account ← b.depositedAccount collectorId fees
  pure (b.storeAccount collectorId account, account.lamports)

/-- Where the fees go. A leader without a vote account in the stakes of the epoch is a panic. -/
def collectorId : Option Pubkey :=
  if b.customCommissionCollector then
    b.leaderVoteAccount.map fun blockRevenueCollector => blockRevenueCollector.getD b.leader.id
  else some b.leader.id

/-- The bank, and what of the deposit must be burned. -/
def depositOrBurnFee (deposit : UInt64) : Option (Bank × UInt64) :=
  if deposit = 0 then some (b, 0)
  else b.collectorId.map fun collectorId =>
    match b.depositFees collectorId deposit with
    | .ok (b, postBalance) =>
      ({ b with
         rewards := b.rewards ++ [(collectorId, { lamports := deposit.toInt64, postBalance })] }, 0)
    | .error _ => (b, deposit)

/-- `none` stands for a panic. -/
def distributeTransactionFeeDetails : Option Bank :=
  if b.collectorFeeDetails.totalTransactionFee = 0 then some b
  else
    let distribution := calculateRewardAndBurnFeeDetails b.collectorFeeDetails
    (b.depositOrBurnFee distribution.deposit).map fun (b, burned) =>
      { b with capitalization := b.capitalization - saturatingAdd burned distribution.burn }

def getAccountModifiedSinceParent (key : Pubkey) : Option AccountSharedData :=
  ((getAccountSharedData b.accounts key).filter fun entry => entry.2 = b.slot).map Prod.fst

def runIncinerator : Bank :=
  match b.getAccountModifiedSinceParent incineratorId with
  | some account =>
    { b.storeAccount incineratorId default with
      capitalization := b.capitalization - account.lamports }
  | none => b

def settleFees : Option Bank := b.distributeTransactionFeeDetails.map runIncinerator

end Bank

end BlackBull.Runtime
