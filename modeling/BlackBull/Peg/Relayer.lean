import BlackBull.Lib.Run

/-!
# The peg relayer

`scripts/peg-relayer/index.mjs`: it watches the treasury's token account on Solana and, for each
deposit, sends the same amount of native tokens from a reserve to the address in the memo.
-/

namespace BlackBull

structure TokenBalance where
  accountIndex : ℕ
  mint : String
  amount : ℕ
  deriving DecidableEq, Repr

structure TransactionMeta where
  err : Bool := false
  preTokenBalances : Option (List TokenBalance) := some []
  postTokenBalances : Option (List TokenBalance) := some []
  deriving DecidableEq, Repr

inductive ParsedInstruction
  | text (memo : String)
  | object (memo : Option String)
  deriving DecidableEq, Repr

structure Instruction where
  program : Option String
  parsed : Option ParsedInstruction
  deriving DecidableEq, Repr

structure ParsedTransaction where
  txMeta : Option TransactionMeta
  accountKeys : List String
  instructions : List Instruction
  deriving DecidableEq, Repr

structure Deposit where
  lamports : ℕ
  dest : ℕ
  deriving DecidableEq, Repr

/-- The environment of the relayer. `publicKey` is the constructor of `PublicKey` on a trimmed text,
which throws where there is no address. -/
structure PegConfig where
  treasuryAta : String
  mint : String
  tokenDecimals : ℕ := 6
  /-- otherwise `10n ** BigInt(9 - TOKEN_DECIMALS)` throws at the start -/
  decimals_le : tokenDecimals ≤ 9 := by decide
  publicKey : String → Option ℕ

namespace PegConfig

def scale (cfg : PegConfig) : ℕ := 10 ^ (9 - cfg.tokenDecimals)

def memoText : Option ParsedInstruction → Option String
  | some (.text s) => if s = "" then none else some s
  | some (.object s) => s.filter (· ≠ "")
  | none => none

def memo (tx : ParsedTransaction) : Option String :=
  memoText ((tx.instructions.find? (·.program = some "spl-memo")).bind (·.parsed))

/-- The amount received by the treasury and the destination. Reading the balances of a transaction
without `meta` throws. -/
def parseDeposit (cfg : PegConfig) : Option ParsedTransaction → Except Unit (Option Deposit)
  | none => .ok none
  | some tx =>
    if tx.txMeta.any (·.err) then .ok none
    else
      match tx.accountKeys.findIdx? (· = cfg.treasuryAta), tx.txMeta with
      | none, _ => .ok none
      | some _, none => .error ()
      | some idx, some txMeta =>
        let pre := (txMeta.preTokenBalances.getD []).find? (·.accountIndex = idx)
        let post := (txMeta.postTokenBalances.getD []).find? (·.accountIndex = idx)
        let before := (pre.map (·.amount)).getD 0
        match post with
        | none => .ok none
        | some post =>
          if post.mint ≠ cfg.mint then .ok none
          else if post.amount ≤ before then .ok none
          else .ok ((memo tx).bind fun memo => (cfg.publicKey memo).map fun dest =>
            ⟨(post.amount - before) * cfg.scale, dest⟩)

end PegConfig

/-- `Number` of a `BigInt`: the nearest double, ties to even. -/
def toNumber (n : ℕ) : ℕ :=
  if n < 2 ^ 53 then n
  else
    let unit := 2 ^ (n.log2 - 52)
    let q := n / unit
    let r := n % unit
    if unit < 2 * r ∨ 2 * r = unit ∧ q % 2 = 1 then (q + 1) * unit else q * unit

/-- `STATE_FILE`. A write that was not finished leaves a file that does not parse. -/
inductive StateFile
  | absent
  | saved (processed : List ℕ)
  | torn
  deriving DecidableEq, Repr

def StateFile.loadState : StateFile → List ℕ
  | saved processed => processed
  | absent | torn => []

/-- Where the loop is: the call it awaits, the signature it has got to and those after it. -/
inductive RelayerPc
  | polling
  | lookingUp (signature : ℕ) (rest : List ℕ)
  | releasing (signature : ℕ) (dep : Deposit) (rest : List ℕ)
  | sending (signature : ℕ) (dep : Deposit) (rest : List ℕ)
  /-- `confirmTransaction`, of the transfer with the given number -/
  | confirming (signature : ℕ) (transfer : ℕ) (rest : List ℕ)
  /-- before `processed.add` -/
  | marking (signature : ℕ) (rest : List ℕ)
  /-- in `saveState` -/
  | saving (rest : List ℕ)
  | sleeping
  deriving DecidableEq, Repr

structure Relayer where
  processed : List ℕ
  pc : RelayerPc
  deriving DecidableEq, Repr

/-- The loop over the signatures of a poll, up to the next one that is not processed. -/
def nextSignature (processed : List ℕ) : List ℕ → RelayerPc
  | [] => .sleeping
  | signature :: rest =>
    if signature ∈ processed then nextSignature processed rest else .lookingUp signature rest

structure NativeTransfer where
  deposit : ℕ
  dest : ℕ
  lamports : ℕ
  deriving DecidableEq, Repr

structure Peg where
  /-- The transactions of the treasury's token account, oldest first. -/
  history : List (ℕ × ParsedTransaction) := []
  file : StateFile := .absent
  relayer : Option Relayer := none
  submitted : List NativeTransfer := []
  landed : List ℕ := []
  failed : List ℕ := []

inductive PegInput
  /-- A transaction of the treasury's token account is confirmed on Solana. -/
  | treasury (signature : ℕ) (tx : ParsedTransaction)
  | land (transfer : ℕ)
  | crash
  | restart
  | wake
  | rpcFailed
  | signatures
  | parsedTransaction (found : Bool)
  | blockhash
  | sent
  /-- `sendTransaction` throws, and the transfer was submitted or not. -/
  | sendFailed (submitted : Bool)
  | confirmed (err : Bool)
  | confirmFailed
  | mark
  | tear
  | written
  | writeFailed
  deriving DecidableEq, Repr

namespace Peg

def signatures (s : Peg) : List ℕ := s.history.map (·.1)

/-- The answer to `getSignaturesForAddress` with `limit: 25`, reversed. -/
def latestSignatures (s : Peg) : List ℕ := s.signatures.drop (s.signatures.length - 25)

def transaction (s : Peg) (signature : ℕ) : Option ParsedTransaction :=
  (s.history.find? (·.1 = signature)).map (·.2)

def setRelayer (s : Peg) (r : Relayer) : Peg := { s with relayer := some r }

def submit (s : Peg) (signature : ℕ) (dep : Deposit) : Peg :=
  { s with submitted := s.submitted ++ [⟨signature, dep.dest, toNumber dep.lamports⟩] }

variable (cfg : PegConfig)

def relayerStep (s : Peg) (r : Relayer) (input : PegInput) : Except Unit Peg :=
  match r.pc, input with
  | .sleeping, .wake => .ok (s.setRelayer { r with pc := .polling })
  | .polling, .rpcFailed | .lookingUp _ _, .rpcFailed | .releasing _ _ _, .rpcFailed
  | .saving _, .writeFailed | .confirming _ _ _, .confirmFailed | .sending _ _ _, .sendFailed false =>
    .ok (s.setRelayer { r with pc := .sleeping })
  | .polling, .signatures =>
    .ok (s.setRelayer { r with pc := nextSignature r.processed s.latestSignatures })
  | .lookingUp signature rest, .parsedTransaction found =>
    match cfg.parseDeposit (if found then s.transaction signature else none) with
    | .error _ => .ok (s.setRelayer { r with pc := .sleeping })
    | .ok none => .ok (s.setRelayer { r with pc := .marking signature rest })
    | .ok (some dep) => .ok (s.setRelayer { r with pc := .releasing signature dep rest })
  | .releasing signature dep rest, .blockhash =>
    .ok (s.setRelayer { r with pc := .sending signature dep rest })
  | .sending signature dep _, .sendFailed true =>
    .ok ((s.submit signature dep).setRelayer { r with pc := .sleeping })
  | .sending signature dep rest, .sent =>
    .ok ((s.submit signature dep).setRelayer
      { r with pc := .confirming signature s.submitted.length rest })
  | .confirming signature transfer rest, .confirmed err =>
    -- a confirmed transaction has been processed; its error, if any, is not looked at
    if err then
      if transfer ∈ s.landed then .error ()
      else .ok ({ s with failed := s.failed ++ [transfer] }.setRelayer
        { r with pc := .marking signature rest })
    else if transfer ∈ s.landed then .ok (s.setRelayer { r with pc := .marking signature rest })
    else .error ()
  | .marking signature rest, .mark =>
    .ok (s.setRelayer ⟨r.processed ++ [signature], .saving rest⟩)
  | .saving _, .tear => .ok { s with file := .torn }
  | .saving rest, .written =>
    .ok ({ s with file := .saved r.processed }.setRelayer
      { r with pc := nextSignature r.processed rest })
  | _, _ => .error ()

def step (s : Peg) (input : PegInput) : Except Unit (Peg × List NativeTransfer) :=
  match input with
  | .treasury signature tx =>
    if signature ∈ s.signatures then .error ()
    else .ok ({ s with history := s.history ++ [(signature, tx)] }, [])
  | .land transfer =>
    match s.submitted[transfer]? with
    | none => .error ()
    | some t =>
      if transfer ∈ s.landed ∨ transfer ∈ s.failed then .error ()
      else .ok ({ s with landed := s.landed ++ [transfer] }, [t])
  | .restart =>
    match s.relayer with
    | some _ => .error ()
    | none => .ok (s.setRelayer ⟨s.file.loadState, .polling⟩, [])
  | input =>
    match s.relayer with
    | none => .error ()
    | some r =>
      match input with
      | .crash => .ok ({ s with relayer := none }, [])
      | input => (relayerStep cfg s r input).map (·, [])

def Awaits (s : Peg) (transfer : ℕ) : Prop :=
  match s.relayer with
  | some ⟨_, .confirming _ transfer' _⟩ => transfer' = transfer
  | _ => False

instance (s : Peg) (transfer : ℕ) : Decidable (s.Awaits transfer) := by
  unfold Awaits
  split <;> infer_instance

/-- What the relayer takes to be processed, or would if it were started. -/
def processed (s : Peg) : List ℕ :=
  match s.relayer with
  | some r => r.processed
  | none => s.file.loadState

def waiting (s : Peg) : List ℕ := s.signatures.filter (· ∉ s.processed)

/-- The balance of the treasury's account, of those before or after a transaction. -/
def treasuryBalance (tx : ParsedTransaction)
    (balances : TransactionMeta → Option (List TokenBalance)) : Option TokenBalance := do
  let idx ← tx.accountKeys.findIdx? (· = cfg.treasuryAta)
  ((balances (← tx.txMeta)).getD []).find? (·.accountIndex = idx)

/-- What the treasury's account has gained by a transaction. -/
def received (tx : ParsedTransaction) : ℕ :=
  let amount := fun balances => ((treasuryBalance cfg tx balances).map (·.amount)).getD 0
  amount (·.postTokenBalances) - amount (·.preTokenBalances)

/-- The address in a memo of the transaction: in the first one that has an address. -/
def destination (tx : ParsedTransaction) : Option ℕ :=
  tx.instructions.findSome? fun i =>
    if i.program = some "spl-memo" then (PegConfig.memoText i.parsed).bind cfg.publicKey else none

/-- A deposit to be credited: the transaction did not fail, the treasury has gained tokens of the
mint by it, and a memo has an address. -/
def creditable (tx : ParsedTransaction) : Option Deposit :=
  if ¬ tx.txMeta.any (·.err)
      ∧ (treasuryBalance cfg tx (·.postTokenBalances)).any (·.mint = cfg.mint)
      ∧ 0 < received cfg tx then
    (destination cfg tx).map fun dest => ⟨received cfg tx * cfg.scale, dest⟩
  else none

/-- The transaction of a signature is a deposit to be credited. -/
def IsDeposit (s : Peg) (signature : ℕ) (dep : Deposit) : Prop :=
  ∃ tx, s.transaction signature = some tx ∧ creditable cfg tx = some dep

/-- If the transaction of a signature is to be credited, a transfer of its amount to its destination
has landed for it. -/
def Settled (s : Peg) (signature : ℕ) : Prop :=
  ∀ dep, s.IsDeposit cfg signature dep →
    ∃ i ∈ s.landed, s.submitted[i]? = some ⟨signature, dep.dest, dep.lamports⟩

end Peg

end BlackBull
