import BlackBull.TransactionView.View

/-!
# Transactions and their encoding

What a serialized transaction says, and how it is written.
-/

namespace BlackBull.TransactionView

def compactU16 (n : ℕ) : List UInt8 :=
  if n < 2 ^ 7 then [.ofNat n]
  else if n < 2 ^ 14 then [.ofNat (n % 2 ^ 7 + 2 ^ 7), .ofNat (n / 2 ^ 7)]
  else [.ofNat (n % 2 ^ 7 + 2 ^ 7), .ofNat (n / 2 ^ 7 % 2 ^ 7 + 2 ^ 7), .ofNat (n / 2 ^ 14)]

def shortVec (w : List UInt8) : List UInt8 := compactU16 w.length ++ w

def SvmInstruction.encode (ix : SvmInstruction) : List UInt8 :=
  [ix.programIdIndex] ++ shortVec ix.accounts ++ shortVec ix.data

def SvmInstruction.encodeHeader (ix : SvmInstruction) : List UInt8 :=
  [ix.programIdIndex, .ofNat ix.accounts.length] ++ leBytes 2 ix.data.length

def SvmInstruction.encodePayload (ix : SvmInstruction) : List UInt8 := ix.accounts ++ ix.data

def SvmMessageAddressTableLookup.encode (l : SvmMessageAddressTableLookup) : List UInt8 :=
  l.accountKey.bytes ++ shortVec l.writableIndexes ++ shortVec l.readonlyIndexes

structure Config where
  priorityFeeLamports : Option UInt64
  computeUnitLimit : Option UInt32
  loadedAccountsDataSizeLimit : Option UInt32
  requestedHeapSize : Option UInt32
  deriving DecidableEq

namespace Config

def mask (c : Config) : ℕ :=
  (if c.priorityFeeLamports.isSome then 3 else 0) + (if c.computeUnitLimit.isSome then 4 else 0)
    + (if c.loadedAccountsDataSizeLimit.isSome then 8 else 0)
    + (if c.requestedHeapSize.isSome then 16 else 0)

def encodeValues (c : Config) : List UInt8 :=
  c.priorityFeeLamports.elim [] (leBytes 8 ·.toNat) ++ c.computeUnitLimit.elim [] (leBytes 4 ·.toNat)
    ++ c.loadedAccountsDataSizeLimit.elim [] (leBytes 4 ·.toNat)
    ++ c.requestedHeapSize.elim [] (leBytes 4 ·.toNat)

end Config

/-- What transactions of the three versions have beside what they share. -/
inductive Body
  | legacy
  | v0 (lookups : List SvmMessageAddressTableLookup)
  | v1 (config : Config)

structure Transaction where
  signatures : List (ByteBlock 64)
  numRequiredSignatures : UInt8
  numReadonlySignedAccounts : UInt8
  numReadonlyUnsignedAccounts : UInt8
  accountKeys : List (ByteBlock 32)
  recentBlockhash : ByteBlock 32
  instructions : List SvmInstruction
  body : Body

namespace Transaction

variable (tx : Transaction)

def version : TransactionVersion :=
  match tx.body with
  | .legacy => .legacy
  | .v0 _ => .v0
  | .v1 _ => .v1

def header : List UInt8 :=
  [tx.numRequiredSignatures, tx.numReadonlySignedAccounts, tx.numReadonlyUnsignedAccounts]

def encodeCommon : List UInt8 :=
  tx.header ++ (compactU16 tx.accountKeys.length ++ ByteBlock.flatten tx.accountKeys)
    ++ tx.recentBlockhash.bytes
    ++ (compactU16 tx.instructions.length ++ tx.instructions.flatMap SvmInstruction.encode)

def encodeMessage : List UInt8 :=
  match tx.body with
  | .legacy => tx.encodeCommon
  | .v0 lookups =>
    [0x80] ++ tx.encodeCommon
      ++ (compactU16 lookups.length ++ lookups.flatMap SvmMessageAddressTableLookup.encode)
  | .v1 config =>
    [0x81] ++ tx.header ++ leBytes 4 config.mask ++ tx.recentBlockhash.bytes
      ++ [.ofNat tx.instructions.length, .ofNat tx.accountKeys.length]
      ++ ByteBlock.flatten tx.accountKeys ++ config.encodeValues
      ++ tx.instructions.flatMap SvmInstruction.encodeHeader
      ++ tx.instructions.flatMap SvmInstruction.encodePayload

def encode : List UInt8 :=
  match tx.body with
  | .v1 _ => tx.encodeMessage ++ ByteBlock.flatten tx.signatures
  | _ => compactU16 tx.signatures.length ++ ByteBlock.flatten tx.signatures ++ tx.encodeMessage

def totalAccounts : ℕ :=
  match tx.body with
  | .v0 lookups =>
    tx.accountKeys.length + (lookups.map fun l => l.writableIndexes.length).sum
      + (lookups.map fun l => l.readonlyIndexes.length).sum
  | _ => tx.accountKeys.length

/-- The rules that sanitized transactions keep. -/
structure Sanitary (enableInstructionAccountsLimit : Bool) (tx : Transaction) : Prop where
  required_pos : 1 ≤ tx.numRequiredSignatures.toNat
  payer_writable : tx.numReadonlySignedAccounts.toNat < tx.numRequiredSignatures.toNat
  unsigned_le : tx.numReadonlyUnsignedAccounts.toNat + tx.numRequiredSignatures.toNat
    ≤ tx.accountKeys.length
  signatures_eq : tx.signatures.length = tx.numRequiredSignatures.toNat
  signatures_le : tx.signatures.length ≤ 12
  accounts_le : tx.totalAccounts ≤ View.addressesLimit tx.version
  instructions_le : tx.instructions.length ≤ 64
  programs : ∀ ix ∈ tx.instructions, 0 < ix.programIdIndex.toNat
    ∧ ix.programIdIndex.toNat < tx.accountKeys.length
  accounts : ∀ ix ∈ tx.instructions, ∀ i ∈ ix.accounts, i.toNat < tx.totalAccounts
  accounts_limit : enableInstructionAccountsLimit → ∀ ix ∈ tx.instructions, ix.accounts.length ≤ 255
  heap_size : ∀ config heapSize, tx.body = .v1 config → config.requestedHeapSize = some heapSize →
    32 * 1024 ≤ heapSize.toNat ∧ heapSize.toNat ≤ 256 * 1024 ∧ heapSize.toNat % 1024 = 0
  lookups : ∀ lookups, tx.body = .v0 lookups →
    ∀ l ∈ lookups, l.writableIndexes ≠ [] ∨ l.readonlyIndexes ≠ []

/-- The headers of the v1 layout count the accounts of an instruction in one byte. -/
def FitsLayout : Prop :=
  ∀ config, tx.body = .v1 config → ∀ ix ∈ tx.instructions, ix.accounts.length < 2 ^ 8

end Transaction

/-- The transaction as it is read through the accessors. -/
def View.transaction (v : View) : Result Transaction := do
  let signatures ← v.signatures
  let accountKeys ← v.staticAccountKeys
  let recentBlockhash ← v.recentBlockhash
  let instructions ← v.instructions
  let body ← match v.version with
    | .legacy => pure .legacy
    | .v0 => do
      let lookups ← v.addressTableLookups
      pure (.v0 lookups)
    | .v1 => do
      let priorityFeeLamports ← v.priorityFeeLamports
      let computeUnitLimit ← v.computeUnitLimit
      let loadedAccountsDataSizeLimit ← v.loadedAccountsDataSizeLimit
      let requestedHeapSize ← v.requestedHeapSize
      pure (.v1 { priorityFeeLamports, computeUnitLimit, loadedAccountsDataSizeLimit,
                  requestedHeapSize })
  pure
    { signatures, accountKeys, recentBlockhash, instructions, body
      numRequiredSignatures := v.numRequiredSignatures
      numReadonlySignedAccounts := v.numReadonlySignedStaticAccounts
      numReadonlyUnsignedAccounts := v.numReadonlyUnsignedStaticAccounts }

end BlackBull.TransactionView
