import BlackBull.TransactionView.Frame

/-!
# Views of serialized transactions

`transaction-view/src`: the accessors of `transaction_frame.rs` and `transaction_config_frame.rs`,
the two iterators, `sanitize.rs` and `transaction_view.rs`.
-/

namespace BlackBull.TransactionView

/-- All items of an iterator, which takes at most `fuel` turns. -/
def drain {σ α : Type} (next : σ → Result (Option (α × σ))) : ℕ → σ → Result (List α)
  | 0, _ => .error .outOfFuel
  | fuel + 1, s => do
    match ← next s with
    | none => pure []
    | some (a, s') =>
      let as ← drain next fuel s'
      pure (a :: as)

structure SvmInstruction where
  programIdIndex : UInt8
  accounts : List UInt8
  data : List UInt8
  deriving DecidableEq

structure SvmMessageAddressTableLookup where
  accountKey : ByteBlock 32
  writableIndexes : List UInt8
  readonlyIndexes : List UInt8
  deriving DecidableEq

inductive InstructionsIterator
  | legacyAndV0 (offset numInstructions index : ℕ) (frames : List LegacyAndV0InstructionFrame)
  | v1 (index numInstructions headersOffset payloadsOffset : ℕ)

def InstructionsFrame.iter : InstructionsFrame → InstructionsIterator
  | legacyAndV0 numInstructions offset frames => .legacyAndV0 offset numInstructions 0 frames
  | v1 numInstructions headersOffset payloadsOffset =>
    .v1 0 numInstructions headersOffset payloadsOffset

namespace InstructionsIterator

def forLegacyAndV0 (b : Slice) (frame : LegacyAndV0InstructionFrame) : ReadM SvmInstruction := do
  let programIdIndex ← uncheckedReadByte b
  modify (wrappingAdd · frame.numAccountsLen)
  let accounts ← uncheckedReadSliceData b frame.numAccounts
  modify (wrappingAdd · frame.dataLenLen)
  let data ← uncheckedReadSliceData b frame.dataLen
  pure { programIdIndex, accounts, data }

def forV1 (b : Slice) (header : V1InstructionHeader) : ReadM SvmInstruction := do
  let accounts ← uncheckedReadSliceData b header.numAccounts.toNat
  let data ← uncheckedReadSliceData b header.dataLen
  pure { programIdIndex := header.programIdIndex, accounts, data }

/-- The next instruction. An index outside of the frames panics. -/
def next (b : Slice) : InstructionsIterator → Result (Option (SvmInstruction × InstructionsIterator))
  | legacyAndV0 offset numInstructions index frames =>
    if numInstructions ≤ index then .ok none
    else
      match frames[index]? with
      | none => .error .panic
      | some frame => do
        let (instruction, offset) ← forLegacyAndV0 b frame offset
        pure (some (instruction,
          .legacyAndV0 offset numInstructions ((index + 1) % 2 ^ 16) frames))
  | v1 index numInstructions headersOffset payloadsOffset =>
    if numInstructions ≤ index then .ok none
    else do
      let (header, headersOffset) ← InstructionsFrame.readV1Header b headersOffset
      let (instruction, payloadsOffset) ← forV1 b header payloadsOffset
      pure (some (instruction,
        .v1 ((index + 1) % 2 ^ 16) numInstructions headersOffset payloadsOffset))

end InstructionsIterator

structure AddressTableLookupIterator where
  offset : ℕ
  numAddressTableLookups : UInt8
  index : UInt8

namespace AddressTableLookupIterator

def readLookup (b : Slice) : ReadM SvmMessageAddressTableLookup := do
  let accountKey ← readType b 32
  let numWriteAccounts ← optimizedReadCompressedU16 b
  let writableIndexes ← readSliceData b numWriteAccounts
  let numReadAccounts ← optimizedReadCompressedU16 b
  let readonlyIndexes ← readSliceData b numReadAccounts
  pure { accountKey, writableIndexes, readonlyIndexes }

/-- The next lookup. The reads are checked, and an error of one ends the iteration. -/
def next (b : Slice) (it : AddressTableLookupIterator) :
    Result (Option (SvmMessageAddressTableLookup × AddressTableLookupIterator)) :=
  if it.index < it.numAddressTableLookups then
    match readLookup b it.offset with
    | .ok (lookup, offset) => .ok (some (lookup, { it with offset, index := it.index + 1 }))
    | .error (.error _) => .ok none
    | .error stop => .error stop
  else .ok none

end AddressTableLookupIterator

structure View where
  data : Slice
  frame : TransactionFrame

namespace View

def tryNewUnsanitized (data : Slice) : Result View := do
  let frame ← TransactionFrame.tryNew data
  pure { data, frame }

variable (v : View)

def version : TransactionVersion := v.frame.messageHeader.version

def numSignatures : UInt8 := v.frame.signature.numSignatures

def numRequiredSignatures : UInt8 := v.frame.messageHeader.numRequiredSignatures

def numReadonlySignedStaticAccounts : UInt8 :=
  v.frame.messageHeader.numReadonlySignedAccounts

def numReadonlyUnsignedStaticAccounts : UInt8 :=
  v.frame.messageHeader.numReadonlyUnsignedAccounts

def numStaticAccountKeys : UInt8 := v.frame.staticAccountKeys.numStaticAccounts

def numInstructions : ℕ := v.frame.instructions.numInstructions

def signatures : Result (List (ByteBlock 64)) :=
  rawBlocks v.data 64 v.frame.signature.offset v.numSignatures.toNat

def staticAccountKeys : Result (List (ByteBlock 32)) :=
  rawBlocks v.data 32 v.frame.staticAccountKeys.offset v.numStaticAccountKeys.toNat

def recentBlockhash : Result (ByteBlock 32) :=
  uncheckedCopyValue v.data 32 v.frame.recentBlockhashOffset

def instructions : Result (List SvmInstruction) :=
  drain (InstructionsIterator.next v.data) (v.numInstructions + 1) v.frame.instructions.iter

def addressTableLookups : Result (List SvmMessageAddressTableLookup) :=
  drain (AddressTableLookupIterator.next v.data)
    (v.frame.addressTableLookup.numAddressTableLookups.toNat + 1)
    { offset := v.frame.addressTableLookup.offset
      numAddressTableLookups := v.frame.addressTableLookup.numAddressTableLookups
      index := 0 }

def configValue (size bit : ℕ) : Result (Option ℕ) :=
  match v.frame.transactionConfigFrame.wordOffset bit with
  | none => .ok none
  | some offset => do
    let value ← uncheckedCopyValue v.data size offset
    pure (some (leNat value.bytes))

def priorityFeeLamports : Result (Option UInt64) := do
  pure ((← v.configValue 8 0).map UInt64.ofNat)

def computeUnitLimit : Result (Option UInt32) := do
  pure ((← v.configValue 4 2).map UInt32.ofNat)

def loadedAccountsDataSizeLimit : Result (Option UInt32) := do
  pure ((← v.configValue 4 3).map UInt32.ofNat)

def requestedHeapSize : Result (Option UInt32) := do
  pure ((← v.configValue 4 4).map UInt32.ofNat)

/-- `&self.data()[start..end]` of the message range -/
def messageData : Result (List UInt8) :=
  let start := v.frame.messageHeader.offset
  let stop :=
    match v.version with
    | .v1 => v.frame.signature.offset
    | _ => v.frame.dataLen
  if start ≤ stop ∧ stop ≤ v.data.length then .ok ((v.data.bytes.drop start).take (stop - start))
  else .error .panic

def maxTransactionSize : TransactionVersion → ℕ
  | .legacy => packetDataSize
  | .v0 => packetDataSize
  | .v1 => 4096

def sanitizeTransactionSize : Result Unit :=
  if maxTransactionSize v.version < v.data.length then sanitizeError else .ok ()

def sanitizeMessageHeader : Result Unit :=
  if v.numRequiredSignatures < 1 then sanitizeError
  else if v.numRequiredSignatures ≤ v.numReadonlySignedStaticAccounts then sanitizeError
  else if v.numStaticAccountKeys - v.numRequiredSignatures < v.numReadonlyUnsignedStaticAccounts then
    sanitizeError
  else .ok ()

def minHeapFrameBytes : UInt32 := 32 * 1024

def maxHeapFrameBytes : UInt32 := 256 * 1024

def sanitizeConfig : Result Unit := do
  match ← v.requestedHeapSize with
  | none => pure ()
  | some heapSize =>
    if ¬(minHeapFrameBytes ≤ heapSize ∧ heapSize ≤ maxHeapFrameBytes) ∨ heapSize % 1024 ≠ 0 then
      sanitizeError
    else pure ()

def sanitizeSignatures : Result Unit :=
  if v.numSignatures ≠ v.numRequiredSignatures then sanitizeError
  else if maxSignaturesPerPacket < v.numSignatures.toNat then sanitizeError
  else if v.numStaticAccountKeys < v.numSignatures then sanitizeError
  else .ok ()

def totalNumberOfAccounts : ℕ :=
  let total := min (v.numStaticAccountKeys.toNat
    + v.frame.addressTableLookup.totalWritableLookupAccounts) (2 ^ 16 - 1)
  min (total + v.frame.addressTableLookup.totalReadonlyLookupAccounts) (2 ^ 16 - 1)

def addressesLimit : TransactionVersion → ℕ
  | .legacy => 256
  | .v0 => 256
  | .v1 => 64

def sanitizeAccountAccess : Result Unit :=
  if addressesLimit v.version < v.totalNumberOfAccounts then sanitizeError else .ok ()

def maxInstructionTraceLength : ℕ := 64

def maxAccountsPerInstruction : ℕ := 255

def sanitizeInstruction (enableInstructionAccountsLimit : Bool) (ix : SvmInstruction) :
    Result Unit :=
  if v.numStaticAccountKeys - 1 < ix.programIdIndex then sanitizeError
  else if ix.programIdIndex = 0 then sanitizeError
  else if ix.accounts.any (UInt8.ofNat ((v.totalNumberOfAccounts + 2 ^ 16 - 1) % 2 ^ 16) < ·) then
    sanitizeError
  else if enableInstructionAccountsLimit ∧ maxAccountsPerInstruction < ix.accounts.length then
    sanitizeError
  else .ok ()

def sanitizeInstructions (enableInstructionAccountsLimit : Bool) : Result Unit := do
  if maxInstructionTraceLength < v.numInstructions then sanitizeError
  else
    let instructions ← v.instructions
    instructions.forM (v.sanitizeInstruction enableInstructionAccountsLimit)

def sanitizeAddressTableLookups : Result Unit := do
  let lookups ← v.addressTableLookups
  lookups.forM fun lookup =>
    if lookup.writableIndexes.isEmpty ∧ lookup.readonlyIndexes.isEmpty then sanitizeError else .ok ()

def sanitize (enableInstructionAccountsLimit : Bool) : Result Unit := do
  v.sanitizeTransactionSize
  v.sanitizeMessageHeader
  v.sanitizeConfig
  v.sanitizeSignatures
  v.sanitizeAccountAccess
  v.sanitizeInstructions enableInstructionAccountsLimit
  v.sanitizeAddressTableLookups

def tryNewSanitized (data : Slice) (enableInstructionAccountsLimit : Bool) : Result View := do
  let view ← tryNewUnsanitized data
  view.sanitize enableInstructionAccountsLimit
  pure view

end View

end BlackBull.TransactionView
