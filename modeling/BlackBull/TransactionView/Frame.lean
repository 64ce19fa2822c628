import BlackBull.Lib.Layout

/-!
# The frame of a serialized transaction

`transaction-view/src`: `bytes.rs` and the frames, which hold where the parts of a transaction stand
in its bytes, so that accessors can read them without a check.
-/

namespace BlackBull.TransactionView

/-- A byte slice is never longer than `isize::MAX`. -/
structure Slice where
  bytes : List UInt8
  length_lt : bytes.length < 2 ^ 63

namespace Slice

def length (b : Slice) : ℕ := b.bytes.length

end Slice

inductive TransactionViewError
  | parseError
  | sanitizeError
  deriving DecidableEq, Repr

/-- A returned error, a read outside of the bytes, or a panic; a loop that does not end in its fuel
stops as well. -/
inductive ViewStop
  | error (e : TransactionViewError)
  | outOfBounds
  | panic
  | outOfFuel
  deriving DecidableEq, Repr

abbrev Result (α : Type) := Except ViewStop α

/-- A reader moves an offset. -/
abbrev ReadM := StateT ℕ (Except ViewStop)

def parseError {α : Type} : Result α := .error (.error .parseError)

def sanitizeError {α : Type} : Result α := .error (.error .sanitizeError)

def wrappingAdd (a b : ℕ) : ℕ := (a + b) % 2 ^ 64

def wrappingSub (a b : ℕ) : ℕ := (a + 2 ^ 64 - b) % 2 ^ 64

def wrappingMul (a b : ℕ) : ℕ := a * b % 2 ^ 64

def checkedAdd (a b : ℕ) : Result ℕ := if a + b < 2 ^ 64 then .ok (a + b) else parseError

def asU16 (n : ℕ) : ℕ := n % 2 ^ 16

variable (b : Slice)

def checkRemaining (offset numBytes : ℕ) : Result Unit :=
  if wrappingSub b.length offset < numBytes then parseError else .ok ()

def readByte : ReadM UInt8 := fun offset =>
  match b.bytes[offset]? with
  | some value => .ok (value, wrappingAdd offset 1)
  | none => parseError

def uncheckedReadByte : ReadM UInt8 := fun offset =>
  match b.bytes[offset]? with
  | some value => .ok (value, wrappingAdd offset 1)
  | none => .error .outOfBounds

/-- A compact `u16` of at most two bytes. -/
def optimizedReadCompressedU16 : ReadM ℕ := fun offset =>
  match b.bytes[offset]? with
  | none => parseError
  | some byte1 =>
    if byte1 &&& 0x80 = 0 then .ok ((byte1 &&& 0x7F).toNat, wrappingAdd offset 1)
    else
      match b.bytes[wrappingAdd offset 1]? with
      | none => parseError
      | some byte2 =>
        if byte2 = 0 ∨ byte2 &&& 0x80 ≠ 0 then parseError
        else
          .ok ((byte1 &&& 0x7F).toNat ||| ((byte2 &&& 0x7F).toNat <<< 7), wrappingAdd offset 2)

def advanceOffsetForArray (size numElements : ℕ) : ReadM Unit := fun offset => do
  checkRemaining b offset (wrappingMul numElements size)
  pure ((), wrappingAdd offset (wrappingMul numElements size))

def advanceOffsetForType (size : ℕ) : ReadM Unit := fun offset => do
  checkRemaining b offset size
  pure ((), wrappingAdd offset size)

def rawSlice (offset numBytes : ℕ) : Result (List UInt8) :=
  if offset + numBytes ≤ b.length then .ok ((b.bytes.drop offset).take numBytes)
  else .error .outOfBounds

def rawBlocks (size offset n : ℕ) : Result (List (ByteBlock size)) :=
  if h : offset + n * size ≤ b.length then
    .ok (ByteBlock.cut size n ((b.bytes.drop offset).take (n * size)) (by
      rw [List.length_take, List.length_drop]
      have : b.length = b.bytes.length := rfl
      omega))
  else .error .outOfBounds

def uncheckedCopyValue (size offset : ℕ) : Result (ByteBlock size) :=
  if h : offset + size ≤ b.length then
    .ok ⟨(b.bytes.drop offset).take size, by
      rw [List.length_take, List.length_drop]
      have : b.length = b.bytes.length := rfl
      omega⟩
  else .error .outOfBounds

def uncheckedReadSliceData (numElements : ℕ) : ReadM (List UInt8) := fun offset => do
  let data ← rawSlice b offset numElements
  pure (data, wrappingAdd offset numElements)

def readSliceData (numElements : ℕ) : ReadM (List UInt8) := fun offset => do
  let (_, next) ← advanceOffsetForArray b 1 numElements offset
  let data ← rawSlice b offset numElements
  pure (data, next)

def readType (size : ℕ) : ReadM (ByteBlock size) := fun offset => do
  let (_, next) ← advanceOffsetForType b size offset
  let data ← uncheckedCopyValue b size offset
  pure (data, next)

def packetDataSize : ℕ := 1232

def signatureSize : ℕ := 64

def pubkeySize : ℕ := 32

def hashSize : ℕ := 32

def maxSignaturesPerPacket : ℕ := packetDataSize / (signatureSize + pubkeySize)

structure SignatureFrame where
  numSignatures : UInt8
  offset : ℕ

def SignatureFrame.tryNew : ReadM SignatureFrame := do
  let numSignatures ← readByte b
  if numSignatures = 0 ∨ maxSignaturesPerPacket < numSignatures.toNat then
    throw (.error .parseError)
  else
    let signatureOffset ← get
    advanceOffsetForArray b signatureSize numSignatures.toNat
    pure ⟨numSignatures, asU16 signatureOffset⟩

inductive TransactionVersion
  | legacy
  | v0
  | v1
  deriving DecidableEq, Repr

structure MessageHeaderFrame where
  offset : ℕ
  version : TransactionVersion
  numRequiredSignatures : UInt8
  numReadonlySignedAccounts : UInt8
  numReadonlyUnsignedAccounts : UInt8

def messageVersionPrefixByte : UInt8 := 0x80

/-- The version, and the first byte of the header after its prefix. -/
def readVersion (messagePrefixByte : UInt8) : ReadM (TransactionVersion × UInt8) :=
  if messagePrefixByte &&& messageVersionPrefixByte ≠ 0 then
    if messagePrefixByte &&& ~~~messageVersionPrefixByte = 0 then do
      let numRequiredSignatures ← readByte b
      pure (.v0, numRequiredSignatures)
    else throw (.error .parseError)
  else pure (.legacy, messagePrefixByte)

def MessageHeaderFrame.tryNew : ReadM MessageHeaderFrame := do
  let messageOffset ← get
  let messagePrefixByte ← readByte b
  let (version, numRequiredSignatures) ← readVersion b messagePrefixByte
  let numReadonlySignedAccounts ← readByte b
  let numReadonlyUnsignedAccounts ← readByte b
  pure ⟨asU16 messageOffset, version, numRequiredSignatures, numReadonlySignedAccounts,
    numReadonlyUnsignedAccounts⟩

def legacyOrV0MaxStaticAccountsPerPacket : ℕ := packetDataSize / pubkeySize

structure StaticAccountKeysFrame where
  numStaticAccounts : UInt8
  offset : ℕ

def StaticAccountKeysFrame.tryNew : ReadM StaticAccountKeysFrame := do
  let numStaticAccounts ← readByte b
  if numStaticAccounts = 0 ∨ legacyOrV0MaxStaticAccountsPerPacket < numStaticAccounts.toNat then
    throw (.error .parseError)
  else
    let staticAccountsOffset ← get
    advanceOffsetForArray b pubkeySize numStaticAccounts.toNat
    pure ⟨numStaticAccounts, asU16 staticAccountsOffset⟩

structure LegacyAndV0InstructionFrame where
  numAccounts : ℕ
  dataLen : ℕ
  numAccountsLen : ℕ
  dataLenLen : ℕ

inductive InstructionsFrame
  | legacyAndV0 (numInstructions offset : ℕ) (frames : List LegacyAndV0InstructionFrame)
  | v1 (numInstructions headersOffset payloadsOffset : ℕ)

structure V1InstructionHeader where
  programIdIndex : UInt8
  numAccounts : UInt8
  dataLen : ℕ

abbrev v1HeaderSize : ℕ := 4

def readLength : ReadM (ℕ × ℕ) := do
  let offset ← get
  let length ← optimizedReadCompressedU16 b
  let next ← get
  pure (length, wrappingSub next offset % 2 ^ 8)

namespace InstructionsFrame

def readInstruction (b : Slice) : ReadM LegacyAndV0InstructionFrame := do
  let _programIdIndex ← readByte b
  let (numAccounts, numAccountsLen) ← readLength b
  advanceOffsetForArray b 1 numAccounts
  let (dataLen, dataLenLen) ← readLength b
  advanceOffsetForArray b 1 dataLen
  pure { numAccounts, dataLen, numAccountsLen, dataLenLen }

def readInstructions (b : Slice) : ℕ → ReadM (List LegacyAndV0InstructionFrame)
  | 0 => pure []
  | n + 1 => do
    let frame ← readInstruction b
    let frames ← readInstructions b n
    pure (frame :: frames)

def tryNewForLegacyAndV0 (b : Slice) : ReadM InstructionsFrame := do
  let numInstructions ← optimizedReadCompressedU16 b
  let offset ← get
  checkRemaining b offset (wrappingMul 3 numInstructions)
  let frames ← readInstructions b numInstructions
  pure (.legacyAndV0 numInstructions (asU16 offset) frames)

def readV1Header (b : Slice) : ReadM V1InstructionHeader := fun offset => do
  let header ← uncheckedCopyValue b v1HeaderSize offset
  pure (⟨header.get 0, header.get 1, leNat [header.get 2, header.get 3]⟩,
    wrappingAdd offset v1HeaderSize)

def readPayloadLens (b : Slice) : ℕ → ℕ → ReadM ℕ
  | 0, total => pure total
  | n + 1, total => do
    let header ← readV1Header b
    let payloadLen ← checkedAdd header.numAccounts.toNat header.dataLen
    let total ← checkedAdd total payloadLen
    readPayloadLens b n total

def tryNewForV1 (b : Slice) (numInstructions : UInt8) : ReadM InstructionsFrame := fun offset => do
  let headersLen := wrappingMul v1HeaderSize numInstructions.toNat
  checkRemaining b offset headersLen
  let payloadsOffset := wrappingAdd offset headersLen
  let (totalPayloadLen, _) ← readPayloadLens b numInstructions.toNat 0 offset
  checkRemaining b payloadsOffset totalPayloadLen
  pure (.v1 numInstructions.toNat (asU16 offset) (asU16 payloadsOffset),
    wrappingAdd payloadsOffset totalPayloadLen)

def numInstructions : InstructionsFrame → ℕ
  | legacyAndV0 numInstructions _ _ => numInstructions
  | v1 numInstructions _ _ => numInstructions

end InstructionsFrame

def minSizedAtl : ℕ := pubkeySize + 1 + 1 + 1

def minSizedPacketWithAtls : ℕ :=
  1 + signatureSize + 1 + 3 + 1 + pubkeySize + hashSize + 1 + 1

def maxAtlsPerPacket : ℕ := (packetDataSize - minSizedPacketWithAtls) / minSizedAtl

structure AddressTableLookupFrame where
  numAddressTableLookups : UInt8
  offset : ℕ
  totalWritableLookupAccounts : ℕ
  totalReadonlyLookupAccounts : ℕ

namespace AddressTableLookupFrame

def empty : AddressTableLookupFrame := ⟨0, 0, 0, 0⟩

def readLookup (b : Slice) : ReadM (ℕ × ℕ) := do
  advanceOffsetForType b pubkeySize
  let numWriteAccounts ← optimizedReadCompressedU16 b
  advanceOffsetForArray b 1 numWriteAccounts
  let numReadAccounts ← optimizedReadCompressedU16 b
  advanceOffsetForArray b 1 numReadAccounts
  pure (numWriteAccounts, numReadAccounts)

def readLookups (b : Slice) : ℕ → ℕ → ℕ → ReadM (ℕ × ℕ)
  | 0, writable, readonly => pure (writable, readonly)
  | n + 1, writable, readonly => do
    let (numWriteAccounts, numReadAccounts) ← readLookup b
    readLookups b n ((writable + numWriteAccounts) % 2 ^ 32) ((readonly + numReadAccounts) % 2 ^ 32)

def toU16 (n : ℕ) : Result ℕ := if n < 2 ^ 16 then .ok n else sanitizeError

def tryNew (b : Slice) : ReadM AddressTableLookupFrame := do
  let numAddressTableLookups ← readByte b
  if maxAtlsPerPacket < numAddressTableLookups.toNat then throw (.error .parseError)
  else
    let offset ← get
    checkRemaining b offset (wrappingMul minSizedAtl numAddressTableLookups.toNat)
    let (writable, readonly) ← readLookups b numAddressTableLookups.toNat 0 0
    let totalWritableLookupAccounts ← toU16 writable
    let totalReadonlyLookupAccounts ← toU16 readonly
    pure ⟨numAddressTableLookups, asU16 offset, totalWritableLookupAccounts,
      totalReadonlyLookupAccounts⟩

end AddressTableLookupFrame

def countOnes (mask : ℕ) : ℕ := (List.range 32).countP mask.testBit

def configValueSize : ℕ := 4

structure TransactionConfigFrame where
  maskOffset : ℕ
  mask : ℕ
  valuesOffset : ℕ
  numValues : ℕ

namespace TransactionConfigFrame

def notApplicable : TransactionConfigFrame := ⟨0, 0, 0, 0⟩

def isPresent (f : TransactionConfigFrame) : Bool := f.maskOffset ≠ 0

def allowedTransactionConfigMask : ℕ := 0b11111

def sanitizeMask (mask : ℕ) : Result Unit :=
  if mask &&& (2 ^ 32 - 1 - allowedTransactionConfigMask) ≠ 0 then sanitizeError
  else if mask.testBit 0 ^^ mask.testBit 1 then sanitizeError
  else .ok ()

def tryNew (b : Slice) (maskOffset mask : ℕ) : ReadM TransactionConfigFrame := fun offset => do
  if maskOffset = 0 then .error .panic
  else
    sanitizeMask mask
    let numValues := countOnes mask % 2 ^ 8
    if 2 ^ 16 ≤ maskOffset ∨ 2 ^ 16 ≤ offset then sanitizeError
    else
      let (_, next) ← advanceOffsetForArray b configValueSize numValues offset
      pure (⟨maskOffset, mask, offset, numValues⟩, next)

def wordIndexForBit (f : TransactionConfigFrame) (bit : ℕ) : Option ℕ :=
  if !f.isPresent || !f.mask.testBit bit then none
  else some (countOnes (f.mask &&& (2 ^ bit - 1)) % 2 ^ 8)

def wordOffset (f : TransactionConfigFrame) (bit : ℕ) : Option ℕ :=
  (f.wordIndexForBit bit).map fun wordIndex =>
    wrappingAdd f.valuesOffset (wrappingMul wordIndex configValueSize)

end TransactionConfigFrame

structure TransactionFrame where
  signature : SignatureFrame
  messageHeader : MessageHeaderFrame
  staticAccountKeys : StaticAccountKeysFrame
  recentBlockhashOffset : ℕ
  instructions : InstructionsFrame
  addressTableLookup : AddressTableLookupFrame
  transactionConfigFrame : TransactionConfigFrame
  dataLen : ℕ

namespace TransactionFrame

def readAddressTableLookup (b : Slice) : TransactionVersion → ReadM AddressTableLookupFrame
  | .legacy => pure .empty
  | .v0 => AddressTableLookupFrame.tryNew b
  | .v1 => throw .panic

def tryNewAsLegacyOrV0 (b : Slice) : Result TransactionFrame := do
  let parse : ReadM TransactionFrame := do
    let signature ← SignatureFrame.tryNew b
    let messageHeader ← MessageHeaderFrame.tryNew b
    let staticAccountKeys ← StaticAccountKeysFrame.tryNew b
    let recentBlockhashOffset ← get
    advanceOffsetForType b hashSize
    let instructions ← InstructionsFrame.tryNewForLegacyAndV0 b
    let addressTableLookup ← readAddressTableLookup b messageHeader.version
    let offset ← get
    if offset ≠ b.length then throw (.error .parseError)
    else
      pure
        { signature, messageHeader, staticAccountKeys
          recentBlockhashOffset := asU16 recentBlockhashOffset
          instructions, addressTableLookup
          transactionConfigFrame := .notApplicable
          dataLen := asU16 offset }
  parse.run' 0

def fixedV1PrefixLen : ℕ := 1 + 3 + 4 + hashSize + 1 + 1

def tryNewAsV1 (b : Slice) : Result TransactionFrame := do
  let parse : ReadM TransactionFrame := do
    checkRemaining b 0 fixedV1PrefixLen
    let version ← uncheckedReadByte b
    if version &&& ~~~messageVersionPrefixByte ≠ 1 then throw (.error .parseError)
    else
      let numRequiredSignatures ← uncheckedReadByte b
      let numReadonlySignedAccounts ← uncheckedReadByte b
      let numReadonlyUnsignedAccounts ← uncheckedReadByte b
      let maskOffset ← get
      let mask ← uncheckedCopyValue b 4 maskOffset
      set (wrappingAdd maskOffset 4)
      let recentBlockhashOffset ← get
      set (wrappingAdd recentBlockhashOffset hashSize)
      let numInstructions ← uncheckedReadByte b
      let numAddresses ← uncheckedReadByte b
      let addressesOffset ← get
      advanceOffsetForArray b pubkeySize numAddresses.toNat
      let transactionConfigFrame ← TransactionConfigFrame.tryNew b maskOffset (leNat mask.bytes)
      let instructions ← InstructionsFrame.tryNewForV1 b numInstructions
      let signaturesOffset ← get
      advanceOffsetForArray b signatureSize numRequiredSignatures.toNat
      let offset ← get
      if offset ≠ b.length then throw (.error .parseError)
      else
        pure
          { signature := ⟨numRequiredSignatures, asU16 signaturesOffset⟩
            messageHeader := ⟨0, .v1, numRequiredSignatures, numReadonlySignedAccounts,
              numReadonlyUnsignedAccounts⟩
            staticAccountKeys := ⟨numAddresses, asU16 addressesOffset⟩
            recentBlockhashOffset := asU16 recentBlockhashOffset
            instructions
            addressTableLookup := .empty
            transactionConfigFrame
            dataLen := asU16 offset }
  parse.run' 0

def isLegacyOrV0 (b : Slice) : Result Bool :=
  match b.bytes[0]? with
  | some firstByte => .ok (firstByte &&& messageVersionPrefixByte = 0)
  | none => parseError

def tryNew (b : Slice) : Result TransactionFrame := do
  if ← isLegacyOrV0 b then tryNewAsLegacyOrV0 b else tryNewAsV1 b

end TransactionFrame

end BlackBull.TransactionView
