import BlackBull.Lib.Layout

/-!
# Account storage files

The layout check of `accounts-db/src/append_vec.rs`.
-/

namespace BlackBull.AppendVec

inductive AppendVecError
  | io
  | fileSizeTooSmall (size : ℕ)
  | fileSizeTooLarge (size : ℕ)
  | incorrectLayout
  | offsetOutOfBounds (offset size : ℕ)
  deriving DecidableEq

/-- The panics of a checked sum, of the index `mmap[..len]` and of an `unwrap`. -/
inductive Panic
  | overflow
  | sliceIndex
  | unwrap
  deriving DecidableEq

inductive Failure
  | panic (why : Panic)
  | error (e : AppendVecError)
  deriving DecidableEq

inductive Overflow
  | panics
  | wraps

def Overflow.add (v : Overflow) (x y : ℕ) : Except Failure ℕ :=
  if x + y < 2 ^ 64 then .ok (x + y)
  else match v with
    | .panics => .error (.panic .overflow)
    | .wraps => .ok ((x + y) % 2 ^ 64)

def u64Align (v : Overflow) (addr : ℕ) : Except Failure ℕ := do
  let x ← v.add addr 7
  return x / 8 * 8

def storeMetaOverhead : ℕ := 136

def maximumAppendVecFileSize : ℕ := 16 * 1024 * 1024 * 1024

def sanitizeLenAndSize (currentLen fileSize : ℕ) : Except AppendVecError Unit :=
  if fileSize = 0 then .error (.fileSizeTooSmall fileSize)
  else if maximumAppendVecFileSize < fileSize then .error (.fileSizeTooLarge fileSize)
  else if fileSize < currentLen then .error (.offsetOutOfBounds currentLen fileSize)
  else .ok ()

structure StoredMeta where
  writeVersionObsolete : ℕ
  dataLen : ℕ
  pubkey : List UInt8
  deriving DecidableEq

structure AccountMeta where
  lamports : ℕ
  rentEpoch : ℕ
  owner : List UInt8
  /-- The byte of the flag, which the file may have put beyond 1. -/
  executable : UInt8
  deriving DecidableEq

structure StoredAccountNoData where
  storedMeta : StoredMeta
  accountMeta : AccountMeta
  offset : ℕ
  storedSize : ℕ
  deriving DecidableEq

def defaultKey : List UInt8 := List.replicate 32 0

def StoredMeta.ofBytes (w : List UInt8) : StoredMeta where
  writeVersionObsolete := leNat (w.take 8)
  dataLen := leNat ((w.drop 8).take 8)
  pubkey := (w.drop 16).take 32

def AccountMeta.ofBytes (w : List UInt8) : AccountMeta where
  lamports := leNat (w.take 8)
  rentEpoch := leNat ((w.drop 8).take 8)
  owner := (w.drop 16).take 32
  executable := (w.drop 48).headD 0

def StoredAccountNoData.isDefaultAccount (account : StoredAccountNoData) : Bool :=
  account.accountMeta.lamports == 0 && account.storedMeta.dataLen == 0
    && account.accountMeta.executable == 0 && account.accountMeta.rentEpoch == 0
    && account.accountMeta.owner == defaultKey

def StoredAccountNoData.sanitize (account : StoredAccountNoData) : Bool :=
  -- `sanitize_executable`: the upper seven bits are clear
  account.accountMeta.executable.toNat / 2 == 0
    -- `sanitize_lamports`
    && (account.accountMeta.lamports != 0 || account.isDefaultAccount)

def calculateUnalignedStoredSizeChecked (dataLen : ℕ) : Option ℕ :=
  if storeMetaOverhead + dataLen < 2 ^ 64 then some (storeMetaOverhead + dataLen) else none

inductive Backing
  | mmap
  /-- A file, with the offsets at which the reader fails. -/
  | file (failsAt : ℕ → Bool)

structure File where
  bytes : List UInt8
  currentLen : ℕ
  backing : Backing

section Scan

variable (v : Overflow)

/-- The bytes, and the next aligned offset. The end wraps in every build. -/
def getSlice (slice : List UInt8) (offset size : ℕ) : Except Failure (Option (List UInt8 × ℕ)) := do
  let stop := (offset + size) % 2 ^ 64
  if offset ≤ stop ∧ stop ≤ slice.length then
    let next ← u64Align v stop
    return some ((slice.drop offset).take (stop - offset), next)
  else return none

def nextMetas (file : File) (offset : ℕ) : Except Failure (Option (StoredMeta × AccountMeta)) := do
  match file.backing with
  | .mmap =>
    if file.bytes.length < file.currentLen then throw (.panic .sliceIndex)
    let slice := file.bytes.take file.currentLen
    let some (m, next) ← getSlice v slice offset 48 | return none
    let some (a, _) ← getSlice v slice next 56 | return none
    return some (.ofBytes m, .ofBytes a)
  | .file failsAt =>
    if failsAt offset then throw (.error .io)
    let bytes := (file.bytes.take file.currentLen).drop offset
    -- `UnexpectedEof`
    if bytes.length < 48 + 56 then return none
    let some (m, next) ← getSlice v bytes 0 48 | throw (.panic .unwrap)
    let some (a, _) ← getSlice v bytes next 56 | throw (.panic .unwrap)
    return some (.ofBytes m, .ofBytes a)

/-- The record handed to the callback, `none` where the scan breaks. -/
def nextAccount (file : File) (offset : ℕ) : Except Failure (Option StoredAccountNoData) := do
  let some (m, a) ← nextMetas v file offset | return none
  if a.lamports = 0 ∧ m.pubkey = defaultKey then return none
  let some unaligned := calculateUnalignedStoredSizeChecked m.dataLen | return none
  let stop ← v.add offset unaligned
  if file.currentLen < stop then return none
  let storedSize ← u64Align v unaligned
  return some ⟨m, a, offset, storedSize⟩

variable {σ : Type} (callback : σ → StoredAccountNoData → Except Failure σ)

def scanStep (file : File) (s : σ) (offset : ℕ) : Except Failure (Option (σ × ℕ)) := do
  let some account ← nextAccount v file offset | return none
  let s ← callback s account
  let offset ← v.add offset account.storedSize
  return some (s, offset)

/-- The loop from an offset, `none` if it has not ended after `fuel` records. -/
def scanStoredAccountsNoData (file : File) : ℕ → σ → ℕ → Option (Except Failure σ)
  | 0, _, _ => none
  | fuel + 1, s, offset =>
    match scanStep v callback file s offset with
    | .error e => some (.error e)
    | .ok none => some (.ok s)
    | .ok (some (s, offset)) => scanStoredAccountsNoData file fuel s offset

end Scan

structure Sanitized where
  numAccounts : ℕ
  isMatch : Bool
  lastOffset : ℕ

def sanitizeAccount (v : Overflow) (s : Sanitized) (account : StoredAccountNoData) :
    Except Failure Sanitized := do
  if !s.isMatch || !account.sanitize then return { s with isMatch := false }
  let lastOffset ← v.add account.offset account.storedSize
  return { s with lastOffset, numAccounts := s.numAccounts + 1 }

def sanitizeLayoutAndLength (v : Overflow) (file : File) (fuel : ℕ) : Option (Except Failure ℕ) :=
  (scanStoredAccountsNoData v (sanitizeAccount v) file fuel ⟨0, true, 0⟩ 0).map fun r => do
    let s ← r
    let alignedCurrentLen ← u64Align v file.currentLen
    if !s.isMatch || s.lastOffset != alignedCurrentLen then throw (.error .incorrectLayout)
    return s.numAccounts

end BlackBull.AppendVec
