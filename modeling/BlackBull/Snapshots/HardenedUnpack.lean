import Mathlib

/-!
# Unpacking a snapshot archive

`snapshots/src/hardened_unpack.rs`.
-/

namespace BlackBull.Snapshots

inductive Component
  | rootDir
  | curDir
  | parentDir
  | normal (name : String)
  /-- A `Normal` one that is not UTF-8. -/
  | notUtf8 (bytes : List UInt8)
  deriving DecidableEq, Repr

abbrev Path := List Component

inductive EntryType
  | regular
  | link
  | symlink
  | directory
  | gnuSparse
  | gnuLongName
  | gnuLongLink
  | xGlobalHeader
  | xHeader
  | other (flag : UInt8)
  deriving DecidableEq, Repr

/-- `none` is an error of the tar reader. -/
structure Entry where
  path : Option Path
  endsWithSlash : Bool := false
  isUstar : Bool := true
  entryType : EntryType
  /-- `header().size()`: of a sparse file with its holes. -/
  size : Option ℕ
  /-- `header().entry_size()`. -/
  entrySize : Option ℕ
  contentLen : ℕ

inductive FsOp
  /-- All missing directories down to this one. -/
  | createDirAll (path : Path)
  | createDir (path : Path)
  | createLink (path : Path)
  | writeFile (path : Path) (written : ℕ)
  deriving DecidableEq, Repr

/-- What becomes of an operation, after those that were done. -/
structure FileSystem where
  succeeds : List FsOp → FsOp → Bool
  canonicalize : List FsOp → Path → Option Path
  opens : List FsOp → Path → Bool
  /-- How much can be written to a file. -/
  room : List FsOp → Path → ℕ

inductive UnpackError
  | io
  | tooLarge (totalSize limitSize : ℕ)
  | tooMany (totalCount : ℕ)
  | invalidPath
  | extraEntry
  | outsideOfDestination
  | failedToUnpack
  /-- `assert!(!account_paths.is_empty())`. -/
  | noAccountPaths
  deriving DecidableEq, Repr

/-- The totals so far, the directories that are open and what was done. -/
structure Unpacking where
  apparentTotalSize : ℕ := 0
  actualTotalSize : ℕ := 0
  totalCount : ℕ := 0
  openDirs : List Path := []
  log : List FsOp := []

abbrev UnpackM := EStateM UnpackError Unpacking

def maxSnapshotArchiveUnpackedApparentSize : ℕ := 64 * 1024 * 1024 * 1024 * 1024

def maxSnapshotArchiveUnpackedActualSize : ℕ := 4 * 1024 * 1024 * 1024 * 1024

def maxSnapshotArchiveUnpackedCount : ℕ := 5000000

def checkedTotalSizeSum (totalSize entrySize limitSize : ℕ) : Except UnpackError ℕ :=
  let totalSize := min (totalSize + entrySize) (2 ^ 64 - 1)
  if limitSize < totalSize then .error (.tooLarge totalSize limitSize) else .ok totalSize

def checkedTotalCountIncrement (totalCount limitCount : ℕ) : Except UnpackError ℕ :=
  let totalCount := totalCount + 1
  if limitCount < totalCount then .error (.tooMany totalCount) else .ok totalCount

structure Limits where
  apparentSize : ℕ
  actualSize : ℕ
  count : ℕ

def Unpacking.check (limits : Limits) (entry : Entry) (s : Unpacking) :
    Except UnpackError Unpacking := do
  let size ← entry.size.elim (.error .io) .ok
  let apparentTotalSize ← checkedTotalSizeSum s.apparentTotalSize size limits.apparentSize
  let entrySize ← entry.entrySize.elim (.error .io) .ok
  let actualTotalSize ← checkedTotalSizeSum s.actualTotalSize entrySize limits.actualSize
  let totalCount ← checkedTotalCountIncrement s.totalCount limits.count
  .ok { s with apparentTotalSize, actualTotalSize, totalCount }

def checkLimits (limits : Limits) (entry : Entry) : UnpackM Unit := fun s =>
  match s.check limits entry with
  | .error e => .error e s
  | .ok s' => .ok () s'

variable (fs : FileSystem)

def perform (op : FsOp) (e : UnpackError) : UnpackM Unit := fun s =>
  let s' := { s with log := s.log ++ [op] }
  if fs.succeeds s.log op then .ok () s' else .error e s'

/-- The content is copied up to the first error. -/
def writeFile (dst : Path) (contentLen : ℕ) : UnpackM Unit := fun s =>
  let written := min contentLen (fs.room s.log dst)
  let s' := { s with log := s.log ++ [.writeFile dst written] }
  if written = contentLen then .ok () s' else .error .failedToUnpack s'

def shouldFallbackToTarUnpack (entry : Entry) : Bool :=
  match entry.entryType with
  | .directory | .link | .symlink | .xGlobalHeader | .xHeader | .gnuLongName | .gnuLongLink => true
  | _ => !entry.isUstar && entry.endsWithSlash

def unpackEntry (entry : Entry) (dst : Path) : UnpackM Unit :=
  if shouldFallbackToTarUnpack entry then
    match entry.entryType with
    | .link | .symlink => perform fs (.createLink dst) .failedToUnpack
    | .xGlobalHeader | .xHeader | .gnuLongName | .gnuLongLink => pure ()
    | _ => perform fs (.createDir dst) .failedToUnpack
  else writeFile fs dst entry.contentLen

def pushParts : Path → Path → Option Path
  | fileDst, [] => some fileDst
  | fileDst, .rootDir :: parts | fileDst, .curDir :: parts => pushParts fileDst parts
  | _, .parentDir :: _ => none
  | fileDst, part :: parts => pushParts (fileDst ++ [part]) parts

def validateInsideDst (dst fileDst : Path) : UnpackM Unit := fun s =>
  match fs.canonicalize s.log fileDst, fs.canonicalize s.log dst with
  | some canonParent, some canonTarget =>
    if canonTarget <+: canonParent then .ok () s else .error .outsideOfDestination s
  | _, _ => .error .io s

def openDir (parent : Path) : UnpackM Unit := fun s =>
  if fs.opens s.log parent then .ok () { s with openDirs := parent :: s.openDirs }
  else .error .io s

def openDstDir (dst parent : Path) : UnpackM Unit := do
  let s ← get
  if parent ∈ s.openDirs then pure ()
  else do
    perform fs (.createDirAll parent) .io
    validateInsideDst fs dst parent
    openDir fs parent

/-- `none` if the entry is to be skipped. -/
def sanitizePathAndOpenDir (entryPath dst : Path) : UnpackM (Option Path) :=
  match pushParts dst entryPath with
  | none => pure none
  | some fileDst =>
    if dst = fileDst ∨ fileDst = [] then pure none
    else do
      openDstDir fs dst fileDst.dropLast
      pure (some fileDst)

inductive UnpackPath
  | valid (path : Path)
  | ignore
  | invalid
  deriving DecidableEq, Repr

def parts (path : Path) : Option (List String) :=
  path.mapM fun
    | .curDir => some "."
    | .normal name => some name
    | _ => none

/-- Account files go right into one of the account paths. -/
def strippedPath (path : Path) : List String → Path
  | ["accounts", accountFilename] => [.normal accountFilename]
  | _ => path

/-- One turn of the loop of `unpack_archive`. -/
def unpackNext (limits : Limits) (entryChecker : List String → EntryType → UnpackPath)
    (entry : Entry) : UnpackM Unit :=
  match entry.path with
  | none => throw .io
  | some path =>
    match parts path, !entry.isUstar && entry.endsWithSlash && entry.entryType != .directory with
    | some parts, false =>
      match entryChecker parts entry.entryType with
      | .invalid => throw .extraEntry
      | .ignore => pure ()
      | .valid unpackDir => do
        checkLimits limits entry
        match ← sanitizePathAndOpenDir fs (strippedPath path parts) unpackDir with
        | none => pure ()
        | some entryPath => unpackEntry fs entry entryPath
    | _, _ => throw .invalidPath

def allDigits (v : String) : Bool := !v.isEmpty && v.toList.all Char.isDigit

def likeStorageFrom : List Char → ℕ → Bool → Bool
  | [], periods, sawNumbers => sawNumbers && periods == 1
  | x :: v, periods, sawNumbers =>
    if x.isDigit then likeStorageFrom v periods true
    else if x = '.' then
      if 0 < periods ∨ !sawNumbers then false else likeStorageFrom v (periods + 1) false
    else false

def likeStorage (v : String) : Bool := likeStorageFrom v.toList 0 false

def isValidSnapshotArchiveEntry : List String → EntryType → Bool
  | ["version"], .regular => true
  | ["accounts"], .directory => true
  | ["accounts", file], .gnuSparse | ["accounts", file], .regular => likeStorage file
  | ["snapshots"], .directory => true
  | ["snapshots", "status_cache"], .gnuSparse | ["snapshots", "status_cache"], .regular => true
  | ["snapshots", dir, file], .gnuSparse | ["snapshots", dir, file], .regular =>
    allDigits dir && allDigits file
  | ["snapshots", dir], .directory => allDigits dir
  | _, _ => false

/-- The closure of `unpack_snapshot_with_processors`, where the random index is `pathIndex`. -/
def snapshotChecker (ledgerDir : Path) (accountPaths : List Path) (pathIndex : ℕ)
    (parts : List String) (kind : EntryType) : UnpackPath :=
  if isValidSnapshotArchiveEntry parts kind then
    match parts with
    | ["accounts", _] => accountPaths[pathIndex % accountPaths.length]?.elim .invalid .valid
    | _ => .valid ledgerDir
  else .invalid

/-- The draws of the random indexes and whether the writes end well are not up to the code. -/
def streamingUnpackSnapshot (ledgerDir : Path) (accountPaths : List Path) (draw : ℕ → ℕ)
    (drained : List FsOp → Bool) (entries : List Entry) : UnpackM Unit :=
  if accountPaths = [] then throw .noAccountPaths
  else do
    entries.zipIdx.forM fun (entry, i) => unpackNext fs
      ⟨maxSnapshotArchiveUnpackedApparentSize, maxSnapshotArchiveUnpackedActualSize,
        maxSnapshotArchiveUnpackedCount⟩ (snapshotChecker ledgerDir accountPaths (draw i)) entry
    let s ← get
    if drained s.log then pure () else throw .io

end BlackBull.Snapshots
