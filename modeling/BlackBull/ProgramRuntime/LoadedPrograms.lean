import Mathlib

/-!
# The program cache

`program-runtime/src/loaded_programs.rs` and `program_cache_entry.rs`, with `relationship` of
`runtime/src/bank_forks.rs`.
-/

namespace BlackBull.ProgramRuntime

abbrev Slot := ℕ

inductive BlockRelation
  | ancestor
  | equal
  | descendant
  | unrelated
  | unknown
  deriving DecidableEq, Repr

structure BankForks where
  root : Slot
  highestSlot : Slot
  banks : Slot → Option (List Slot)
  descendants : Slot → List Slot

def BankForks.relationship (forks : BankForks) (a b : Slot) : BlockRelation :=
  if (forks.root ≤ a ∧ a ≤ forks.highestSlot) ∧ forks.root ≤ b ∧ b ≤ forks.highestSlot then
    if a = b then .equal
    else if (forks.banks b).any (a ∈ ·) then .ancestor
    else if a ∈ forks.descendants b then .descendant
    else .unrelated
  else .unknown

inductive ProgramCacheEntryOwner
  | nativeLoader
  | loaderV1
  | loaderV2
  | loaderV3
  | loaderV4
  deriving DecidableEq, Repr

inductive ProgramCacheEntryType (ε : Type)
  | failedVerification (env : ε)
  | closed
  | delayVisibility
  | unloaded (env : ε)
  | loaded (env : ε)
  | builtin
  deriving DecidableEq, Repr

def ProgramCacheEntryType.getEnvironment {ε : Type} : ProgramCacheEntryType ε → Option ε
  | loaded env | failedVerification env | unloaded env => some env
  | _ => none

structure ProgramCacheEntry (ε : Type) where
  program : ProgramCacheEntryType ε
  accountOwner : ProgramCacheEntryOwner
  deploymentSlot : Slot
  effectiveSlot : Slot
  deriving DecidableEq, Repr

def delayVisibilitySlotOffset : Slot := 1

namespace ProgramCacheEntry

variable {ε : Type}

def isTombstone (e : ProgramCacheEntry ε) : Bool :=
  match e.program with
  | .failedVerification _ | .closed | .delayVisibility => true
  | _ => false

def eq (e e' : ProgramCacheEntry ε) : Bool :=
  e.effectiveSlot = e'.effectiveSlot && e.deploymentSlot = e'.deploymentSlot
    && e.isTombstone = e'.isTombstone

def newTombstone (slot : Slot) (accountOwner : ProgramCacheEntryOwner)
    (reason : ProgramCacheEntryType ε) : ProgramCacheEntry ε :=
  { program := reason, accountOwner, deploymentSlot := slot, effectiveSlot := slot }

def isBuiltin (e : ProgramCacheEntry ε) : Bool :=
  match e.program with
  | .builtin => true
  | _ => false

def isUnloaded (e : ProgramCacheEntry ε) : Bool :=
  match e.program with
  | .unloaded _ => true
  | _ => false

def isImplicitDelayVisibilityTombstone (e : ProgramCacheEntry ε) (slot : Slot) : Bool :=
  !e.isBuiltin && e.effectiveSlot - e.deploymentSlot = delayVisibilitySlotOffset
    && e.deploymentSlot ≤ slot && slot < e.effectiveSlot

end ProgramCacheEntry

/-- `entries` has the versions of each program, sorted by slot, and `loadingEntries` the slot and the
thread that each program is being loaded for. -/
structure ProgramCache (κ ε : Type) where
  entries : κ → List (ProgramCacheEntry ε)
  loadingEntries : κ → Option (Slot × ℕ)
  latestRootSlot : Slot

structure ProgramCacheForTxBatch (κ ε : Type) where
  entries : κ → Option (ProgramCacheEntry ε)
  slot : Slot

inductive ProgramCacheMatchCriteria
  | deployedOnOrAfterSlot (slot : Slot)
  | tombstone
  | noCriteria
  deriving DecidableEq, Repr

section Search

variable {α : Type}

def searchBase (f : ℕ → Ordering) : ℕ → ℕ → ℕ → ℕ
  | 0, _, base => base
  | turns + 1, size, base =>
    if 1 < size then
      searchBase f turns (size - size / 2) (if f (base + size / 2) = .gt then base else base + size / 2)
    else base

/-- `binary_search_by`: the index of an equal element, or the error with the index to insert at. -/
def binarySearchBy (as : List α) (f : α → Ordering) : Except ℕ ℕ :=
  let base := searchBase (fun i => as[i]?.elim .gt f) as.length as.length 0
  match as[base]?.map f with
  | some .eq => .ok base
  | some .lt => .error (base + 1)
  | _ => .error base

end Search

namespace ProgramCache

variable {κ ε : Type} [DecidableEq κ] [DecidableEq ε]

def new (rootSlot : Slot) : ProgramCache κ ε := ⟨fun _ => [], fun _ => none, rootSlot⟩

def isCurrentEnv (programRuntimeEnvironment : ε) (env : Option ε) : Bool :=
  env.all (· = programRuntimeEnvironment)

def compareEntries (programRuntimeEnvironment : ε) (entry at' : ProgramCacheEntry ε) : Ordering :=
  ((compare at'.effectiveSlot entry.effectiveSlot).then
    (compare at'.deploymentSlot entry.deploymentSlot)).then
    (compare (isCurrentEnv programRuntimeEnvironment at'.program.getEnvironment)
      (isCurrentEnv programRuntimeEnvironment entry.program.getEnvironment))

def mayReplace (existing entry : ProgramCacheEntry ε) : Bool :=
  match existing.program, entry.program with
  | .builtin, .builtin => true
  | .unloaded _, .loaded _ => true
  | .closed, .closed => existing.accountOwner ≠ entry.accountOwner
  | _, _ => false

def differ : Option ε → Option ε → Bool
  | some a, some b => a ≠ b
  | _, _ => false

def keptBeside (entry existing : ProgramCacheEntry ε) : Bool :=
  existing.deploymentSlot ≠ entry.deploymentSlot
    || differ existing.program.getEnvironment entry.program.getEnvironment
    || existing.eq entry

def insertVersion (programRuntimeEnvironment : ε) (entry : ProgramCacheEntry ε)
    (slotVersions : List (ProgramCacheEntry ε)) : Option (List (ProgramCacheEntry ε)) :=
  match binarySearchBy slotVersions (compareEntries programRuntimeEnvironment entry) with
  | .ok index =>
    if slotVersions[index]?.any (mayReplace · entry) then some (slotVersions.set index entry)
    else none
  | .error index => some (slotVersions.insertIdx index entry)

def assignProgram (c : ProgramCache κ ε) (programRuntimeEnvironment : ε) (key : κ)
    (entry : ProgramCacheEntry ε) : ProgramCache κ ε × Bool :=
  match insertVersion programRuntimeEnvironment entry (c.entries key) with
  | none => (c, true)
  | some slotVersions =>
    ({ c with entries := Function.update c.entries key (slotVersions.filter (keptBeside entry)) },
      false)

def finishCooperativeLoadingTask (c : ProgramCache κ ε) (programRuntimeEnvironment : ε) (key : κ)
    (loadedProgram : ProgramCacheEntry ε) : ProgramCache κ ε × Bool :=
  { c with loadingEntries := Function.update c.loadingEntries key none }.assignProgram
    programRuntimeEnvironment key loadedProgram

def matchesEnvironment (entry : ProgramCacheEntry ε) (programRuntimeEnvironment : ε) : Bool :=
  entry.program.getEnvironment.all (· = programRuntimeEnvironment)

/-- The entries that stay, from the latest on. `found` is the environment of the first ancestor of the
new root, once there is one. -/
def pruneEntries (relationship : Slot → Slot → BlockRelation) (newRootSlot latestRootSlot : Slot) :
    Option (Option ε) → List (ProgramCacheEntry ε) → List (ProgramCacheEntry ε)
  | _, [] => []
  | found, entry :: entries =>
    let relation := relationship entry.deploymentSlot newRootSlot
    if newRootSlot ≤ entry.deploymentSlot then
      if relation = .equal ∨ relation = .descendant then
        entry :: pruneEntries relationship newRootSlot latestRootSlot found entries
      else pruneEntries relationship newRootSlot latestRootSlot found entries
    else if relation = .ancestor ∨ entry.deploymentSlot ≤ latestRootSlot then
      match found with
      | none =>
        entry :: pruneEntries relationship newRootSlot latestRootSlot
          (some entry.program.getEnvironment) entries
      | some firstAncestorEnv =>
        if differ entry.program.getEnvironment firstAncestorEnv then
          entry :: pruneEntries relationship newRootSlot latestRootSlot found entries
        else pruneEntries relationship newRootSlot latestRootSlot found entries
    else pruneEntries relationship newRootSlot latestRootSlot found entries

def prune (c : ProgramCache κ ε) (newRootSlot : Slot) (upcomingEnvironment : Option ε)
    (relationship : Slot → Slot → BlockRelation) : ProgramCache κ ε :=
  { c with
    entries := fun key =>
      ((pruneEntries relationship newRootSlot c.latestRootSlot none (c.entries key).reverse).filter
        fun entry => upcomingEnvironment.all (matchesEnvironment entry ·)).reverse
    latestRootSlot := newRootSlot }

def pruneByDeploymentSlot (c : ProgramCache κ ε) (slot : Slot) : ProgramCache κ ε :=
  { c with entries := fun key => (c.entries key).filter fun entry => entry.deploymentSlot ≠ slot }

def matchesCriteria (program : ProgramCacheEntry ε) : ProgramCacheMatchCriteria → Bool
  | .deployedOnOrAfterSlot slot => slot ≤ program.deploymentSlot
  | .tombstone => program.isTombstone
  | .noCriteria => true

def searchVersions (latestRootSlot : Slot) (relationship : Slot → Slot → BlockRelation)
    (slot : Slot) (env : ε) (criteria : ProgramCacheMatchCriteria) :
    Option Slot → List (ProgramCacheEntry ε) → Option (ProgramCacheEntry ε)
  | _, [] => none
  | filterByDeploymentSlot, entry :: entries =>
    if filterByDeploymentSlot.getD entry.deploymentSlot ≠ entry.deploymentSlot then
      searchVersions latestRootSlot relationship slot env criteria filterByDeploymentSlot entries
    else if entry.deploymentSlot ≤ latestRootSlot
        ∨ relationship entry.deploymentSlot slot = .equal
        ∨ relationship entry.deploymentSlot slot = .ancestor then
      if entry.effectiveSlot ≤ slot then
        if !matchesEnvironment entry env then
          -- only another version of the same deployment can do
          searchVersions latestRootSlot relationship slot env criteria
            (some (filterByDeploymentSlot.getD entry.deploymentSlot)) entries
        else if !matchesCriteria entry criteria then none
        else if entry.isUnloaded then none
        else some entry
      else if entry.isImplicitDelayVisibilityTombstone slot then
        some (.newTombstone entry.deploymentSlot entry.accountOwner .delayVisibility)
      else searchVersions latestRootSlot relationship slot env criteria filterByDeploymentSlot entries
    else searchVersions latestRootSlot relationship slot env criteria filterByDeploymentSlot entries

/-- What a turn of `extract` has: the programs still to be loaded, those found, the cache and the task
that this thread takes on. -/
structure Extraction (κ ε : Type) where
  cache : ProgramCache κ ε
  searchFor : List (κ × ProgramCacheMatchCriteria)
  batch : ProgramCacheForTxBatch κ ε
  cooperativeLoadingTask : Option κ

def extractOne (relationship : Slot → Slot → BlockRelation) (thread : ℕ) (env : ε)
    (x : Extraction κ ε) (search : κ × ProgramCacheMatchCriteria) : Extraction κ ε :=
  match searchVersions x.cache.latestRootSlot relationship x.batch.slot env search.2 none
      (x.cache.entries search.1).reverse with
  | some entry =>
    { x with
      batch := { x.batch with
        entries := Function.update x.batch.entries search.1 (some entry) } }
  | none =>
    if x.cooperativeLoadingTask.isNone ∧ (x.cache.loadingEntries search.1).isNone then
      { x with
        cache := { x.cache with
          loadingEntries :=
            Function.update x.cache.loadingEntries search.1 (some (x.batch.slot, thread)) }
        searchFor := x.searchFor ++ [search]
        cooperativeLoadingTask := some search.1 }
    else { x with searchFor := x.searchFor ++ [search] }

def extract (c : ProgramCache κ ε) (searchFor : List (κ × ProgramCacheMatchCriteria))
    (batch : ProgramCacheForTxBatch κ ε) (relationship : Slot → Slot → BlockRelation) (thread : ℕ)
    (env : ε) : Extraction κ ε :=
  searchFor.foldl (extractOne relationship thread env) ⟨c, [], batch, none⟩

end ProgramCache

/-- What the banks do with the cache. The fork graph is as it is at the time of the call. -/
inductive CacheOp (κ ε : Type)
  | assign (bank : Slot) (env : ε) (key : κ) (entry : ProgramCacheEntry ε)
  | finish (bank : Slot) (env : ε) (key : κ) (entry : ProgramCacheEntry ε)
  | prune (newRootSlot : Slot) (upcomingEnvironment : Option ε) (forks : BankForks)
  | pruneByDeploymentSlot (slot : Slot)
  | extract (bank : Slot) (searchFor : List (κ × ProgramCacheMatchCriteria)) (forks : BankForks)
    (thread : ℕ) (env : ε)

def ProgramCache.apply {κ ε : Type} [DecidableEq κ] [DecidableEq ε] (c : ProgramCache κ ε) :
    CacheOp κ ε → ProgramCache κ ε
  | .assign _ env key entry => (c.assignProgram env key entry).1
  | .finish _ env key entry => (c.finishCooperativeLoadingTask env key entry).1
  | .prune newRootSlot upcomingEnvironment forks =>
    c.prune newRootSlot upcomingEnvironment forks.relationship
  | .pruneByDeploymentSlot slot => c.pruneByDeploymentSlot slot
  | .extract bank searchFor forks thread env =>
    (c.extract searchFor ⟨fun _ => none, bank⟩ forks.relationship thread env).cache

end BlackBull.ProgramRuntime
