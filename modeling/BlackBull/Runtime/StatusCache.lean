import BlackBull.Lib.OrdMap
import BlackBull.Lib.Run

/-!
# The status cache

`runtime/src/status_cache.rs`: which transactions were processed, by blockhash and key, with the
slot of each.
-/

namespace BlackBull

def cachedKeySize : ℕ := 20

abbrev KeySlice := List ℕ

/-- What is kept of one blockhash: the greatest slot, the index of the key slices, and the slots and
results of each slice. -/
structure KeyStatus (T : Type) where
  maxSlot : ℕ
  keyIndex : ℕ
  keyMap : OrdMap KeySlice (List (ℕ × T))

abbrev SlotStatus (T : Type) := OrdMap ℕ (ℕ × List (KeySlice × T))

structure StatusCache (T : Type) where
  cache : OrdMap ℕ (KeyStatus T)
  roots : Finset ℕ
  maxRootEntries : ℕ
  slotDeltas : OrdMap ℕ (SlotStatus T)

inductive StatusCachePanic
  | blockhashMustExist
  deriving DecidableEq, Repr

def keySlice (key : List ℕ) (index : ℕ) : KeySlice :=
  (key.drop (min index (key.length - (cachedKeySize + 1)))).take cachedKeySize

namespace StatusCache

variable {T : Type}

/-- 0 is always a root. -/
def init (maxRootEntries : ℕ) : StatusCache T := ⟨∅, {0}, maxRootEntries, ∅⟩

def clearKey (slot : ℕ) (keyMap : OrdMap KeySlice (List (ℕ × T))) (slice : KeySlice) :
    OrdMap KeySlice (List (ℕ × T)) :=
  match keyMap.get? slice with
  | none => keyMap
  | some forks =>
    let kept := forks.filter (·.1 ≠ slot)
    if kept = [] then keyMap.remove slice else keyMap.insert slice kept

def clearBlockhash (slot : ℕ) (cache : OrdMap ℕ (KeyStatus T))
    (delta : ℕ × ℕ × List (KeySlice × T)) : Except StatusCachePanic (OrdMap ℕ (KeyStatus T)) :=
  match cache.get? delta.1 with
  | none => .error .blockhashMustExist
  | some status =>
    let keyMap := (delta.2.2.map (·.1)).foldl (clearKey slot) status.keyMap
    .ok (if keyMap.entries = [] then cache.remove delta.1
      else cache.insert delta.1 { status with keyMap })

variable (s : StatusCache T)

def clearSlotEntries (slot : ℕ) : Except StatusCachePanic (StatusCache T) :=
  match s.slotDeltas.get? slot with
  | none => .ok s
  | some deltas => do
    let cache ← deltas.entries.foldlM (clearBlockhash slot) s.cache
    .ok { s with cache, slotDeltas := s.slotDeltas.remove slot }

def getStatus (key : List ℕ) (blockhash : ℕ) (ancestors : ℕ → Bool) : Option (ℕ × T) :=
  match s.cache.get? blockhash with
  | none => none
  | some status =>
    match status.keyMap.get? (keySlice key status.keyIndex) with
    | none => none
    | some forks => forks.find? fun f => ancestors f.1 || decide (f.1 ∈ s.roots)

def dropRoot (root : ℕ) : StatusCache T :=
  { s with
    roots := s.roots.erase root
    cache := s.cache.retain fun _ status => root < status.maxSlot
    slotDeltas := s.slotDeltas.retain fun slot _ => root < slot }

def purgeRoots (s : StatusCache T) : StatusCache T :=
  if h : s.maxRootEntries < s.roots.card then
    (s.dropRoot (s.roots.min' (Finset.card_pos.1 (Nat.zero_lt_of_lt h)))).purgeRoots
  else s
termination_by s.roots.card
decreasing_by exact Finset.card_erase_lt_of_mem (Finset.min'_mem _ _)

def addRoot (fork : ℕ) : StatusCache T :=
  { s with roots := insert fork s.roots }.purgeRoots

def addToSlotDelta (blockhash slot keyIndex : ℕ) (slice : KeySlice) (res : T) : StatusCache T :=
  let status := (s.slotDeltas.get? slot).getD ∅
  let (index, entries) := (status.get? blockhash).getD (keyIndex, [])
  { s with
    slotDeltas := s.slotDeltas.insert slot (status.insert blockhash (index, entries ++ [(slice, res)])) }

/-- Insert a key; `random` is drawn for a blockhash that is new. -/
def insert (blockhash : ℕ) (key : List ℕ) (slot : ℕ) (res : T) (random : ℕ) : StatusCache T :=
  let maxKeyIndex := key.length - (cachedKeySize + 1)
  let status := (s.cache.get? blockhash).getD ⟨slot, random % (maxKeyIndex + 1), ∅⟩
  let slice := keySlice key status.keyIndex
  let status' : KeyStatus T :=
    { status with
      maxSlot := max slot status.maxSlot
      keyMap := status.keyMap.modifyD slice [] (· ++ [(slot, res)]) }
  addToSlotDelta { s with cache := s.cache.insert blockhash status' } blockhash slot
    (min status.keyIndex maxKeyIndex) slice res

end StatusCache

inductive CacheOp (T : Type)
  | insert (blockhash : ℕ) (key : List ℕ) (slot : ℕ) (res : T) (random : ℕ)
  | addRoot (slot : ℕ)
  | clear (slot : ℕ)
  deriving DecidableEq, Repr

def StatusCache.apply {T : Type} (s : StatusCache T) :
    CacheOp T → Except StatusCachePanic (StatusCache T)
  | .insert blockhash key slot res random => .ok (s.insert blockhash key slot res random)
  | .addRoot slot => .ok (s.addRoot slot)
  | .clear slot => s.clearSlotEntries slot

structure CacheSession (T : Type) where
  cache : StatusCache T
  history : List (CacheOp T)

namespace CacheSession

variable {T : Type}

def init (maxRootEntries : ℕ) : CacheSession T := ⟨.init maxRootEntries, []⟩

def step (s : CacheSession T) (op : CacheOp T) :
    Except StatusCachePanic (CacheSession T × List Empty) :=
  (s.cache.apply op).map fun cache => (⟨cache, s.history ++ [op]⟩, [])

end CacheSession

end BlackBull
