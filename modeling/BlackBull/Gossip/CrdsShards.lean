import Mathlib

/-!
# Pull filters and shards

`gossip/src/crds_gossip_pull.rs` and `gossip/src/crds_shards.rs`.
-/

namespace BlackBull.Gossip

abbrev U64 := BitVec 64

def checkedShl (x : U64) (n : ℕ) : Option U64 := if n < 64 then some (x <<< n) else none

def checkedShr (x : U64) (n : ℕ) : Option U64 := if n < 64 then some (x >>> n) else none

namespace CrdsFilter

def computeMask (seed : U64) (maskBits : ℕ) : Option U64 :=
  -- `2u64.pow(mask_bits)` overflows, or the assertion fails
  if 64 ≤ maskBits ∨ 2 ^ maskBits < seed.toNat then none
  else
    let seed := (checkedShl seed (64 - maskBits)).getD 0
    some (seed ||| (checkedShr (.allOnes 64) maskBits).getD (.allOnes 64))

def lsbMask (maskBits : ℕ) : U64 := (checkedShr (.allOnes 64) maskBits).getD 0

def canonicalMask (mask : U64) (maskBits : ℕ) : U64 := mask ||| lsbMask maskBits

def hashMatchesMaskPrefix (mask : U64) (maskBits : ℕ) (hash : U64) : Bool :=
  hash ||| lsbMask maskBits == canonicalMask mask maskBits

end CrdsFilter

open CrdsFilter

structure CrdsFilterSet (F : Type) where
  filters : List (Option F)
  maskBits : ℕ

/-- `add` is that of a Bloom filter. -/
def CrdsFilterSet.add {F : Type} (add : U64 → F → F) (s : CrdsFilterSet F) (hash : U64) :
    Option (CrdsFilterSet F) :=
  if 64 < s.maskBits then none
  else
    let index := ((checkedShr hash (64 - s.maskBits)).getD 0).toNat
    if index < s.filters.length then
      some { s with filters := s.filters.modify index (Option.map (add hash)) }
    else none

/-- A shard has its indices and hashes in the order of an `IndexMap`. -/
structure CrdsShards where
  shards : List (List (ℕ × U64))
  shardBits : ℕ

namespace CrdsShards

def new (shardBits : ℕ) : CrdsShards := ⟨List.replicate (2 ^ shardBits) [], shardBits⟩

def shardIndex (s : CrdsShards) (hash : U64) : ℕ :=
  ((checkedShr hash (64 - s.shardBits)).getD 0).toNat

def shard (s : CrdsShards) (hash : U64) : Option (List (ℕ × U64)) := s.shards[s.shardIndex hash]?

/-- The result says whether the index is new in its shard. -/
def insert (s : CrdsShards) (index : ℕ) (hash : U64) : Option (CrdsShards × Bool) :=
  (s.shard hash).map fun shard =>
    let shard' := if index ∈ shard.map Prod.fst
      then shard.map fun entry => if entry.1 = index then (index, hash) else entry
      else shard ++ [(index, hash)]
    ({ s with shards := s.shards.set (s.shardIndex hash) shard' }, index ∉ shard.map Prod.fst)

def find (s : CrdsShards) (mask : U64) (maskBits : ℕ) : Option (List ℕ) :=
  let mask := canonicalMask mask maskBits
  match compare s.shardBits maskBits with
  | .lt => (s.shard mask).map fun shard => shard.filterMap fun (index, hash) =>
    if hashMatchesMaskPrefix mask maskBits hash then some index else none
  | .eq => (s.shard mask).map fun shard => shard.map Prod.fst
  | .gt =>
    let count := 2 ^ (s.shardBits - maskBits)
    let stop := s.shardIndex mask + 1
    if count ≤ stop ∧ stop ≤ s.shards.length then
      some ((s.shards.extract (stop - count) stop).flatMap fun shard => shard.map Prod.fst)
    else none

end CrdsShards

end BlackBull.Gossip
