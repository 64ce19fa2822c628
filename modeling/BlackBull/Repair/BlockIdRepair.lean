import BlackBull.Ledger.MerkleTree

/-!
# Repair by block id

`BlockIdRepairType::verify_response` of `core/src/repair/serve_repair.rs`: what a node accepts from an
untrusted peer about a block whose id it knows; and the order of requests in the heap of
`core/src/repair/block_id_repair_service.rs`.
-/

namespace BlackBull.Repair

open Ledger

inductive BlockIdRepairType (β : Type)
  | parentAndFecSetCount (slot : UInt64) (blockId : Hash β)
  | fecSetRoot (slot : UInt64) (blockId : Hash β) (fecSetIndex : ℕ)

/-- A ping comes with whether it verifies. -/
inductive BlockIdRepairResponse (β : Type)
  | parentFecSetCount (fecSetCount : ℕ) (parentInfo : UInt64 × Hash β) (parentProof : List β)
  | fecSetRoot (fecSetRoot : Hash β) (fecSetProof : List β)
  | ping (verifies : Bool)

variable {β : Type} [DecidableEq β] (H : Hasher β)

def verifyResponse : BlockIdRepairType β → BlockIdRepairResponse β → Bool
  | _, .ping verifies => verifies
  | .parentAndFecSetCount _ blockId, .parentFecSetCount fecSetCount parentInfo parentProof =>
    if maxFecSetsPerSlot < fecSetCount then false
    -- the parent info is the last leaf of the tree
    else if parentProof.length ≠ getProofSize (fecSetCount + 1) * sizeOfMerkleProofEntry then false
    else
      (verifyMerkleProof H (parentInfoLeaf H parentInfo.1 parentInfo.2) fecSetCount parentProof
        blockId).isOk
  | .fecSetRoot _ blockId fecSetIndex, .fecSetRoot fecSetRoot fecSetProof =>
    (verifyMerkleProof H fecSetRoot (fecSetIndex / dataShredsPerFecBlock) fecSetProof blockId).isOk
  | _, _ => false

def BlockIdRepairType.slot : BlockIdRepairType β → UInt64
  | .parentAndFecSetCount slot _ | .fecSetRoot slot _ _ => slot

inductive ShredRepairType (β : Type)
  | orphan (slot : UInt64)
  | highestShred (slot index : UInt64)
  | shred (slot index : UInt64)
  | shredForBlockId (slot : UInt64) (index : ℕ) (fecSetMerkleRoot blockId : Hash β)

def ShredRepairType.slot : ShredRepairType β → UInt64
  | .orphan slot | .highestShred slot _ | .shred slot _ | .shredForBlockId slot _ _ _ => slot

inductive OutgoingMessage (β : Type)
  | metadata (request : BlockIdRepairType β)
  | shred (request : ShredRepairType β)

namespace OutgoingMessage

def slot : OutgoingMessage β → UInt64
  | metadata request => request.slot
  | shred request => request.slot

/-- The order of two messages of one slot. -/
def cmpInSlot : OutgoingMessage β → OutgoingMessage β → Ordering
  -- metadata before shreds, and the top-level request before the others
  | metadata _, shred _ => .gt
  | shred _, metadata _ => .lt
  | metadata (.parentAndFecSetCount _ _), _ => .gt
  | _, metadata (.parentAndFecSetCount _ _) => .lt
  | metadata (.fecSetRoot _ _ a), metadata (.fecSetRoot _ _ b) => compare b a
  | shred (.shredForBlockId _ a _ _), shred (.shredForBlockId _ b _ _) => compare b a
  | _, _ => .eq

/-- `Ord for OutgoingMessage`: the greatest message is sent first. -/
def cmp (self other : OutgoingMessage β) : Ordering :=
  if self.slot ≠ other.slot then compare other.slot self.slot else cmpInSlot self other

end OutgoingMessage

end BlackBull.Repair
