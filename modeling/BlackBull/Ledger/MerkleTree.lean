import BlackBull.Lib.Merkle

/-!
# Merkle trees of shreds and of blocks

`ledger/src/shred/merkle_tree.rs`, `get_merkle_node` of `ledger/src/shred/merkle.rs`, and
`build_double_merkle_tree` of `ledger/src/blockstore.rs`.
-/

namespace BlackBull.Ledger

structure Hash (β : Type) where
  bytes : List β
  length_eq : bytes.length = 32
  deriving DecidableEq

structure MerkleProofEntry (β : Type) where
  bytes : List β
  length_eq : bytes.length = 20
  deriving DecidableEq

def Hash.entry {β : Type} (h : Hash β) : MerkleProofEntry β :=
  ⟨h.bytes.take 20, by rw [List.length_take, h.length_eq]; rfl⟩

def sizeOfMerkleProofEntry : ℕ := 20

def dataShredsPerFecBlock : ℕ := 32

def shredsPerFecBlock : ℕ := 64

def maxFecSetsPerSlot : ℕ := 32768 / dataShredsPerFecBlock

/-- The hash function, and how the constants and numbers that are hashed are written. -/
structure Hasher (β : Type) where
  hashv : List β → Hash β
  merkleHashPrefixLeaf : List β
  merkleHashPrefixNode : List β
  toLeBytes : UInt64 → List β
  length_leaf : merkleHashPrefixLeaf.length = 26
  length_node : merkleHashPrefixNode.length = 26
  leaf_ne_node : merkleHashPrefixLeaf ≠ merkleHashPrefixNode
  length_toLeBytes : ∀ n, (toLeBytes n).length = 8
  toLeBytes_injective : Function.Injective toLeBytes

inductive Error
  | invalidMerkleProof
  | invalidMerkleRoot
  | emptyIterator
  | parentInfoUnavailable
  deriving DecidableEq, Repr

section Tree

variable {β : Type} (H : Hasher β)

/-- Join two siblings. Of each the first 20 bytes count. -/
def joinNodes (node other : List β) : Hash β :=
  H.hashv (H.merkleHashPrefixNode ++ node.take sizeOfMerkleProofEntry
    ++ other.take sizeOfMerkleProofEntry)

def getMerkleNode (node : List β) : Hash β := H.hashv (H.merkleHashPrefixLeaf ++ node)

/-- The nodes of a tree, level by level from its leaves on. The root is the last. -/
structure MerkleTree (β : Type) where
  nodes : List (Hash β)

namespace MerkleTree

/-- The nodes above a level. Each level has fewer nodes than the one below it, so as many turns as
there are nodes suffice. -/
def nodesAbove : ℕ → List (Hash β) → List (Hash β)
  | 0, _ => []
  | turns + 1, level =>
    if 1 < level.length then
      let parents := Merkle.pairUp (fun node other => joinNodes H node.bytes other.bytes) level
      parents ++ nodesAbove turns parents
    else []

def tryNewWithLen (leaves : List (Except Error (Hash β))) : Except Error (MerkleTree β) := do
  let leaves ← leaves.mapM id
  pure { nodes := leaves ++ nodesAbove H leaves.length leaves }

def tryNew (leaves : List (Except Error (Hash β))) : Except Error (MerkleTree β) :=
  if leaves.length = 0 then .error .emptyIterator else tryNewWithLen H leaves

/-- `none` stands for the panic of an empty tree. -/
def root (tree : MerkleTree β) : Option (Hash β) := tree.nodes.getLast?

/-- The items of a proof from a level on: the index there, the size of the level and its offset. An
error ends them; the iterator would repeat it. -/
def proofItems (nodes : List (Hash β)) (index size offset : ℕ) :
    List (Except Error (MerkleProofEntry β)) :=
  if 1 < size then
    match nodes[offset + min (index ^^^ 1) (size - 1)]? with
    | none => [.error .invalidMerkleProof]
    | some node => .ok node.entry :: proofItems nodes (index / 2) ((size + 1) / 2) (offset + size)
  else if offset + 1 = nodes.length then []
  else [.error .invalidMerkleProof]

def makeMerkleProof (tree : MerkleTree β) (index size : ℕ) :
    List (Except Error (MerkleProofEntry β)) :=
  if size ≤ index then proofItems tree.nodes index 0 tree.nodes.length
  else proofItems tree.nodes index size 0

end MerkleTree

def getMerkleTreeSize (numShreds : ℕ) : ℕ :=
  if 1 < numShreds then numShreds + getMerkleTreeSize ((numShreds + 1) / 2) else numShreds

def getMerkleRoot (index : ℕ) (node : Hash β) (proof : List (MerkleProofEntry β)) :
    Except Error (Hash β) :=
  let (index, root) := proof.foldl (fun (index, node) other =>
    (index / 2,
      if index % 2 = 0 then joinNodes H node.bytes other.bytes
      else joinNodes H other.bytes node.bytes)) (index, node)
  if index = 0 then .ok root else .error .invalidMerkleProof

/-- `proof.chunks(20)`; each chunk takes a byte at least. -/
def chunks : ℕ → List β → List (List β)
  | 0, _ => []
  | turns + 1, bytes =>
    if bytes.isEmpty then []
    else bytes.take sizeOfMerkleProofEntry :: chunks turns (bytes.drop sizeOfMerkleProofEntry)

def MerkleProofEntry.tryFrom (chunk : List β) : Except Error (MerkleProofEntry β) :=
  if h : chunk.length = 20 then .ok ⟨chunk, h⟩ else .error .invalidMerkleProof

def verifyMerkleProof [DecidableEq β] (node : Hash β) (index : ℕ) (proof : List β)
    (expectedRoot : Hash β) : Except Error Unit := do
  let proof ← (chunks proof.length proof).mapM MerkleProofEntry.tryFrom
  let merkleRoot ← getMerkleRoot H index node proof
  if merkleRoot = expectedRoot then pure () else throw .invalidMerkleProof

def getProofSize (numShreds : ℕ) : ℕ :=
  let bits := numShreds.size
  if numShreds = 2 ^ (bits - 1) then bits - 1 else bits

def parentInfoLeaf (parentSlot : UInt64) (parentBlockId : Hash β) : Hash β :=
  H.hashv (H.toLeBytes parentSlot ++ parentBlockId.bytes)

/-- The tree over the roots of the FEC sets, with the parent as the last leaf. `getMerkleRoot` has
the roots that are known, by the index of the first shred of a set. -/
def buildDoubleMerkleTree (parentInfo : Option (Option UInt64 × Hash β))
    (getMerkleRoot : ℕ → Option (Hash β)) (fecSetCount : ℕ) : Except Error (MerkleTree β) :=
  match parentInfo with
  | some (some parentSlot, parentBlockId) =>
    let merkleTreeLeaves := (List.range fecSetCount).map fun i =>
      (getMerkleRoot (i * dataShredsPerFecBlock)).elim (.error .invalidMerkleRoot) .ok
    MerkleTree.tryNewWithLen H (merkleTreeLeaves ++ [.ok (parentInfoLeaf H parentSlot parentBlockId)])
  | _ => .error .parentInfoUnavailable

/-- What of the shreds of a FEC set is hashed: it has the header behind the signature at least. -/
structure FecSet (β : Type) where
  shreds : List (List β)
  length_eq : shreds.length = shredsPerFecBlock
  le_length : ∀ shred ∈ shreds, 19 ≤ shred.length

def FecSet.merkleTree (set : FecSet β) : Except Error (MerkleTree β) :=
  MerkleTree.tryNew H (set.shreds.map fun shred => .ok (getMerkleNode H shred))

def IsFecSetRoot (root : Hash β) : Prop :=
  ∃ set : FecSet β, ∃ tree, set.merkleTree H = .ok tree ∧ tree.root = some root

end Tree

end BlackBull.Ledger
