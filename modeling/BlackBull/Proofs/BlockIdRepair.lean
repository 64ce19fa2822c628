import BlackBull.Lib.Layout
import BlackBull.Lib.Run
import BlackBull.Repair.BlockIdRepair

/-!
# What a peer can prove about a block

Joining reads only the first 20 bytes of a node, so the trees are studied on those (`Hash.entry`).
-/

namespace BlackBull.Ledger

open Merkle List MerkleTree BlackBull.Except MerkleProofEntry

variable {β : Type} {H : Hasher β}

lemma Hash.eq_iff {h h' : Hash β} :
    h = h' ↔ h.entry = h'.entry ∧ h.bytes.drop 20 = h'.bytes.drop 20 := by
  constructor
  · rintro rfl
    exact ⟨rfl, rfl⟩
  · rintro ⟨hentry, hdrop⟩
    have htake : h.bytes.take 20 = h'.bytes.take 20 := congrArg MerkleProofEntry.bytes hentry
    have hbytes : h.bytes = h'.bytes := by
      rw [← take_append_drop 20 h.bytes, htake, hdrop, take_append_drop]
    cases h
    cases hbytes
    rfl

/-- No two inputs have hashes with the same first 20 bytes. -/
def CollisionFree (H : Hasher β) : Prop :=
  ∀ input input', (H.hashv input).entry = (H.hashv input').entry → input = input'

def joinEntries (H : Hasher β) (node other : MerkleProofEntry β) : MerkleProofEntry β :=
  (joinNodes H node.bytes other.bytes).entry

lemma MerkleProofEntry.take_bytes (e : MerkleProofEntry β) : e.bytes.take 20 = e.bytes :=
  take_of_length_le (by rw [e.length_eq])

lemma MerkleProofEntry.ext {a b : MerkleProofEntry β} (h : a.bytes = b.bytes) : a = b := by
  cases b
  cases h
  rfl

lemma joinEntries_eq (a b : MerkleProofEntry β) :
    joinEntries H a b = (H.hashv (H.merkleHashPrefixNode ++ a.bytes ++ b.bytes)).entry := by
  unfold joinEntries joinNodes sizeOfMerkleProofEntry
  rw [a.take_bytes, b.take_bytes]

lemma joinNodes_entry (node : Hash β) (other : List β) :
    joinNodes H node.entry.bytes other = joinNodes H node.bytes other
    ∧ joinNodes H other node.entry.bytes = joinNodes H other node.bytes := by
  simp [joinNodes, Hash.entry, sizeOfMerkleProofEntry, take_take]

lemma entry_joinNodes (node other : Hash β) :
    (joinNodes H node.bytes other.bytes).entry = joinEntries H node.entry other.entry := by
  rw [joinEntries, (joinNodes_entry _ _).1, (joinNodes_entry _ _).2]

section Separation

variable (hH : CollisionFree H)

include hH

lemma joinEntries_injective : Function.Injective2 (joinEntries H) := by
  intro a a' b b' h
  rw [joinEntries_eq, joinEntries_eq] at h
  obtain ⟨hleft, hright⟩ := append_inj' (hH _ _ h) (by rw [b.length_eq, b'.length_eq])
  exact ⟨ext (append_cancel_left hleft), ext hright⟩

/-- The node of a shred: a leaf of the tree of an FEC set. -/
def IsShredNode (H : Hasher β) (e : MerkleProofEntry β) : Prop :=
  ∃ shred : List β, 19 ≤ shred.length ∧ e = (getMerkleNode H shred).entry

lemma not_isShredNode_join (a b : MerkleProofEntry β) : ¬ IsShredNode H (joinEntries H a b) := by
  rintro ⟨shred, -, h⟩
  have hbytes := hH _ _ h
  rw [append_assoc] at hbytes
  exact H.leaf_ne_node (append_inj hbytes (by rw [H.length_leaf, H.length_node])).1.symm

lemma parentInfoLeaf_ne_join (slot : UInt64) (blockId : Hash β) (a b : MerkleProofEntry β) :
    (parentInfoLeaf H slot blockId).entry ≠ joinEntries H a b := by
  intro h
  rw [joinEntries_eq] at h
  have hlen := congrArg length (hH _ _ h)
  rw [length_append, length_append, length_append, H.length_toLeBytes,
    blockId.length_eq, H.length_node, b.length_eq] at hlen
  omega

lemma not_perfect_parentInfoLeaf (slot : UInt64) (blockId : Hash β) (k : ℕ) :
    ¬ Perfect (joinEntries H) (IsShredNode H) k (parentInfoLeaf H slot blockId).entry := by
  generalize he : (parentInfoLeaf H slot blockId).entry = e
  rintro (⟨shred, hle, rfl⟩ | ⟨-, -⟩)
  · have hlen := congrArg length (hH _ _ he)
    rw [length_append, length_append, H.length_toLeBytes, blockId.length_eq,
      H.length_leaf] at hlen
    omega
  · exact parentInfoLeaf_ne_join hH slot blockId _ _ he

lemma parentInfoLeaf_injective {slot slot' : UInt64} {blockId blockId' : Hash β}
    (h : (parentInfoLeaf H slot blockId).entry = (parentInfoLeaf H slot' blockId').entry) :
    (slot, blockId) = (slot', blockId') := by
  obtain ⟨hslot, hid⟩ := append_inj (hH _ _ h)
    (by rw [H.length_toLeBytes, H.length_toLeBytes])
  cases blockId
  cases hid
  rw [H.toLeBytes_injective hslot]

end Separation

abbrev parentsOf (H : Hasher β) : List (Hash β) → List (Hash β) :=
  pairUp fun node other => joinNodes H node.bytes other.bytes

@[elab_as_elim]
lemma nodesAbove_induction {P : List (Hash β) → List (Hash β) → Prop} (hone : ∀ root, P [root] [])
    (hlong : ∀ level above, 1 < level.length → P (parentsOf H level) above →
      P level (parentsOf H level ++ above)) {turns : ℕ} {level : List (Hash β)}
    (hpos : 0 < level.length) (hlen : level.length ≤ turns + 1) :
    P level (nodesAbove H turns level) := by
  induction turns generalizing level with
  | zero =>
    obtain ⟨root, rfl⟩ := length_eq_one_iff.1 (Nat.le_antisymm hlen hpos)
    exact hone root
  | succ turns ih =>
    unfold nodesAbove
    split_ifs with h
    · have hparents : (parentsOf H level).length = (level.length + 1) / 2 := length_pairUp level
      exact hlong level _ h (ih (by omega) (by omega))
    · obtain ⟨root, rfl⟩ := length_eq_one_iff.1 (show level.length = 1 by omega)
      exact hone root

lemma getLast?_nodesAbove {turns : ℕ} {level : List (Hash β)} (hpos : 0 < level.length)
    (hlen : level.length ≤ turns + 1) :
    ∃ root, (parentsOf H)^[Nat.clog 2 level.length] level = [root]
      ∧ (level ++ nodesAbove H turns level).getLast? = some root := by
  refine nodesAbove_induction (fun root => ⟨root, by simp, rfl⟩) ?_ hpos hlen
  rintro level above hlong ⟨root, hroot, hlast⟩
  refine ⟨root, ?_, ?_⟩
  · rw [Nat.clog_of_two_le Nat.one_lt_two hlong, ← hroot, length_pairUp]
    rfl
  · rw [getLast?_append, hlast]
    rfl

lemma mapM_id_ok {α : Type} {xs : List (Except Error α)} {as : List α}
    (h : xs.mapM id = .ok as) : xs = as.map .ok := by
  induction xs generalizing as with
  | nil =>
    cases h
    rfl
  | cons x xs ih =>
    rw [mapM_cons] at h
    obtain ⟨a, ha, h⟩ := bind_eq_ok.1 h
    obtain ⟨as', has', h⟩ := bind_eq_ok.1 h
    cases h
    rw [map_cons, ← ih has', show x = .ok a from ha]

lemma iterate_of_root {leaves : List (Except Error (Hash β))} {tree : MerkleTree β}
    {root : Hash β} (hne : leaves ≠ []) (htree : tryNewWithLen H leaves = .ok tree)
    (hroot : tree.root = some root) :
    ∃ hashes : List (Hash β), leaves = hashes.map .ok
      ∧ (pairUp (joinEntries H))^[Nat.clog 2 leaves.length] (hashes.map Hash.entry)
        = [root.entry] := by
  obtain ⟨hashes, hhashes, h⟩ := bind_eq_ok.1 htree
  cases h
  have heq := mapM_id_ok hhashes
  have hpos : 0 < hashes.length := by
    rw [← length_map (f := Except.ok (ε := Error)), ← heq]
    exact length_pos_iff.2 hne
  obtain ⟨root', hiter, hlast⟩ := @getLast?_nodesAbove _ H hashes.length hashes hpos (by omega)
  have hsame : root' = root := Option.some.inj (hlast.symm.trans hroot)
  refine ⟨hashes, heq, ?_⟩
  rw [heq, length_map, ← map_iterate_pairUp entry_joinNodes, hiter, hsame]
  rfl

lemma IsFecSetRoot.perfect {root : Hash β} (h : IsFecSetRoot H root) :
    Perfect (joinEntries H) (IsShredNode H) 6 root.entry := by
  obtain ⟨set, tree, htree, hroot⟩ := h
  have hlen : (set.shreds.map fun shred => Except.ok (ε := Error) (getMerkleNode H shred)).length
      = 64 := by
    rw [length_map, set.length_eq]
    rfl
  unfold FecSet.merkleTree tryNew at htree
  rw [if_neg (by rw [hlen]; decide)] at htree
  obtain ⟨hashes, hhashes, hiter⟩ := iterate_of_root (by
    rw [← length_pos_iff, hlen]
    decide) htree hroot
  rw [hlen, show Nat.clog 2 64 = 6 by decide +kernel] at hiter
  have hleaves : ∀ e ∈ hashes.map Hash.entry, Perfect (joinEntries H) (IsShredNode H) 0 e := by
    intro e he
    obtain ⟨hash, hhash, rfl⟩ := mem_map.1 he
    have hmem : Except.ok hash ∈ hashes.map (Except.ok (ε := Error)) := mem_map_of_mem hhash
    rw [← hhashes] at hmem
    obtain ⟨shred, hshred, hnode⟩ := mem_map.1 hmem
    cases hnode
    exact .leaf ⟨shred, set.le_length shred hshred, rfl⟩
  have := perfect_iterate (m := 6) hleaves root.entry (by rw [hiter]; exact mem_singleton_self _)
  exact this

lemma length_of_chunks {turns : ℕ} {bytes : List β} {entries : List (MerkleProofEntry β)}
    (hlen : bytes.length ≤ turns)
    (h : (chunks turns bytes).mapM tryFrom = .ok entries) :
    bytes.length = entries.length * 20 := by
  induction turns generalizing bytes entries with
  | zero =>
    cases h
    exact Nat.le_zero.1 hlen
  | succ turns ih =>
    unfold chunks at h
    split_ifs at h with hempty
    · cases h
      rw [isEmpty_iff.1 hempty]
      rfl
    · rw [mapM_cons] at h
      obtain ⟨e, he, h⟩ := bind_eq_ok.1 h
      obtain ⟨rest, hrest, h⟩ := bind_eq_ok.1 h
      cases h
      unfold tryFrom sizeOfMerkleProofEntry at he
      split_ifs at he with htake
      rw [length_take] at htake
      have := ih (by unfold sizeOfMerkleProofEntry; rw [length_drop]; omega) hrest
      unfold sizeOfMerkleProofEntry at this
      rw [length_drop] at this
      rw [length_cons]
      omega

lemma getMerkleRoot_ok {index : ℕ} {node root : Hash β} {proof : List (MerkleProofEntry β)}
    (h : getMerkleRoot H index node proof = .ok root) :
    index < 2 ^ proof.length ∧ climb (joinEntries H) index node.entry proof = root.entry := by
  unfold getMerkleRoot at h
  induction proof generalizing index node with
  | nil =>
    rw [foldl_nil] at h
    dsimp only at h
    split_ifs at h with hzero
    cases h
    exact ⟨by rw [hzero]; exact Nat.one_pos, rfl⟩
  | cons other proof ih =>
    rw [foldl_cons] at h
    obtain ⟨hlt, hclimb⟩ := ih h
    refine ⟨?_, ?_⟩
    · rw [length_cons]
      omega
    · rw [climb, ← hclimb]
      congr 1
      split_ifs
      · rw [joinEntries, (joinNodes_entry _ _).1]
      · rw [joinEntries, (joinNodes_entry _ _).2]

lemma verifyMerkleProof_isOk [DecidableEq β] {node root : Hash β} {index : ℕ} {proof : List β}
    (h : (verifyMerkleProof H node index proof root).isOk = true) :
    ∃ entries : List (MerkleProofEntry β), proof.length = entries.length * 20
      ∧ index < 2 ^ entries.length
      ∧ climb (joinEntries H) index node.entry entries = root.entry := by
  cases hv : verifyMerkleProof H node index proof root with
  | error e =>
    rw [hv] at h
    cases h
  | ok u =>
    obtain ⟨entries, hentries, hv⟩ := bind_eq_ok.1 hv
    obtain ⟨merkleRoot, hmerkle, hv⟩ := bind_eq_ok.1 hv
    split_ifs at hv with hsame
    subst hsame
    exact ⟨entries, length_of_chunks (Nat.le_refl _) hentries, getMerkleRoot_ok hmerkle⟩

lemma getProofSize_eq {n : ℕ} (h : 0 < n) : getProofSize n = Nat.clog 2 n := by
  have hsize : 0 < n.size := Nat.size_pos.2 h
  have hlt := Nat.lt_size_self n
  have hle : 2 ^ (n.size - 1) ≤ n := Nat.lt_size.1 (by omega)
  unfold getProofSize
  dsimp only
  split_ifs with hpow
  · conv_rhs => rw [hpow]
    rw [Nat.clog_pow 2 _ Nat.one_lt_two]
  · symm
    refine Nat.le_antisymm (Nat.clog_le_of_le_pow hlt.le) ?_
    have : n.size - 1 < Nat.clog 2 n := (Nat.lt_clog_iff_pow_lt Nat.one_lt_two).2 (by omega)
    omega

/-- The leaves of the tree of a block: the roots of its FEC sets and the parent info. -/
structure BlockLeaves (H : Hasher β) (parentSlot : UInt64) (parentBlockId : Hash β)
    (getMerkleRoot : ℕ → Option (Hash β)) (n : ℕ) (leaves : List (MerkleProofEntry β)) : Prop where
  roots : ∀ i < n, ∀ root, getMerkleRoot (i * dataShredsPerFecBlock) = some root →
    leaves[i]? = some root.entry
  parent : leaves[n]? = some (parentInfoLeaf H parentSlot parentBlockId).entry
  length_eq : leaves.length = n + 1

lemma blockLeaves_of_build {parentSlot : UInt64} {parentBlockId : Hash β}
    {getMerkleRoot : ℕ → Option (Hash β)} {n : ℕ} {tree : MerkleTree β} {blockId : Hash β}
    (htree : buildDoubleMerkleTree H (some (some parentSlot, parentBlockId)) getMerkleRoot n
      = .ok tree) (hroot : tree.root = some blockId) :
    ∃ leaves, BlockLeaves H parentSlot parentBlockId getMerkleRoot n leaves
      ∧ (pairUp (joinEntries H))^[Nat.clog 2 (n + 1)] leaves = [blockId.entry] := by
  obtain ⟨hashes, hhashes, hiter⟩ := iterate_of_root (by simp) htree hroot
  have hlen : hashes.length = n + 1 := by
    have := congrArg length hhashes
    simpa using this.symm
  have hget (i : ℕ) (hash : Hash β) (h : ((range n).map fun i =>
      (getMerkleRoot (i * dataShredsPerFecBlock)).elim (.error Error.invalidMerkleRoot) Except.ok)[i]?
        = some (.ok hash) ∨ i = n ∧ hash = parentInfoLeaf H parentSlot parentBlockId) :
      (hashes.map Hash.entry)[i]? = some hash.entry := by
    have hi : (hashes.map (Except.ok (ε := Error)))[i]? = some (.ok hash) := by
      rw [← hhashes]
      rcases h with h | ⟨rfl, rfl⟩
      · exact getElem?_append_left (List.getElem?_eq_some_iff.1 h).1 ▸ h
      · rw [getElem?_append_right (by simp)]
        simp
    rw [getElem?_map, Option.map_eq_some_iff] at hi
    obtain ⟨hash', hhash', hsame⟩ := hi
    cases hsame
    rw [getElem?_map, hhash']
    rfl
  refine ⟨hashes.map Hash.entry, ⟨fun i hi root hroot => hget i root (.inl ?_),
    hget n _ (.inr ⟨rfl, rfl⟩), by rw [length_map, hlen]⟩, ?_⟩
  · rw [getElem?_map, getElem?_range hi, Option.map_some, hroot]
    rfl
  · rw [← hiter]
    simp

end BlackBull.Ledger

namespace BlackBull.Repair

open Ledger Merkle

variable {β : Type} {H : Hasher β}

section Block

variable {parentSlot : UInt64} {parentBlockId : Hash β} {getMerkleRoot : ℕ → Option (Hash β)} {n : ℕ}
  {leaves : List (MerkleProofEntry β)} {root : MerkleProofEntry β} {index : ℕ}
  {entries : List (MerkleProofEntry β)}
  (hH : CollisionFree H)
  (hleaves : BlockLeaves H parentSlot parentBlockId getMerkleRoot n leaves)
  (hroots : ∀ i < n, ∃ root, getMerkleRoot (i * dataShredsPerFecBlock) = some root
    ∧ IsFecSetRoot H root)

include hleaves hroots in
lemma leaf_cases {i : ℕ} {e : MerkleProofEntry β} (h : leaves[i]? = some e) :
    Perfect (joinEntries H) (IsShredNode H) 6 e
    ∨ i = n ∧ e = (parentInfoLeaf H parentSlot parentBlockId).entry := by
  have hlt := (List.getElem?_eq_some_iff.1 h).1
  rw [hleaves.length_eq] at hlt
  rcases Nat.lt_or_eq_of_le (Nat.lt_succ_iff.1 hlt) with hi | rfl
  · obtain ⟨root, hroot, hfec⟩ := hroots i hi
    rw [hleaves.roots i hi root hroot] at h
    cases h
    exact .inl hfec.perfect
  · rw [hleaves.parent] at h
    cases h
    exact .inr ⟨rfl, rfl⟩

variable (hroot : (pairUp (joinEntries H))^[Nat.clog 2 (n + 1)] leaves = [root])
  (hi : index < 2 ^ entries.length)

include hH hleaves hroots hroot hi

lemma parent_of_climb {slot : UInt64} {blockId : Hash β}
    (hclimb : climb (joinEntries H) index (parentInfoLeaf H slot blockId).entry entries = root) :
    n ≤ index ∧ (slot, blockId) = (parentSlot, parentBlockId) := by
  have hjoin := joinEntries_injective hH
  have hlen : entries.length = Nat.clog 2 (n + 1) := by
    refine length_of_climb hjoin hroot hclimb hi (fun b hb k hk hover => ?_)
      fun b hb k hk hunder => ?_
    · obtain ⟨c, d, hcd⟩ := hover.exists_join hk
      exact parentInfoLeaf_ne_join hH _ _ _ _ hcd
    · obtain ⟨i, hb⟩ := List.mem_iff_getElem?.1 hb
      rcases leaf_cases hleaves hroots hb with hperfect | ⟨-, rfl⟩
      · obtain ⟨h', -, hperfect'⟩ := hperfect.under hjoin (not_isShredNode_join hH) hunder
        exact not_perfect_parentInfoLeaf hH _ _ _ hperfect'
      · obtain ⟨c, d, hcd⟩ := hunder.exists_join hk
        exact parentInfoLeaf_ne_join hH _ _ _ _ hcd
  rw [← hlen] at hroot
  obtain ⟨pos, hpos, hle, -⟩ := exists_of_climb hjoin hroot hclimb hi
  rcases leaf_cases hleaves hroots hpos with hperfect | ⟨rfl, hsame⟩
  · exact absurd hperfect (not_perfect_parentInfoLeaf hH _ _ _)
  · exact ⟨hle, parentInfoLeaf_injective hH hsame⟩

/-- What climbs to the id of a block from the index of a FEC set, in as many steps as the tree is
high, has the bytes of its root that joining reads. The root itself climbs in no other number of
steps. -/
lemma root_of_climb (hindex : index < n) {e : MerkleProofEntry β} {r : Hash β}
    (hr : getMerkleRoot (index * dataShredsPerFecBlock) = some r)
    (hclimb : climb (joinEntries H) index e entries = root) :
    (entries.length = Nat.clog 2 (n + 1) → e = r.entry)
    ∧ (e = r.entry → entries.length = Nat.clog 2 (n + 1)) := by
  have hjoin := joinEntries_injective hH
  refine ⟨fun hlen => ?_, ?_⟩
  · rw [← hlen] at hroot
    obtain ⟨pos, hpos, -, hsame⟩ := exists_of_climb hjoin hroot hclimb hi
    rw [hsame (by rw [hleaves.length_eq]; omega), hleaves.roots index hindex r hr] at hpos
    exact (Option.some.inj hpos).symm
  · rintro rfl
    obtain ⟨r', hr', hfec⟩ := hroots index hindex
    cases hr.symm.trans hr'
    have hshred := not_isShredNode_join hH
    refine length_of_climb hjoin hroot hclimb hi (fun b hb k hk hover => ?_)
      fun b hb k hk hunder => ?_
    · obtain ⟨h', hh', hperfect⟩ := hfec.perfect.under hjoin hshred hover
      obtain ⟨i, hb⟩ := List.mem_iff_getElem?.1 hb
      rcases leaf_cases hleaves hroots hb with hperfect' | ⟨-, rfl⟩
      · have := hperfect'.height_unique hjoin hshred hperfect
        omega
      · exact not_perfect_parentInfoLeaf hH _ _ _ hperfect
    · obtain ⟨i, hb⟩ := List.mem_iff_getElem?.1 hb
      rcases leaf_cases hleaves hroots hb with hperfect | ⟨-, rfl⟩
      · obtain ⟨h', hh', hperfect'⟩ := hperfect.under hjoin hshred hunder
        have := hperfect'.height_unique hjoin hshred hfec.perfect
        omega
      · obtain ⟨c, d, hcd⟩ := hunder.exists_join hk
        exact parentInfoLeaf_ne_join hH _ _ _ _ hcd

end Block

section Response

variable [DecidableEq β]

/-- Take a block with `n` FEC sets. A response that is accepted about its parent and the number of
its FEC sets is right exactly if the number is not larger than `n`. One about the root of a FEC set is
right exactly if the proof is as long as the tree of the block is high, and the last 12 bytes are
right. -/
theorem verifyResponse_sound_iff (H : Hasher β) (hH : CollisionFree H) (parentSlot : UInt64)
    (parentBlockId : Hash β) (getMerkleRoot : ℕ → Option (Hash β)) (n : ℕ)
    (hroots : ∀ i < n, ∃ root, getMerkleRoot (i * dataShredsPerFecBlock) = some root
      ∧ IsFecSetRoot H root) (tree : MerkleTree β)
    (htree : buildDoubleMerkleTree H (some (some parentSlot, parentBlockId)) getMerkleRoot n
      = .ok tree)
    (blockId : Hash β) (hroot : tree.root = some blockId) (slot : UInt64) :
    (∀ fecSetCount parentInfo parentProof,
      verifyResponse H (.parentAndFecSetCount slot blockId)
        (.parentFecSetCount fecSetCount parentInfo parentProof) = true →
      (fecSetCount = n ∧ parentInfo = (parentSlot, parentBlockId) ↔ fecSetCount ≤ n))
    ∧ ∀ i < n, ∀ root, getMerkleRoot (i * dataShredsPerFecBlock) = some root →
      ∀ fecSetRoot fecSetProof,
        verifyResponse H (.fecSetRoot slot blockId (i * dataShredsPerFecBlock))
          (.fecSetRoot fecSetRoot fecSetProof) = true →
        (fecSetRoot = root ↔ fecSetProof.length = getProofSize (n + 1) * sizeOfMerkleProofEntry
          ∧ fecSetRoot.bytes.drop sizeOfMerkleProofEntry
            = root.bytes.drop sizeOfMerkleProofEntry) := by
  obtain ⟨leaves, hleaves, hiter⟩ := blockLeaves_of_build htree hroot
  refine ⟨fun fecSetCount parentInfo parentProof h => ?_,
    fun i hi root hr fecSetRoot fecSetProof h => ?_⟩
  · unfold verifyResponse at h
    dsimp only at h
    split_ifs at h
    obtain ⟨entries, -, hindex, hclimb⟩ := verifyMerkleProof_isOk h
    obtain ⟨hle, hparent⟩ := parent_of_climb hH hleaves hroots hiter hindex hclimb
    exact ⟨fun h => h.1.le, fun h => ⟨Nat.le_antisymm h hle, hparent⟩⟩
  · obtain ⟨entries, hlength, hindex, hclimb⟩ := verifyMerkleProof_isOk h
    rw [show i * dataShredsPerFecBlock / dataShredsPerFecBlock = i from
      Nat.mul_div_cancel i (by decide)] at hindex hclimb
    obtain ⟨hright, hlong⟩ := root_of_climb hH hleaves hroots hiter hindex hi hr hclimb
    rw [Hash.eq_iff, getProofSize_eq (Nat.succ_pos n), hlength]
    unfold sizeOfMerkleProofEntry
    constructor
    · rintro ⟨hentry, hdrop⟩
      exact ⟨by rw [hlong hentry], hdrop⟩
    · rintro ⟨hlen, hdrop⟩
      exact ⟨hright (Nat.mul_right_cancel (by decide) hlen), hdrop⟩

end Response

/-- Letters for which there is a hash function without collisions: a hash is a letter that has its
input in it. -/
inductive Letter
  | byte (b : UInt8)
  | pair (first rest : Letter)
  deriving DecidableEq

namespace Letter

def code : List Letter → Letter
  | [] => byte 0
  | a :: w => pair a (code w)

lemma code_injective : Function.Injective code := by
  intro w w' h
  induction w generalizing w' with
  | nil =>
    cases w' with
    | nil => rfl
    | cons a w' => cases h
  | cons a w ih =>
    cases w' with
    | nil => cases h
    | cons a' w' =>
      obtain ⟨rfl, hrest⟩ := Letter.pair.inj h
      rw [ih hrest]

/-- A hasher without collisions: it keeps its input in a letter. -/
def hasher : Hasher Letter where
  hashv input := ⟨code input :: List.replicate 31 (byte 0), by simp⟩
  merkleHashPrefixLeaf := byte 0 :: List.replicate 25 (byte 76)
  merkleHashPrefixNode := byte 1 :: List.replicate 25 (byte 78)
  toLeBytes n := (leBytes 8 n.toNat).map byte
  length_leaf := by simp
  length_node := by simp
  leaf_ne_node := by simp
  length_toLeBytes n := by simp
  toLeBytes_injective n n' h := by
    have hbytes := List.map_injective_iff.2 (fun _ _ h => Letter.byte.inj h) h
    have := congrArg leNat hbytes
    rw [leNat_leBytes n.toNat_lt, leNat_leBytes n'.toNat_lt] at this
    exact UInt64.toNat_inj.1 this

lemma collisionFree_hasher : CollisionFree hasher := by
  intro w w' h
  have hbytes := congrArg MerkleProofEntry.bytes h
  exact code_injective (List.cons.inj hbytes).1

def zeroHash : Hash Letter := ⟨List.replicate 32 (byte 0), by simp⟩

def fecSet (b : UInt8) : FecSet Letter where
  shreds := List.replicate 64 (List.replicate 19 (byte b))
  length_eq := by simp [shredsPerFecBlock]
  le_length shred h := by rw [List.eq_of_mem_replicate h, List.length_replicate]

def treeOf (tree : Except Error (MerkleTree Letter)) : MerkleTree Letter := tree.toOption.getD ⟨[]⟩

def rootOf (tree : Except Error (MerkleTree Letter)) : Hash Letter := (treeOf tree).root.getD zeroHash

def twoRoots (index : ℕ) : Option (Hash Letter) :=
  if index = 0 then some (rootOf ((fecSet 1).merkleTree hasher))
  else if index = 32 then some (rootOf ((fecSet 2).merkleTree hasher))
  else none

def twoSets : Except Error (MerkleTree Letter) :=
  buildDoubleMerkleTree hasher (some (some 7, zeroHash)) twoRoots 2

lemma eq_of_isSome {tree : Except Error (MerkleTree Letter)}
    (h : (tree.toOption.bind MerkleTree.root).isSome = true) :
    tree = .ok (treeOf tree) ∧ (treeOf tree).root = some (rootOf tree) := by
  cases tree with
  | error e => cases h
  | ok tree =>
    obtain ⟨root, hroot⟩ := Option.isSome_iff_exists.1 h
    have hroot' : tree.root = some root := hroot
    refine ⟨rfl, ?_⟩
    show tree.root = some (tree.root.getD zeroHash)
    rw [hroot']
    rfl

lemma isFecSetRoot_fecSet (b : UInt8)
    (h : (((fecSet b).merkleTree hasher).toOption.bind MerkleTree.root).isSome = true) :
    IsFecSetRoot hasher (rootOf ((fecSet b).merkleTree hasher)) :=
  ⟨fecSet b, _, eq_of_isSome h⟩

lemma isFecSetRoot_twoRoots : ∀ i < 2, ∃ root, twoRoots (i * dataShredsPerFecBlock) = some root
    ∧ IsFecSetRoot hasher root := by
  rintro (_ | _ | i) hi
  · exact ⟨_, rfl, isFecSetRoot_fecSet 1 (by decide +kernel)⟩
  · exact ⟨_, rfl, isFecSetRoot_fecSet 2 (by decide +kernel)⟩
  · omega

/-- The block is built, and the siblings of the parent's leaf prove it for a count of 2 or 3. -/
lemma exists_twoSets : twoSets = .ok (treeOf twoSets) ∧ (treeOf twoSets).root = some (rootOf twoSets) :=
  eq_of_isSome (by decide +kernel)

def parentProof : List Letter :=
  (parentInfoLeaf hasher 7 zeroHash).entry.bytes
    ++ (joinNodes hasher (rootOf ((fecSet 1).merkleTree hasher)).bytes
      (rootOf ((fecSet 2).merkleTree hasher)).bytes).entry.bytes

/-- The block has two FEC sets. A response with three of them is accepted, as the last leaf of its
tree is joined with itself; and so is the id of the block as the root of its first FEC set, with no
proof. -/
theorem verifyResponse_twoSets :
    CollisionFree hasher
    ∧ twoSets = .ok (treeOf twoSets) ∧ (treeOf twoSets).root = some (rootOf twoSets)
    ∧ verifyResponse hasher (.parentAndFecSetCount 9 (rootOf twoSets))
      (.parentFecSetCount 3 (7, zeroHash) parentProof) = true
    ∧ verifyResponse hasher (.fecSetRoot 9 (rootOf twoSets) 0) (.fecSetRoot (rootOf twoSets) [])
      = true
    ∧ twoRoots 0 ≠ some (rootOf twoSets) := by
  obtain ⟨htree, hroot⟩ := exists_twoSets
  exact ⟨collisionFree_hasher, htree, hroot, by decide +kernel, by decide +kernel, by decide +kernel⟩

/-- The response with the right count has the same proof here, and is accepted. -/
theorem verifyResponse_sound_iff_twoSets :
    verifyResponse hasher (.parentAndFecSetCount 9 (rootOf twoSets))
      (.parentFecSetCount 2 (7, zeroHash) parentProof) = true
    ∧ (2 = 2 ∧ ((7 : UInt64), zeroHash) = (7, zeroHash) ↔ 2 ≤ 2) := by
  obtain ⟨htree, hroot⟩ := exists_twoSets
  have haccepted : verifyResponse hasher (.parentAndFecSetCount 9 (rootOf twoSets))
      (.parentFecSetCount 2 (7, zeroHash) parentProof) = true := by decide +kernel
  exact ⟨haccepted, (verifyResponse_sound_iff hasher collisionFree_hasher 7 zeroHash twoRoots 2
    isFecSetRoot_twoRoots (treeOf twoSets) htree (rootOf twoSets) hroot 9).1 _ _ _ haccepted⟩

end Letter

end BlackBull.Repair
