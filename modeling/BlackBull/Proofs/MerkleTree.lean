import BlackBull.Proofs.BlockIdRepair

/-!
# Proofs of a Merkle tree

The levels of a tree lie in one list.
-/

namespace BlackBull.Ledger

open List Merkle MerkleTree

variable {β : Type} {H : Hasher β} {nodes leaves : List (Hash β)} {index size offset : ℕ}

lemma getMerkleTreeSize_strictMono : StrictMono getMerkleTreeSize := by
  intro m n h
  induction n using Nat.strong_induction_on generalizing m with
  | _ n ih =>
    unfold getMerkleTreeSize
    split_ifs with hm hn
    · rcases Nat.eq_or_lt_of_le (show (m + 1) / 2 ≤ (n + 1) / 2 by omega) with heq | hlt
      · rw [heq]
        omega
      · have := ih _ (by omega) hlt
        omega
    all_goals omega

/-- A node of a level that lies on `lower` and below `above` has a proof. -/
def Provable (H : Hasher β) (level above : List (Hash β)) : Prop :=
  ∀ (lower : List (Hash β)) (index : ℕ) (node : Hash β), level[index]? = some node →
    ∃ proof, proofItems (lower ++ (level ++ above)) index level.length lower.length = proof.map .ok
      ∧ proof.length = Nat.clog 2 level.length
      ∧ ∃ root, (level ++ above).getLast? = some root ∧ getMerkleRoot H index node proof = .ok root

lemma provable_singleton (root : Hash β) : Provable H [root] [] := by
  intro lower index node hnode
  obtain rfl : index = 0 := Nat.lt_one_iff.1 (List.getElem?_eq_some_iff.1 hnode).1
  cases hnode
  exact ⟨[], by simp [proofItems], by simp, root, rfl, rfl⟩

lemma Provable.below {level above : List (Hash β)} (hlong : 1 < level.length)
    (h : Provable H (parentsOf H level) above) : Provable H level (parentsOf H level ++ above) := by
  intro lower index node hnode
  obtain ⟨other, hother, hparent⟩ :=
    @exists_sibling _ (fun node other => joinNodes H node.bytes other.bytes) _ _ _ hnode
  obtain ⟨proof, hitems, hproof, root, hlast, hroot⟩ := h (lower ++ level) _ _ hparent
  rw [length_pairUp, length_append, append_assoc] at hitems
  rw [length_pairUp] at hproof
  refine ⟨other.entry :: proof, ?_, ?_, root, ?_, ?_⟩
  · have hlt := (List.getElem?_eq_some_iff.1 hother).1
    rw [proofItems, if_pos hlong, getElem?_append_right (Nat.le_add_right _ _),
      Nat.add_sub_cancel_left, getElem?_append_left hlt, hother]
    exact congrArg _ hitems
  · rw [length_cons, hproof, Nat.clog_of_two_le Nat.one_lt_two hlong]
    rfl
  · rw [getLast?_append, hlast]
    rfl
  · rw [← hroot, ← (joinNodes_entry other node.bytes).1, ← (joinNodes_entry other node.bytes).2]
    rfl

lemma length_nodesAbove {turns : ℕ} {level : List (Hash β)} (hpos : 0 < level.length)
    (hlen : level.length ≤ turns + 1) :
    (level ++ nodesAbove H turns level).length = getMerkleTreeSize level.length := by
  refine nodesAbove_induction (fun _ => by simp [getMerkleTreeSize])
    (fun level above hlong h => ?_) hpos hlen
  rw [length_append, h, length_pairUp]
  conv_rhs => rw [getMerkleTreeSize, if_pos hlong]

lemma exists_error (hpos : 0 < size) (h : offset + getMerkleTreeSize size ≠ nodes.length) :
    .error .invalidMerkleProof ∈ proofItems nodes index size offset := by
  fun_induction proofItems nodes index size offset with
  | case1 => exact mem_singleton_self _
  | case2 index size offset hlong node _ ih =>
    rw [getMerkleTreeSize, if_pos hlong, ← Nat.add_assoc] at h
    exact mem_cons_of_mem _ (ih (by omega) h)
  | case3 index size offset hshort hlast =>
    rw [getMerkleTreeSize, if_neg hshort] at h
    omega
  | case4 => exact mem_singleton_self _

/-- A tree has a proof of every leaf, and of nothing else in its place. -/
theorem merkleTree_proves (H : Hasher β) (leaves : List (Hash β)) (hne : leaves ≠ []) :
    ∃ tree root, MerkleTree.tryNew H (leaves.map .ok) = .ok tree ∧ tree.root = some root
      ∧ tree.nodes.length = getMerkleTreeSize leaves.length
      ∧ (∀ index leaf, leaves[index]? = some leaf →
        ∃ proof, tree.makeMerkleProof index leaves.length = proof.map .ok
          ∧ proof.length = getProofSize leaves.length
          ∧ getMerkleRoot H index leaf proof = .ok root)
      ∧ (∀ index size, leaves.length ≤ index ∨ size ≠ leaves.length →
        .error .invalidMerkleProof ∈ tree.makeMerkleProof index size)
      ∧ (CollisionFree H → ∀ index leaf node proof, leaves[index]? = some leaf →
        proof.length = getProofSize leaves.length → getMerkleRoot H index node proof = .ok root →
        node.entry = leaf.entry) := by
  have hpos : 0 < leaves.length := length_pos_iff.2 hne
  have hlen : leaves.length ≤ leaves.length + 1 := Nat.le_succ _
  obtain ⟨root, hiter, hroot⟩ := getLast?_nodesAbove (H := H) hpos hlen
  have hnodes := length_nodesAbove (H := H) hpos hlen
  refine ⟨⟨leaves ++ nodesAbove H leaves.length leaves⟩, root, ?_, hroot, hnodes,
    fun index leaf hleaf => ?_, fun index size hwrong => ?_,
    fun hH index leaf node proof hleaf hproof hmerkle => ?_⟩
  · have hok : (leaves.map .ok).mapM id = (pure leaves : Except Error _) := by
      rw [mapM_map]
      exact (mapM_pure (f := id)).trans (congrArg _ (map_id _))
    rw [tryNew, if_neg (by rw [length_map]; exact hpos.ne'), tryNewWithLen, hok]
    rfl
  · have h : Provable H leaves (nodesAbove H leaves.length leaves) :=
      nodesAbove_induction provable_singleton (fun _ _ => Provable.below) hpos hlen
    obtain ⟨proof, hitems, hproof, root', hroot', hmerkle⟩ := h [] index leaf hleaf
    cases hroot.symm.trans hroot'
    refine ⟨proof, ?_, hproof.trans (getProofSize_eq hpos).symm, hmerkle⟩
    rw [makeMerkleProof, if_neg (Nat.not_le.2 (List.getElem?_eq_some_iff.1 hleaf).1)]
    exact hitems
  · unfold makeMerkleProof
    split_ifs with hle
    · rw [proofItems, if_neg (Nat.succ_ne_self _)]
      exact mem_singleton_self _
    · refine exists_error (by omega) ?_
      rw [hnodes, Nat.zero_add, getMerkleTreeSize_strictMono.injective.ne_iff]
      rintro rfl
      exact hwrong.elim hle fun h => h rfl
  · have hentries := congrArg (map Hash.entry) hiter
    rw [map_iterate_pairUp entry_joinNodes, ← getProofSize_eq hpos, ← hproof] at hentries
    obtain ⟨hlt, hclimb⟩ := getMerkleRoot_ok hmerkle
    obtain ⟨pos, hget, -, heq⟩ := exists_of_climb (joinEntries_injective hH) hentries hclimb hlt
    have hindex := (List.getElem?_eq_some_iff.1 hleaf).1
    rw [heq (by rwa [length_map]), getElem?_map, hleaf] at hget
    exact (Option.some.inj hget).symm

open Repair in
/-- The second of two leaves has a proof. -/
theorem merkleTree_proves_two : ∃ tree root proof,
    MerkleTree.tryNew Letter.hasher [.ok Letter.zeroHash, .ok (Letter.hasher.hashv [])] = .ok tree
    ∧ tree.root = some root ∧ tree.makeMerkleProof 1 2 = proof.map .ok
    ∧ getMerkleRoot Letter.hasher 1 (Letter.hasher.hashv []) proof = .ok root := by
  obtain ⟨tree, root, htree, hroot, -, hproofs, -⟩ :=
    merkleTree_proves Letter.hasher [Letter.zeroHash, Letter.hasher.hashv []] (by simp)
  obtain ⟨proof, hitems, -, hmerkle⟩ := hproofs 1 _ rfl
  exact ⟨tree, root, proof, htree, hroot, hitems, hmerkle⟩

end BlackBull.Ledger
