import BlackBull.Repair.BlockIdRepair

/-!
# The order of repair requests

A top-level request is greater than every message of its slot, another top-level request and itself
included.
-/

namespace BlackBull.Repair.OutgoingMessage

open Ledger

variable {β : Type} {a b c : OutgoingMessage β}

/-- What the service keeps pending: it never asks for a shred by slot alone. -/
def ofBlockId : OutgoingMessage β → Bool
  | metadata _ | shred (.shredForBlockId _ _ _ _) => true
  | shred _ => false

def isTopLevel : OutgoingMessage β → Bool
  | metadata (.parentAndFecSetCount _ _) => true
  | _ => false

/-- The kind of a request and its index. -/
def placeInSlot : OutgoingMessage β → ℕ ×ₗ ℕ
  | metadata (.parentAndFecSetCount _ _) => toLex (0, 0)
  | metadata (.fecSetRoot _ _ index) => toLex (1, index)
  | shred (.shredForBlockId _ index _ _) => toLex (2, index)
  | shred _ => toLex (3, 0)

/-- The index of a shred of a block that is asked for. -/
def shredIndex : OutgoingMessage β → Option ℕ
  | shred (.shredForBlockId _ index _ _) => some index
  | _ => none

/-- By slot, then by kind and index. -/
def place (a : OutgoingMessage β) : ℕ ×ₗ ℕ ×ₗ ℕ := toLex (a.slot.toNat, a.placeInSlot)

/-- Two top-level requests of one slot: two of its blocks are under repair, or the request is
compared with itself. -/
def Tied (a b : OutgoingMessage β) : Prop := a.slot = b.slot ∧ a.isTopLevel ∧ b.isTopLevel

/-- A shred asked for by slot alone stands between two requests for shreds of a block in the wrong
order: it is equal to both. -/
def Skips (a b c : OutgoingMessage β) : Prop :=
  (a.slot = b.slot ∧ b.slot = c.slot) ∧ ¬ b.ofBlockId
    ∧ ∃ i ∈ a.shredIndex, ∃ j ∈ c.shredIndex, i < j

lemma cmpInSlot_swap (h : ¬ (a.isTopLevel ∧ b.isTopLevel)) :
    cmpInSlot b a = (cmpInSlot a b).swap := by
  rcases a with (_ | _) | (_ | _ | _ | _) <;> rcases b with (_ | _) | (_ | _ | _ | _) <;>
    simp_all [isTopLevel, cmpInSlot, Nat.compare_swap]

lemma cmp_tied (h : Tied a b) : cmp a b = .gt ∧ cmp b a = .gt := by
  obtain ⟨hslot, ha, hb⟩ := h
  rcases a with (_ | _) | _ <;> rcases b with (_ | _) | _ <;> simp_all [isTopLevel, cmp, cmpInSlot]

lemma cmp_swap_iff : cmp b a = (cmp a b).swap ↔ ¬ Tied a b := by
  refine ⟨fun h htied => by simp [cmp_tied htied] at h, fun h => ?_⟩
  unfold cmp
  by_cases hslot : a.slot = b.slot
  · simp_all [Tied, cmpInSlot_swap]
  · rw [if_pos (Ne.symm hslot), if_pos hslot]
    exact Std.OrientedCmp.eq_swap

lemma cmp_self_iff : cmp a a = .eq ↔ ¬ Tied a a := by
  rw [← cmp_swap_iff]
  cases cmp a a <;> simp

lemma cmpInSlot_trans_iff : ((cmpInSlot a b).isLE → (cmpInSlot b c).isLE → (cmpInSlot a c).isLE)
    ↔ ¬ (¬ b.ofBlockId ∧ ∃ i ∈ a.shredIndex, ∃ j ∈ c.shredIndex, i < j) := by
  rcases b with (_ | _) | (_ | _ | _ | _) <;> rcases a with (_ | _) | (_ | _ | _ | _) <;>
    simp [ofBlockId, shredIndex, cmpInSlot] <;> rcases c with (_ | _) | (_ | _ | _ | _) <;>
    simp [Nat.isLE_compare] <;> omega

lemma compare_slot : compare b.slot a.slot = compare b.slot.toNat a.slot.toNat := by
  simp [compare, compareOfLessAndEq, UInt64.lt_iff_toNat_lt, ← UInt64.toNat_inj]

lemma cmp_trans_iff : ((cmp a b).isLE → (cmp b c).isLE → (cmp a c).isLE) ↔ ¬ Skips a b c := by
  by_cases hslots : a.slot = b.slot ∧ b.slot = c.slot
  · simp only [Skips, hslots, cmp, cmpInSlot_trans_iff, ne_eq, not_true_eq_false, if_false, true_and]
  · refine iff_of_true (fun hab hbc => ?_) fun h => hslots h.1
    unfold cmp at *
    split_ifs at * <;> simp_all [compare_slot, Nat.isLE_compare, ← UInt64.toNat_inj] <;> omega

lemma placeInSlot_le (ha : a.ofBlockId) (hb : b.ofBlockId) (h : cmpInSlot a b ≠ .lt) :
    a.placeInSlot ≤ b.placeInSlot := by
  rcases a with (_ | _) | (_ | _ | _ | _) <;> rcases b with (_ | _) | (_ | _ | _ | _) <;>
    simp_all [ofBlockId, cmpInSlot, placeInSlot, Prod.Lex.le_iff, Nat.compare_ne_lt]

lemma place_le (ha : a.ofBlockId) (hb : b.ofBlockId) (h : cmp a b ≠ .lt) : a.place ≤ b.place := by
  rw [Prod.Lex.le_iff]
  unfold cmp at h
  split_ifs at h with hslot
  · rw [compare_slot, Nat.compare_ne_lt] at h
    rw [ne_eq, ← UInt64.toNat_inj] at hslot
    exact .inl (lt_of_le_of_ne h hslot)
  · rw [not_not] at hslot
    exact .inr ⟨congrArg UInt64.toNat hslot, placeInSlot_le ha hb h⟩

/-- The runs of the heap: it pops a message that is less than none of those left. -/
inductive Pops : List (OutgoingMessage β) → List (OutgoingMessage β) → Prop
  | nil : Pops [] []
  | pop {pending rest popped : List (OutgoingMessage β)} {a : OutgoingMessage β}
      (perm : pending.Perm (a :: rest)) (greatest : ∀ b ∈ rest, cmp a b ≠ .lt)
      (popped_rest : Pops rest popped) : Pops pending (a :: popped)

lemma Pops.sorted {pending popped : List (OutgoingMessage β)} (h : Pops pending popped)
    (hpending : ∀ a ∈ pending, a.ofBlockId) :
    popped.Perm pending ∧ popped.Pairwise (place · ≤ place ·) := by
  induction h with
  | nil => simp
  | pop perm greatest _ ih =>
    have hall := fun b hb => hpending b (perm.mem_iff.2 hb)
    obtain ⟨hrest, hsorted⟩ := ih fun b hb => hall b (.tail _ hb)
    refine ⟨(hrest.cons _).trans perm.symm, hsorted.cons fun b hb => ?_⟩
    have hmem := hrest.subset hb
    exact place_le (hall _ (.head _)) (hall b (.tail _ hmem)) (greatest b hmem)

/-- The order is a total preorder but for two top-level requests of one slot and for a shred asked
for by slot alone between two others, and there a law fails. The heap gives out what is pending by
slot, then top-level requests, roots of FEC sets and shreds by index. -/
theorem pending_requests_ordered :
    (∀ a b c : OutgoingMessage β, (cmp a a = .eq ↔ ¬ Tied a a)
      ∧ (cmp b a = (cmp a b).swap ↔ ¬ Tied a b)
      ∧ (((cmp a b).isLE → (cmp b c).isLE → (cmp a c).isLE) ↔ ¬ Skips a b c))
    ∧ ∀ pending popped : List (OutgoingMessage β), (∀ a ∈ pending, a.ofBlockId) →
      Pops pending popped → popped.Perm pending ∧ popped.Pairwise (place · ≤ place ·) :=
  ⟨fun _ _ _ => ⟨cmp_self_iff, cmp_swap_iff, cmp_trans_iff⟩, fun _ _ hpending h => h.sorted hpending⟩

def zeroes : Hash Bool := ⟨List.replicate 32 false, rfl⟩

def ones : Hash Bool := ⟨List.replicate 32 true, rfl⟩

/-- Two blocks of slot 5 are under repair. -/
theorem cmp_two_blocks :
    let a : OutgoingMessage Bool := metadata (.parentAndFecSetCount 5 zeroes)
    let b := metadata (.parentAndFecSetCount 5 ones)
    cmp a a = .gt ∧ cmp a b = .gt ∧ cmp b a = .gt := by
  decide

theorem pending_requests_ordered_three :
    let count : OutgoingMessage Bool := metadata (.parentAndFecSetCount 5 zeroes)
    let root := metadata (.fecSetRoot 5 ones 32)
    let shred := shred (.shredForBlockId 5 0 zeroes ones)
    (cmp shred root = .lt ∧ cmp root count = .lt ∧ (cmp shred count).isLE)
    ∧ Pops [shred, count, root] [count, root, shred]
    ∧ [count, root, shred].Pairwise (place · ≤ place ·) := by
  intro count root shred
  have hpops : Pops [shred, count, root] [count, root, shred] :=
    .pop (.swap _ _ _) (by decide) (.pop (.swap _ _ _) (by decide) (.pop (.refl _) nofun .nil))
  refine ⟨⟨rfl, rfl, ?_⟩, hpops, (pending_requests_ordered.2 _ _ (by decide) hpops).2⟩
  exact (pending_requests_ordered.1 shred root count).2.2.2 (fun h => h.2.1 rfl) rfl rfl

end BlackBull.Repair.OutgoingMessage
