import BlackBull.Lib.Run
import BlackBull.Votor.ParentReady

/-!
# The tracker holds the closure of the certificates it accepted

Either loop only adds parents (`Adds`), each pair once, with its event where the slot is the first
of a window.
-/

namespace BlackBull

open List
open scoped Classical

namespace ParentReadyTracker

variable (t : ParentReadyTracker)

lemma status_setStatus (s s' : ℕ) (st : ParentReadyStatus) :
    (t.setStatus s st).status s' = if s = s' then st else t.status s' := by
  unfold setStatus status
  rw [OrdMap.get?_insert]
  split_ifs <;> rfl

lemma status_setStatus_frame {α : Type} (f : ParentReadyStatus → α) (t : ParentReadyTracker)
    {s : ℕ} {st : ParentReadyStatus} (h : f st = f (t.status s)) (s' : ℕ) :
    f ((t.setStatus s st).status s') = f (t.status s') := by
  rw [status_setStatus]
  split_ifs with hs
  · rw [h, hs]
  · rfl

lemma status_setRoot (r s : ℕ) (h : r ≤ s) : (t.setRoot r).status s = t.status s := by
  simp only [setRoot, status, OrdMap.get?_retain]
  cases t.slotStatuses.get? s <;> simp [Option.filter, h]

/-- `t'` is `t` with parents added: at slot `s` those `N s` holds of, each with its event if it
was not there and `s` is the first slot of a window. -/
structure Adds (t t' : ParentReadyTracker) (ev : List VotorEvent) (N : ℕ → Block → Prop) :
    Prop where
  root : t'.root = t.root
  skip : ∀ s, (t'.status s).skip = (t.status s).skip
  notarFallbacks : ∀ s, (t'.status s).notarFallbacks = (t.status s).notarFallbacks
  mem : ∀ s b, b ∈ (t'.status s).parentsReady ↔ b ∈ (t.status s).parentsReady ∨ N s b
  events : ∀ s b, ev.count (.parentReady s b) =
    if s % numConsecutiveLeaderSlots = 0 ∧ N s b ∧ b ∉ (t.status s).parentsReady then 1 else 0
  isParentReady : ∀ e ∈ ev, ∃ s b, e = .parentReady s b

lemma Adds.refl : Adds t t [] fun _ _ => False :=
  ⟨rfl, fun _ => rfl, fun _ => rfl, by simp, by simp, by simp⟩

lemma Adds.trans {t t1 t2 : ParentReadyTracker} {ev1 ev2 : List VotorEvent}
    {N1 N2 : ℕ → Block → Prop} (h1 : Adds t t1 ev1 N1) (h2 : Adds t1 t2 ev2 N2) :
    Adds t t2 (ev1 ++ ev2) fun s b => N1 s b ∨ N2 s b where
  root := h2.root.trans h1.root
  skip s := (h2.skip s).trans (h1.skip s)
  notarFallbacks s := (h2.notarFallbacks s).trans (h1.notarFallbacks s)
  mem s b := by rw [h2.mem, h1.mem, or_assoc]
  events s b := by
    rw [count_append, h1.events, h2.events]
    simp only [h1.mem]
    by_cases hs : s % numConsecutiveLeaderSlots = 0 <;> by_cases hb : b ∈ (t.status s).parentsReady
      <;> by_cases hN1 : N1 s b <;> by_cases hN2 : N2 s b <;> simp [hN1]
  isParentReady e he := (mem_append.1 he).elim (h1.isParentReady e) (h2.isParentReady e)

lemma Adds.congr {t t' : ParentReadyTracker} {ev : List VotorEvent}
    {N N' : ℕ → Block → Prop} (h : Adds t t' ev N)
    (hN : ∀ s b, b ∉ (t.status s).parentsReady → (N s b ↔ N' s b)) : Adds t t' ev N' where
  __ := h
  mem s b := by
    rw [h.mem]
    by_cases hb : b ∈ (t.status s).parentsReady <;> simp [hb, hN s b]
  events s b := by
    rw [h.events]
    by_cases hb : b ∈ (t.status s).parentsReady <;> simp [hb, hN s b]

lemma count_parentReadyEvents (s s' : ℕ) (b b' : Block) :
    (parentReadyEvents s b).count (.parentReady s' b')
      = if s' % numConsecutiveLeaderSlots = 0 ∧ s' = s ∧ b' = b then 1 else 0 := by
  unfold parentReadyEvents
  split_ifs with h1 h2 h2
  · obtain ⟨-, rfl, rfl⟩ := h2
    simp
  · rw [count_eq_zero]
    intro hm
    simp at hm
    obtain ⟨rfl, rfl⟩ := hm
    exact h2 ⟨h1, rfl, rfl⟩
  · obtain ⟨h2, rfl, rfl⟩ := h2
    exact absurd h2 h1
  · rfl

lemma adds_push {t : ParentReadyTracker} {s : ℕ} {block : Block}
    (hb : block ∉ (t.status s).parentsReady) (hi : ℕ) :
    Adds t { t.setStatus s { t.status s with
        parentsReady := (t.status s).parentsReady ++ [block] } with highestWithParentReady := hi }
      (parentReadyEvents s block) fun s' b => s' = s ∧ b = block := by
  refine ⟨rfl, status_setStatus_frame (·.skip) t rfl, status_setStatus_frame (·.notarFallbacks) t rfl,
    fun s' b => ?_, fun s' b => ?_, fun e he => ?_⟩
  · show b ∈ ((t.setStatus s _).status s').parentsReady ↔ _
    rw [status_setStatus]
    split_ifs with h
    · subst h
      simp
    · simp [Ne.symm h]
  · rw [count_parentReadyEvents]
    by_cases h : s' = s ∧ b = block
    · obtain ⟨rfl, rfl⟩ := h
      simp [hb]
    · simp [h]
  · unfold parentReadyEvents at he
    split_ifs at he
    · exact ⟨s, block, mem_singleton.1 he⟩
    · cases he

lemma adds_touch (s : ℕ) : Adds t (t.setStatus s (t.status s)) [] fun _ _ => False := by
  have hst := status_setStatus_frame (fun st => st) t (s := s) rfl
  refine ⟨rfl, fun s' => by rw [hst], fun s' => by rw [hst], fun s' b => by simp [hst], by simp,
    by simp⟩

lemma addParent_adds (block : Block) (s : ℕ) (t : ParentReadyTracker) :
    Adds t (addParent block s t).1 (addParent block s t).2 fun s' b => s' = s ∧ b = block := by
  simp only [addParent]
  split_ifs with hb
  · refine (adds_touch t s).congr fun s' b hn => ⟨False.elim, ?_⟩
    rintro ⟨rfl, rfl⟩
    exact hn hb
  · exact adds_push hb _

/-- How many slots from `s` on are skipped. -/
noncomputable def skipsFrom (s : ℕ) : ℕ :=
  {k | s ≤ k ∧ (t.status k).skip = true}.ncard

lemma skips_subset (s : ℕ) :
    {k | s ≤ k ∧ (t.status k).skip = true} ⊆ (t.slotStatuses.keys.toFinset : Set ℕ) := by
  rintro k ⟨-, hk⟩
  simp only [coe_toFinset, Set.mem_ofPred_eq, OrdMap.mem_keys]
  unfold status at hk
  cases hg : t.slotStatuses.get? k with
  | none => simp [hg] at hk
  | some st => exact ⟨st, rfl⟩

lemma skipsFrom_le (s : ℕ) : t.skipsFrom s ≤ t.slotStatuses.entries.length := by
  calc t.skipsFrom s ≤ (t.slotStatuses.keys.toFinset : Set ℕ).ncard :=
        Set.ncard_le_ncard (t.skips_subset s) (Finset.finite_toSet _)
    _ = t.slotStatuses.keys.toFinset.card := Set.ncard_coe_finset _
    _ ≤ t.slotStatuses.keys.length := toFinset_card_le _
    _ = t.slotStatuses.entries.length := length_map _

lemma skipsFrom_succ {s : ℕ} (h : (t.status s).skip = true) :
    t.skipsFrom (s + 1) < t.skipsFrom s := by
  refine Set.ncard_lt_ncard ⟨fun k hk => ⟨by have := hk.1; omega, hk.2⟩, fun hsub => ?_⟩
    ((Finset.finite_toSet _).subset (t.skips_subset s))
  have := (hsub ⟨le_rfl, h⟩ : s ∈ {k | s + 1 ≤ k ∧ (t.status k).skip = true}).1
  omega

/-- All slots from `s` on and before `s'` are skipped. -/
def Reaches (s s' : ℕ) : Prop :=
  s ≤ s' ∧ ∀ k, s ≤ k → k < s' → (t.status k).skip = true

lemma reaches_iff (s s' : ℕ) :
    t.Reaches s s' ↔ s' = s ∨ (t.status s).skip = true ∧ t.Reaches (s + 1) s' := by
  constructor
  · rintro ⟨hle, hk⟩
    rcases Nat.eq_or_lt_of_le hle with rfl | hlt
    · exact .inl rfl
    · exact .inr ⟨hk s le_rfl hlt, hlt, fun k h1 h2 => hk k (by omega) h2⟩
  · rintro (rfl | ⟨hs, hle, hk⟩)
    · exact ⟨le_rfl, fun k h1 h2 => by omega⟩
    · refine ⟨by omega, fun k h1 h2 => ?_⟩
      rcases Nat.eq_or_lt_of_le h1 with rfl | hlt
      · exact hs
      · exact hk k hlt h2

theorem addParentLoop_adds (block : Block) :
    ∀ (fuel : ℕ) (s : ℕ) (t : ParentReadyTracker), t.skipsFrom s < fuel →
      Adds t (addParentLoop block fuel s t).1 (addParentLoop block fuel s t).2
        fun s' b => t.Reaches s s' ∧ b = block
  | 0, s, t, h => by omega
  | fuel + 1, s, t, h => by
    have h1 := addParent_adds block s t
    rcases hp : addParent block s t with ⟨t', ev⟩
    rw [hp] at h1
    simp only [addParentLoop, hp]
    split_ifs with hskip
    · have hlt := t.skipsFrom_succ hskip
      have hsame : t'.skipsFrom (s + 1) = t.skipsFrom (s + 1) := by simp only [skipsFrom, h1.skip]
      have h2 := addParentLoop_adds block fuel (s + 1) t' (by omega)
      have hreach : ∀ s', t'.Reaches (s + 1) s' ↔ t.Reaches (s + 1) s' := fun s' => by
        simp only [Reaches, h1.skip]
      refine (h1.trans h2).congr fun s' b _ => ?_
      rw [hreach, t.reaches_iff s]
      constructor
      · rintro (⟨rfl, rfl⟩ | ⟨hr, rfl⟩)
        · exact ⟨.inl rfl, rfl⟩
        · exact ⟨.inr ⟨hskip, hr⟩, rfl⟩
      · rintro ⟨rfl | ⟨-, hr⟩, rfl⟩
        · exact .inl ⟨rfl, rfl⟩
        · exact .inr ⟨hr, rfl⟩
    · refine h1.congr fun s' b _ => ?_
      rw [t.reaches_iff s]
      simp [hskip]

lemma mem_futureSlots (t : ParentReadyTracker) :
    ∀ (fuel : ℕ) (s s' : ℕ), t.skipsFrom s < fuel →
      (s' ∈ t.futureSlots fuel s ↔ t.Reaches s s')
  | 0, s, s', h => by omega
  | fuel + 1, s, s', h => by
    rw [t.reaches_iff s]
    simp only [futureSlots, mem_cons]
    split_ifs with hskip
    · have hlt := t.skipsFrom_succ hskip
      rw [mem_futureSlots t fuel (s + 1) s' (by omega)]
      simp [hskip]
    · simp [hskip]

lemma addPotentialParent_fold (s : ℕ) :
    ∀ (parents : List Block) (t : ParentReadyTracker) (ev : List VotorEvent),
      ∃ ev', (parents.foldl (addPotentialParent s) (t, ev)).2 = ev ++ ev'
        ∧ Adds t (parents.foldl (addPotentialParent s) (t, ev)).1 ev'
          fun s' b => s' = s ∧ b ∈ parents
  | [], t, ev => ⟨[], by simp, (Adds.refl t).congr (by simp)⟩
  | block :: parents, t, ev => by
    simp only [foldl_cons]
    by_cases hb : block ∈ (t.status s).parentsReady
    · have hstep : addPotentialParent s (t, ev) block = (t, ev) := by
        simp [addPotentialParent, hb]
      obtain ⟨ev', hev, h⟩ := addPotentialParent_fold s parents t ev
      rw [hstep]
      refine ⟨ev', hev, h.congr fun s' b hn => and_congr_right ?_⟩
      rintro rfl
      refine ⟨mem_cons_of_mem _, fun hm => (mem_cons.1 hm).resolve_left ?_⟩
      rintro rfl
      exact hn hb
    · have hstep : addPotentialParent s (t, ev) block
          = (t.setStatus s { t.status s with
              parentsReady := (t.status s).parentsReady ++ [block] },
            ev ++ parentReadyEvents s block) := by
        simp [addPotentialParent, hb]
      obtain ⟨ev', hev, h⟩ := addPotentialParent_fold s parents
        (t.setStatus s { t.status s with parentsReady := (t.status s).parentsReady ++ [block] })
        (ev ++ parentReadyEvents s block)
      rw [hstep]
      refine ⟨parentReadyEvents s block ++ ev', by rw [hev, append_assoc], ?_⟩
      refine ((adds_push hb _).trans h).congr fun s' b _ => ?_
      simp
      tauto

lemma addPotentialParents_adds (parents : List Block) (s : ℕ) (t : ParentReadyTracker)
    (ev : List VotorEvent) :
    ∃ ev', (addPotentialParents parents (t, ev) s).2 = ev ++ ev'
      ∧ Adds t (addPotentialParents parents (t, ev) s).1 ev' fun s' b => s' = s ∧ b ∈ parents := by
  obtain ⟨ev', hev, h⟩ := addPotentialParent_fold s parents (t.setStatus s (t.status s)) ev
  have h' := (adds_touch t s).trans h
  simp at h'
  exact ⟨ev', hev, { h' with }⟩

lemma addPotentialParents_fold (parents : List Block) :
    ∀ (slots : List ℕ) (t : ParentReadyTracker) (ev : List VotorEvent),
      ∃ ev', (slots.foldl (addPotentialParents parents) (t, ev)).2 = ev ++ ev'
        ∧ Adds t (slots.foldl (addPotentialParents parents) (t, ev)).1 ev'
          fun s b => s ∈ slots ∧ b ∈ parents
  | [], t, ev => ⟨[], by simp, (Adds.refl t).congr (by simp)⟩
  | s :: slots, t, ev => by
    obtain ⟨ev1, hev1, h1⟩ := addPotentialParents_adds parents s t ev
    rcases hp : addPotentialParents parents (t, ev) s with ⟨t1, ev0⟩
    rw [hp] at hev1 h1
    simp only at hev1 h1
    obtain ⟨ev2, hev2, h2⟩ := addPotentialParents_fold parents slots t1 ev0
    simp only [foldl_cons, hp]
    refine ⟨ev1 ++ ev2, by rw [hev2, hev1, append_assoc], (h1.trans h2).congr fun s' b _ => ?_⟩
    simp only [mem_cons]
    tauto

/-- The parents a new skip at `slot` passes on: the blocks of the slot before it, and that slot's
parents if it is skipped. -/
def potentialParents (slot : ℕ) (b : Block) : Prop :=
  b ∈ (t.status (slot - 1)).notarFallbacks
    ∨ (t.status (slot - 1)).skip = true ∧ b ∈ (t.status (slot - 1)).parentsReady

theorem addNewSkip_adds {slot : ℕ} (h : t.root < slot) :
    Adds (t.setStatus slot { t.status slot with skip := true }) (t.addNewSkip slot).1
      (t.addNewSkip slot).2 fun s b =>
        (t.setStatus slot { t.status slot with skip := true }).Reaches (slot + 1) s
          ∧ (t.setStatus slot { t.status slot with skip := true }).potentialParents slot b := by
  unfold addNewSkip
  rw [if_neg (by omega)]
  simp only
  set t1 := t.setStatus slot { t.status slot with skip := true } with ht1
  split
  · rename_i hnone
    have hst : t1.status (slot - 1) = {} := by simp [status, hnone]
    exact (Adds.refl t1).congr fun s b _ => by simp [potentialParents, hst]
  · rename_i st hsome
    have hst : t1.status (slot - 1) = st := by simp [status, hsome]
    have hpar : ∀ b, t1.potentialParents slot b
        ↔ b ∈ st.notarFallbacks ++ if st.skip then st.parentsReady else [] := by
      simp only [potentialParents, hst]
      split_ifs with hskip <;> simp [hskip]
    by_cases hnil : (st.notarFallbacks ++ if st.skip then st.parentsReady else []) = []
    · rw [if_pos hnil]
      refine (Adds.refl t1).congr fun s b _ => ?_
      rw [hpar, hnil]
      simp
    · rw [if_neg hnil]
      obtain ⟨ev', hev, hadds⟩ := addPotentialParents_fold
        (st.notarFallbacks ++ if st.skip then st.parentsReady else [])
        (t1.futureSlots (t1.slotStatuses.entries.length + 1) (slot + 1)) t1 []
      rw [hev]
      refine hadds.congr fun s b _ => ?_
      rw [hpar, mem_futureSlots]
      have := t1.skipsFrom_le (slot + 1)
      omega

def withBlock (block : Block) : ParentReadyTracker :=
  t.setStatus block.1 { t.status block.1 with
    notarFallbacks := (t.status block.1).notarFallbacks ++ [block] }

lemma addNewNotarFallbackOrStronger_cases {t t' : ParentReadyTracker} {block : Block}
    {ev : List VotorEvent} (h : t.addNewNotarFallbackOrStronger block = .ok (t', ev)) :
    ((t.root < block.1 → block ∈ (t.status block.1).notarFallbacks)
        ∧ Adds t t' ev fun _ _ => False)
      ∨ t.root < block.1 ∧ block ∉ (t.status block.1).notarFallbacks
        ∧ ((t.status block.1).notarFallbacks ++ [block]).length ≤ maxNotarFallbackBlocks
        ∧ Adds (t.withBlock block) t' ev fun s b =>
          (t.withBlock block).Reaches (block.1 + 1) s ∧ b = block := by
  simp only [addNewNotarFallbackOrStronger] at h
  split_ifs at h with hroot hmem hlen
  · cases h
    exact .inl ⟨fun hlt => absurd hlt (Nat.not_lt.2 hroot), .refl t⟩
  · cases h
    exact .inl ⟨fun _ => hmem, t.adds_touch block.1⟩
  · rw [Except.ok.injEq] at h
    obtain rfl := congrArg Prod.fst h
    obtain rfl := congrArg Prod.snd h
    refine .inr ⟨Nat.not_le.1 hroot, hmem, hlen, addParentLoop_adds block _ _ (t.withBlock block) ?_⟩
    exact Nat.lt_succ_of_le (skipsFrom_le _ _)

lemma exists_addNewNotarFallbackOrStronger {t : ParentReadyTracker} {block : Block}
    (hnd : (t.status block.1).notarFallbacks.Nodup)
    (hle : t.root < block.1 → ∀ bs : List Block, bs.Nodup →
      (∀ b ∈ bs, b = block ∨ b ∈ (t.status block.1).notarFallbacks) →
      bs.length ≤ maxNotarFallbackBlocks) :
    ∃ r, t.addNewNotarFallbackOrStronger block = .ok r := by
  unfold addNewNotarFallbackOrStronger
  simp only
  split_ifs with hroot hmem hlen
  · exact ⟨_, rfl⟩
  · exact ⟨_, rfl⟩
  · exact ⟨_, rfl⟩
  · rw [← concat_eq_append] at hlen
    refine absurd (hle (Nat.not_le.1 hroot) _ (hnd.concat hmem) fun b hb => ?_) hlen
    rw [concat_eq_append] at hb
    rcases mem_append.1 hb with hb | hb
    · exact .inr hb
    · exact .inl (mem_singleton.1 hb)

end ParentReadyTracker

namespace Accepted

lemma subset_step (h : Accepted) (op : TrackerOp) :
    h.notarized ⊆ (h.step op).notarized ∧ h.skipped ⊆ (h.step op).skipped := by
  cases op with
  | setRoot root => exact ⟨Subset.refl _, Subset.refl _⟩
  | addNewNotarFallbackOrStronger block | addNewSkip slot =>
    simp only [step]
    split_ifs <;> simp

lemma parentReady_mono {rootBlock : Block} {h : Accepted} (op : TrackerOp) {s : ℕ} {b : Block}
    (hr : h.ParentReady rootBlock s b) : (h.step op).ParentReady rootBlock s b :=
  ⟨hr.1.imp_right fun hb => (h.subset_step op).1 hb, hr.2.1,
    fun k hk1 hk2 => (h.subset_step op).2 (hr.2.2 k hk1 hk2)⟩

lemma parentReady_notarized {rootBlock : Block} {h : Accepted} {block : Block}
    (hroot : h.root < block.1) (s : ℕ) (b : Block) :
    (h.step (.addNewNotarFallbackOrStronger block)).ParentReady rootBlock s b
      ↔ h.ParentReady rootBlock s b
        ∨ b = block ∧ block.1 < s ∧ ∀ k, block.1 < k → k < s → k ∈ h.skipped := by
  simp only [step, ParentReady]
  refine ⟨?_, ?_⟩ <;> aesop

lemma parentReady_skipped {rootBlock : Block} {h : Accepted} {slot : ℕ}
    (hroot : h.root < slot) (s : ℕ) (b : Block) :
    (h.step (.addNewSkip slot)).ParentReady rootBlock s b
      ↔ h.ParentReady rootBlock s b
        ∨ h.ParentReady rootBlock slot b ∧ slot < s ∧ ∀ k, slot < k → k < s → k ∈ h.skipped := by
  simp only [step, if_pos hroot, ParentReady, mem_append, mem_singleton]
  constructor
  · rintro ⟨hb, h2, h3⟩
    -- the new skip matters only to the pairs it lies between
    by_cases hbetween : b.1 < slot ∧ slot < s
    · refine .inr ⟨⟨hb, hbetween.1, fun k hk1 hk2 => ?_⟩, hbetween.2, fun k hk1 hk2 => ?_⟩
      · exact (h3 k hk1 (by omega)).resolve_right (by omega)
      · exact (h3 k (by omega) hk2).resolve_right (by omega)
    · exact .inl ⟨hb, h2, fun k hk1 hk2 => (h3 k hk1 hk2).resolve_right (by omega)⟩
  · rintro (⟨hb, h2, h3⟩ | ⟨⟨hb, h2, h3⟩, hlt, h4⟩)
    · exact ⟨hb, h2, fun k hk1 hk2 => .inl (h3 k hk1 hk2)⟩
    · refine ⟨hb, by omega, fun k hk1 hk2 => ?_⟩
      rcases Nat.lt_trichotomy k slot with hk | hk | hk
      · exact .inl (h3 k hk1 hk)
      · exact .inr hk
      · exact .inl (h4 k hk hk2)

end Accepted

open ParentReadyTracker

variable {rootBlock : Block} {t t' : ParentReadyTracker} {h h' : Accepted} {ev : List VotorEvent}
  {op : TrackerOp}

/-- From the root on the tracker holds what was accepted, and its closure. -/
structure TrackerInv (rootBlock : Block) (t : ParentReadyTracker) (h : Accepted) : Prop where
  root : t.root = h.root
  nodup : ∀ s, (t.status s).notarFallbacks.Nodup
  skip : ∀ s, t.root ≤ s → ((t.status s).skip = true ↔ s ∈ h.skipped)
  notarFallbacks : ∀ s b, t.root ≤ s → (b ∈ (t.status s).notarFallbacks
    ↔ b.1 = s ∧ (b = rootBlock ∨ b ∈ h.notarized))
  parentsReady : ∀ s b, t.root ≤ s → (b ∈ (t.status s).parentsReady
    ↔ h.ParentReady rootBlock s b)

lemma parentReady_accepted_nil {s : ℕ} {b : Block} :
    (accepted rootBlock []).ParentReady rootBlock s b
      ↔ b = rootBlock ∧ s = rootBlock.1 + 1 := by
  simp only [Accepted.ParentReady, accepted, foldl_nil, not_mem_nil, or_false]
  constructor
  · rintro ⟨rfl, h2, h3⟩
    refine ⟨rfl, ?_⟩
    by_contra hne
    exact h3 (b.1 + 1) (by omega) (by omega)
  · rintro ⟨rfl, rfl⟩
    exact ⟨rfl, by omega, fun k _ _ => by omega⟩

lemma trackerInv_new (rootBlock : Block) :
    TrackerInv rootBlock (.new rootBlock) (accepted rootBlock []) := by
  have hst : ∀ s, (ParentReadyTracker.new rootBlock).status s
      = if rootBlock.1 + 1 = s then { parentsReady := [rootBlock] }
        else if rootBlock.1 = s then { notarFallbacks := [rootBlock] } else {} := by
    intro s
    simp only [ParentReadyTracker.new, status, OrdMap.get?_insert]
    split_ifs <;> rfl
  refine ⟨rfl, fun s => ?_, fun s _ => ?_, fun s b hs => ?_, fun s b hs => ?_⟩
  · rw [hst]
    split_ifs <;> simp
  · rw [hst]
    split_ifs <;> simp [accepted]
  · rw [hst]
    split_ifs with h1 h2
    · simp only [not_mem_nil, accepted, foldl_nil, or_false, false_iff, not_and]
      rintro h3 rfl
      omega
    · simp only [mem_singleton, accepted, foldl_nil, not_mem_nil, or_false]
      constructor
      · rintro rfl
        exact ⟨h2, rfl⟩
      · exact fun h => h.2
    · simp only [not_mem_nil, accepted, foldl_nil, or_false, false_iff, not_and]
      rintro h3 rfl
      exact h2 h3
  · rw [parentReady_accepted_nil, hst]
    split_ifs with h1 h2
    · simp [h1]
    · simp
      omega
    · simp
      omega

theorem potentialParents_iff (hI : TrackerInv rootBlock t h) {slot : ℕ} (hslot : t.root < slot)
    (b : Block) :
    (t.setStatus slot { t.status slot with skip := true }).potentialParents slot b
      ↔ h.ParentReady rootBlock slot b := by
  have hst : (t.setStatus slot { t.status slot with skip := true }).status (slot - 1)
      = t.status (slot - 1) := by
    rw [status_setStatus, if_neg (by omega)]
  simp only [potentialParents, hst]
  rw [hI.notarFallbacks _ _ (by omega), hI.skip _ (by omega), hI.parentsReady _ _ (by omega)]
  constructor
  · rintro (⟨hb1, hb⟩ | ⟨hskip, hb, h2, h3⟩)
    · exact ⟨hb, by omega, fun k _ _ => by omega⟩
    · refine ⟨hb, by omega, fun k hk1 hk2 => ?_⟩
      rcases Nat.lt_or_ge k (slot - 1) with hk | hk
      · exact h3 k hk1 hk
      · rwa [show k = slot - 1 by omega]
  · rintro ⟨hb, h2, h3⟩
    rcases Nat.eq_or_lt_of_le (show b.1 ≤ slot - 1 by omega) with hb1 | hb1
    · exact .inl ⟨hb1, hb⟩
    · exact .inr ⟨h3 _ hb1 (by omega), hb, hb1, fun k hk1 hk2 => h3 k hk1 (by omega)⟩

/-- Each pair that became ready on the first slot of a window is told once. -/
def EventsOfStep (rootBlock : Block) (h h' : Accepted) (ev : List VotorEvent) : Prop :=
  ∀ s b, ev.count (.parentReady s b) =
    if s % numConsecutiveLeaderSlots = 0 ∧ h'.ParentReady rootBlock s b
      ∧ ¬ h.ParentReady rootBlock s b then 1 else 0

lemma eventsOfStep_nil
    (hsame : ∀ s b, h'.ParentReady rootBlock s b ↔ h.ParentReady rootBlock s b) :
    EventsOfStep rootBlock h h' [] := by
  intro s b
  rw [count_nil, if_neg]
  rintro ⟨-, h1, h2⟩
  exact h2 ((hsame s b).1 h1)

lemma ParentReadyTracker.Adds.trackerInv {N : ℕ → Block → Prop} (hadds : Adds t t' ev N)
    (hroot : t.root = h'.root) (hnodup : ∀ s, (t.status s).notarFallbacks.Nodup)
    (hskip : ∀ s, t.root ≤ s → ((t.status s).skip = true ↔ s ∈ h'.skipped))
    (hnotar : ∀ s b, t.root ≤ s → (b ∈ (t.status s).notarFallbacks
      ↔ b.1 = s ∧ (b = rootBlock ∨ b ∈ h'.notarized)))
    (hpar : ∀ s b, t.root ≤ s → (b ∈ (t.status s).parentsReady ↔ h.ParentReady rootBlock s b))
    (hready : ∀ s b, h'.ParentReady rootBlock s b ↔ h.ParentReady rootBlock s b ∨ N s b)
    (hN : ∀ s b, N s b → t.root ≤ s) :
    TrackerInv rootBlock t' h' ∧ EventsOfStep rootBlock h h' ev := by
  refine ⟨⟨hadds.root.trans hroot, fun s => hadds.notarFallbacks s ▸ hnodup s, fun s hs => ?_,
    fun s b hs => ?_, fun s b hs => ?_⟩, fun s b => ?_⟩
  · rw [hadds.skip, hskip s (hadds.root ▸ hs)]
  · rw [hadds.notarFallbacks, hnotar s b (hadds.root ▸ hs)]
  · rw [hadds.mem, hready, hpar s b (hadds.root ▸ hs)]
  · rw [hadds.events]
    congr 1
    simp
    intro _
    rw [hready]
    constructor
    · rintro ⟨hb, hnot⟩
      exact ⟨.inr hb, fun hr => hnot ((hpar s b (hN s b hb)).2 hr)⟩
    · rintro ⟨hr | hb, hnot⟩
      · exact absurd hr hnot
      · exact ⟨hb, fun hmem => hnot ((hpar s b (hN s b hb)).1 hmem)⟩

lemma TrackerInv.reaches_iff {t1 : ParentReadyTracker} (hI : TrackerInv rootBlock t h) {slot : ℕ}
    (hslot : t.root ≤ slot) (hskip : ∀ k, slot < k → (t1.status k).skip = (t.status k).skip) (s : ℕ) :
    t1.Reaches (slot + 1) s ↔ slot < s ∧ ∀ k, slot < k → k < s → k ∈ h.skipped := by
  refine and_congr Iff.rfl (forall_congr' fun k => forall_congr' fun hk => ?_)
  rw [hskip k hk, hI.skip k (by omega)]

lemma addNewNotarFallbackOrStronger_inv {block : Block} (hI : TrackerInv rootBlock t h)
    (hstep : t.addNewNotarFallbackOrStronger block = .ok (t', ev)) :
    TrackerInv rootBlock t' (h.step (.addNewNotarFallbackOrStronger block))
      ∧ EventsOfStep rootBlock h (h.step (.addNewNotarFallbackOrStronger block)) ev := by
  have hcases := addNewNotarFallbackOrStronger_cases hstep
  have hroot := hI.root
  by_cases hgt : h.root < block.1
  case neg =>
    have hsame : h.step (.addNewNotarFallbackOrStronger block) = h := if_neg hgt
    obtain ⟨-, hadds⟩ := hcases.resolve_right fun hnew => hgt (hroot ▸ hnew.1)
    rw [hsame]
    exact hadds.trackerInv hroot hI.nodup hI.skip hI.notarFallbacks hI.parentsReady (by simp) nofun
  have hready := @Accepted.parentReady_notarized rootBlock h block hgt
  have hnew : h.step (.addNewNotarFallbackOrStronger block)
      = { h with notarized := h.notarized ++ [block] } := if_pos hgt
  rw [hnew] at hready ⊢
  rcases hcases with ⟨hmem, hadds⟩ | ⟨-, hmem, -, hadds⟩
  · have hold := ((hI.notarFallbacks _ _ (by omega)).1 (hmem (hroot ▸ hgt))).2
    refine hadds.trackerInv hroot hI.nodup hI.skip (fun s b hs => ?_)
      hI.parentsReady (fun s b => ?_) nofun
    · rw [hI.notarFallbacks s b hs, mem_append, mem_singleton, ← or_assoc]
      exact and_congr_right fun _ => ⟨.inl, fun hb => hb.elim id fun hb => hb ▸ hold⟩
    · rw [hready, or_false, or_iff_left_of_imp]
      rintro ⟨rfl, h2, h3⟩
      exact ⟨hold, h2, h3⟩
  have hskip : ∀ s, ((t.withBlock block).status s).skip = (t.status s).skip :=
    status_setStatus_frame _ t rfl
  have hpar : ∀ s, ((t.withBlock block).status s).parentsReady = (t.status s).parentsReady :=
    status_setStatus_frame _ t rfl
  refine hadds.trackerInv hI.root (fun s => ?_) (fun s hs => ?_) (fun s b hs => ?_)
    (fun s b hs => ?_) (fun s b => ?_) fun s b hN => ?_
  · rw [withBlock, status_setStatus]
    split_ifs with hs'
    · exact (hI.nodup block.1).append (nodup_singleton _) (by simpa using hmem)
    · exact hI.nodup s
  · rw [hskip]
    exact hI.skip s hs
  · rw [mem_append, mem_singleton, ← or_assoc, and_or_left, ← hI.notarFallbacks s b hs,
      withBlock, status_setStatus]
    split_ifs with hs'
    · subst hs'
      rw [mem_append, mem_singleton]
      exact or_congr_right ⟨fun hb => ⟨hb ▸ rfl, hb⟩, And.right⟩
    · refine (or_iff_left ?_).symm
      rintro ⟨hb, rfl⟩
      exact hs' hb
  · rw [hpar]
    exact hI.parentsReady s b hs
  · rw [hready, hI.reaches_iff (by omega) fun k _ => hskip k]
    exact or_congr_right and_comm
  · have := hN.1.1
    show t.root ≤ s
    omega

lemma addNewSkip_inv {slot : ℕ} (hI : TrackerInv rootBlock t h) :
    TrackerInv rootBlock (t.addNewSkip slot).1 (h.step (.addNewSkip slot))
      ∧ EventsOfStep rootBlock h (h.step (.addNewSkip slot)) (t.addNewSkip slot).2 := by
  by_cases hroot : slot ≤ t.root
  · have hsame : h.step (.addNewSkip slot) = h := by
      simp only [Accepted.step]
      rw [if_neg (by rw [← hI.root]; omega)]
    have hskip : t.addNewSkip slot = (t, []) := by
      simp only [addNewSkip, if_pos hroot]
    rw [hsame, hskip]
    exact ⟨hI, eventsOfStep_nil fun _ _ => Iff.rfl⟩
  have hgt : h.root < slot := by
    rw [← hI.root]
    omega
  have hready := @Accepted.parentReady_skipped rootBlock h slot hgt
  have hnew : h.step (.addNewSkip slot) = { h with skipped := h.skipped ++ [slot] } := if_pos hgt
  rw [hnew] at hready ⊢
  have hadds := @addNewSkip_adds t slot (by omega)
  set t1 := t.setStatus slot { t.status slot with skip := true } with ht1
  have hnotar : ∀ s, (t1.status s).notarFallbacks = (t.status s).notarFallbacks :=
    status_setStatus_frame _ t rfl
  have hpar : ∀ s, (t1.status s).parentsReady = (t.status s).parentsReady :=
    status_setStatus_frame _ t rfl
  refine hadds.trackerInv hI.root (fun s => hnotar s ▸ hI.nodup s) (fun s hs => ?_)
    (fun s b hs => ?_) (fun s b hs => ?_) (fun s b => ?_) fun s b hN => ?_
  · rw [status_setStatus, mem_append, ← hI.skip s hs]
    split_ifs with hs'
    · simp [hs']
    · simp [Ne.symm hs']
  · rw [hnotar]
    exact hI.notarFallbacks s b hs
  · rw [hpar]
    exact hI.parentsReady s b hs
  · rw [hready, potentialParents_iff hI (by omega), hI.reaches_iff (by omega) fun k hk => by
      rw [status_setStatus, if_neg (by omega)]]
    exact or_congr_right and_comm
  · have := hN.1.1
    show t.root ≤ s
    omega

lemma trackerStep_events
    (hstep : trackerStep t op = .ok (t', ev)) : ∀ e ∈ ev, ∃ s b, e = .parentReady s b := by
  cases op with
  | addNewNotarFallbackOrStronger block =>
    rcases addNewNotarFallbackOrStronger_cases hstep with ⟨-, hadds⟩ | ⟨-, -, -, hadds⟩
    · exact hadds.isParentReady
    · exact hadds.isParentReady
  | addNewSkip slot =>
    have heq : t.addNewSkip slot = (t', ev) := Except.ok.inj hstep
    by_cases hroot : slot ≤ t.root
    · rw [addNewSkip, if_pos hroot] at heq
      cases heq
      simp
    · have hadds := t.addNewSkip_adds (Nat.not_le.1 hroot)
      rw [heq] at hadds
      exact hadds.isParentReady
  | setRoot root =>
    cases hstep
    simp

lemma setRoot_inv {root : ℕ} (hI : TrackerInv rootBlock t h) (hle : t.root ≤ root) :
    TrackerInv rootBlock (t.setRoot root) (h.step (.setRoot root)) := by
  refine ⟨rfl, fun s => ?_, fun s hs => ?_, fun s b hs => ?_, fun s b hs => ?_⟩
  · rcases Nat.lt_or_ge s root with hs | hs
    · have : (t.setRoot root).status s = {} := by
        simp [setRoot, status, Option.filter, Nat.not_le.2 hs]
        split <;> rfl
      rw [this]
      exact nodup_nil
    · rw [status_setRoot t root s hs]
      exact hI.nodup s
  · rw [status_setRoot t root s hs]
    exact hI.skip s (hle.trans hs)
  · rw [status_setRoot t root s hs]
    exact hI.notarFallbacks s b (hle.trans hs)
  · rw [status_setRoot t root s hs]
    exact hI.parentsReady s b (hle.trans hs)

lemma trackerStep_inv (hI : TrackerInv rootBlock t h) (hop : RootNonDecreasing t op)
    (hstep : trackerStep t op = .ok (t', ev)) :
    TrackerInv rootBlock t' (h.step op) ∧ EventsOfStep rootBlock h (h.step op) ev := by
  cases op with
  | addNewNotarFallbackOrStronger block => exact addNewNotarFallbackOrStronger_inv hI hstep
  | addNewSkip slot =>
    simp only [trackerStep, Except.ok.injEq] at hstep
    have := @addNewSkip_inv rootBlock t h slot hI
    rwa [hstep] at this
  | setRoot root =>
    obtain ⟨rfl, rfl⟩ := hstep
    exact ⟨setRoot_inv hI hop, eventsOfStep_nil fun _ _ => Iff.rfl⟩

lemma accepted_append (rootBlock : Block) (ops : List TrackerOp) (op : TrackerOp) :
    accepted rootBlock (ops ++ [op]) = (accepted rootBlock ops).step op := by
  simp [accepted]

/-- The invariant of runs: the tracker has the closure and has told it. -/
def RunInv (rootBlock : Block) (ops : List TrackerOp) (ev : List VotorEvent)
    (t : ParentReadyTracker) : Prop :=
  TrackerInv rootBlock t (accepted rootBlock ops)
    ∧ EventsOfStep rootBlock (accepted rootBlock []) (accepted rootBlock ops) ev
    ∧ rootBlock.1 ≤ t.root ∧ ∀ s b, (accepted rootBlock []).ParentReady rootBlock s b →
      (accepted rootBlock ops).ParentReady rootBlock s b

lemma trackerRun_inv {ops : List TrackerOp}
    (hroots : Guarded trackerStep RootNonDecreasing (.new rootBlock) ops)
    (hrun : run trackerStep (.new rootBlock) ops = .ok (t, ev)) : RunInv rootBlock ops ev t := by
  refine run_induction (P := RunInv rootBlock) ?_ ?_ hroots hrun
  · exact ⟨trackerInv_new rootBlock, eventsOfStep_nil fun _ _ => Iff.rfl, le_rfl, fun _ _ h => h⟩
  · rintro ops ev t op t' ev' ⟨hI, hev, hle, hmono⟩ hop hstep
    obtain ⟨hI', hev'⟩ := trackerStep_inv hI hop hstep
    rw [RunInv, accepted_append]
    refine ⟨hI', fun s b => ?_, ?_, fun s b h => Accepted.parentReady_mono op (hmono s b h)⟩
    rotate_left
    · rw [hI'.root]
      rw [hI.root] at hle
      cases op with
      | setRoot root => exact hle.trans (hI.root ▸ hop)
      | _ => simp only [Accepted.step]; split_ifs <;> exact hle
    rw [count_append, hev s b, hev' s b]
    have hm := @Accepted.parentReady_mono rootBlock (accepted rootBlock ops) op s b
    by_cases h0 : (accepted rootBlock []).ParentReady rootBlock s b <;>
      by_cases h1 : (accepted rootBlock ops).ParentReady rootBlock s b <;>
      simp_all

/-- At most `maxNotarFallbackBlocks` blocks of each slot were accepted, the root block apart. -/
def Accepted.FewBlocks (h : Accepted) : Prop :=
  ∀ s, (h.notarized.toFinset.filter (·.1 = s)).card ≤ maxNotarFallbackBlocks

instance (h : Accepted) : Decidable h.FewBlocks :=
  decidable_of_iff (∀ b ∈ h.notarized, (h.notarized.toFinset.filter (·.1 = b.1)).card
      ≤ maxNotarFallbackBlocks) <| by
    refine ⟨fun h' s => ?_, fun h' b _ => h' b.1⟩
    rcases Finset.eq_empty_or_nonempty (h.notarized.toFinset.filter (·.1 = s)) with he | ⟨b, hb⟩
    · simp [he]
    · simp only [Finset.mem_filter, mem_toFinset] at hb
      exact hb.2 ▸ h' b hb.1

lemma Accepted.FewBlocks.of_step (hf : (h.step op).FewBlocks) : h.FewBlocks := by
  intro s
  refine (Finset.card_le_card (Finset.filter_subset_filter _ fun b hb => ?_)).trans (hf s)
  exact mem_toFinset.2 ((h.subset_step op).1 (mem_toFinset.1 hb))

lemma trackerStep_returns (hI : TrackerInv rootBlock t h) (hle : rootBlock.1 ≤ t.root)
    (hf : (h.step op).FewBlocks) : ∃ r, trackerStep t op = .ok r := by
  cases op with
  | addNewNotarFallbackOrStronger block =>
    -- a longer list would be of that many accepted blocks of the slot
    refine exists_addNewNotarFallbackOrStronger (hI.nodup _) fun hgt bs hnd hbs => ?_
    rw [← toFinset_card_of_nodup hnd]
    refine (Finset.card_le_card fun b hb => ?_).trans (hf block.1)
    simp only [mem_toFinset, Finset.mem_filter, Accepted.step, if_pos (hI.root ▸ hgt),
      mem_append, mem_singleton] at hb ⊢
    rcases hbs b hb with rfl | hb
    · exact ⟨.inr rfl, rfl⟩
    · obtain ⟨hb1, rfl | hb⟩ := (hI.notarFallbacks _ _ (by omega)).1 hb
      · omega
      · exact ⟨.inl hb, hb1⟩
  | addNewSkip slot => exact ⟨_, rfl⟩
  | setRoot root => exact ⟨_, rfl⟩

lemma trackerRun_returns {ops : List TrackerOp}
    (hroots : Guarded trackerStep RootNonDecreasing (.new rootBlock) ops)
    (hf : (accepted rootBlock ops).FewBlocks) :
    ∃ r, run trackerStep (.new rootBlock) ops = .ok r := by
  induction ops using reverseRecOn with
  | nil => exact ⟨_, rfl⟩
  | append_singleton ops op ih =>
    rw [accepted_append] at hf
    obtain ⟨hg1, -⟩ := guarded_append.1 hroots
    obtain ⟨⟨t, ev⟩, ht⟩ := ih hg1 hf.of_step
    obtain ⟨hI, -, hle, -⟩ := trackerRun_inv hg1 ht
    obtain ⟨⟨t', ev'⟩, ht'⟩ := trackerStep_returns hI hle hf
    exact ⟨(t', ev ++ ev'), run_append_ok.2 ⟨t, ev, ev', ht, run_cons_ok.2 ⟨t', ev', [], ht', rfl,
      by simp⟩, rfl⟩⟩

/-- The parents ready in a slot above the root are the closure of the certificates accepted so far,
so they depend on the set of certificates only, and each pair on the first slot of a window is
notified once, in the step that makes it ready. At most seven accepted blocks of a slot keep a run
from the assertion. -/
theorem parentsReady_closure {rootBlock : Block} {ops : List TrackerOp}
    (hroots : Guarded trackerStep RootNonDecreasing (.new rootBlock) ops) :
    ((accepted rootBlock ops).FewBlocks →
        ∃ t ev, run trackerStep (.new rootBlock) ops = .ok (t, ev))
      ∧ ∀ t ev, run trackerStep (.new rootBlock) ops = .ok (t, ev) →
        (∀ s b, t.root < s → (b ∈ (t.status s).parentsReady
          ↔ (accepted rootBlock ops).ParentReady rootBlock s b))
        ∧ (∀ ops' t' ev', Guarded trackerStep RootNonDecreasing (.new rootBlock) ops' →
          run trackerStep (.new rootBlock) ops' = .ok (t', ev') →
          (∀ b, b ∈ (accepted rootBlock ops').notarized ↔ b ∈ (accepted rootBlock ops).notarized) →
          (∀ k, k ∈ (accepted rootBlock ops').skipped ↔ k ∈ (accepted rootBlock ops).skipped) →
          ∀ s b, t.root < s → t'.root < s →
            (b ∈ (t'.status s).parentsReady ↔ b ∈ (t.status s).parentsReady))
        ∧ (∀ s b, ev.count (.parentReady s b) =
          if s % numConsecutiveLeaderSlots = 0 ∧ (accepted rootBlock ops).ParentReady rootBlock s b
            ∧ ¬ (b = rootBlock ∧ s = rootBlock.1 + 1) then 1 else 0)
        ∧ ∀ before op after t₁ ev₁ t₂ ev₂, ops = before ++ op :: after →
          run trackerStep (.new rootBlock) before = .ok (t₁, ev₁) →
          trackerStep t₁ op = .ok (t₂, ev₂) → ∀ s b, ev₂.count (.parentReady s b) =
            if s % numConsecutiveLeaderSlots = 0
              ∧ (accepted rootBlock (before ++ [op])).ParentReady rootBlock s b
              ∧ ¬ (accepted rootBlock before).ParentReady rootBlock s b then 1 else 0 := by
  refine ⟨fun hf => ?_, fun t ev hrun => ?_⟩
  · obtain ⟨⟨t, ev⟩, h⟩ := trackerRun_returns hroots hf
    exact ⟨t, ev, h⟩
  obtain ⟨hI, hev, -⟩ := trackerRun_inv hroots hrun
  refine ⟨fun s b hs => hI.parentsReady s b hs.le, ?_, fun s b => ?_, ?_⟩
  · intro ops' t' ev' hg' hr' hnot hskip s b hs hs'
    rw [(trackerRun_inv hg' hr').1.parentsReady s b hs'.le, hI.parentsReady s b hs.le]
    simp only [Accepted.ParentReady, hnot, hskip]
  · rw [hev s b]
    simp only [parentReady_accepted_nil]
  · rintro before op after t₁ ev₁ t₂ ev₂ rfl h1 h2 s b
    obtain ⟨hg1, hg2⟩ := guarded_append.1 hroots
    rw [accepted_append]
    exact (trackerStep_inv (trackerRun_inv hg1 h1).1 (hg2 t₁ ev₁ h1).1 h2).2 s b

/-- Skips that arrive before the block they follow. -/
def skipsFirst : List TrackerOp :=
  [.addNewSkip 2, .addNewSkip 3, .setRoot 0, .addNewNotarFallbackOrStronger (1, 7), .addNewSkip 1]

theorem parentsReady_closure_out_of_order :
    ∃ t ev, run trackerStep (.new (0, 0)) skipsFirst = .ok (t, ev)
      ∧ (1, 7) ∈ (t.status 4).parentsReady ∧ ev.count (.parentReady 4 (1, 7)) = 1 := by
  have hroots : Guarded trackerStep RootNonDecreasing (.new (0, 0)) skipsFirst := by decide
  obtain ⟨hret, hall⟩ := parentsReady_closure hroots
  obtain ⟨t, ev, hrun⟩ := hret (by decide)
  obtain ⟨-, -, hcount, -⟩ := hall t ev hrun
  refine ⟨t, ev, hrun, ?_, (hcount 4 (1, 7)).trans (by decide)⟩
  cases hrun
  decide

end BlackBull
