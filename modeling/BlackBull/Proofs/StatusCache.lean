import BlackBull.Runtime.StatusCache

/-!
# The status cache forgets nothing that counts

An insert whose slot was not cleared since is `live`.
-/

namespace BlackBull

open List Option OrdMap

variable {T : Type} {N : ℕ} {history : List (CacheOp T)} {s : StatusCache T}

abbrev CacheInsert (T : Type) := ℕ × List ℕ × ℕ × T

def live (history : List (CacheOp T)) : List (CacheInsert T) :=
  history.foldl (fun inserts op =>
    match op with
    | .insert blockhash key slot res _ => inserts ++ [(blockhash, key, slot, res)]
    | .addRoot _ => inserts
    | .clear slot => inserts.filter fun i => i.2.2.1 ≠ slot) []

def rootsAdded (history : List (CacheOp T)) : List ℕ :=
  history.filterMap fun
    | .addRoot slot => some slot
    | _ => none

def rootsOf (history : List (CacheOp T)) : List ℕ := 0 :: rootsAdded history

def rootsFrom (slot : ℕ) (history : List (CacheOp T)) : ℕ :=
  ((rootsOf history).toFinset.filter (slot ≤ ·)).card

lemma rootsAdded_concat (history : List (CacheOp T)) (op : CacheOp T) :
    rootsAdded (history ++ [op]) = rootsAdded history ++ (match op with
      | .addRoot slot => [slot]
      | _ => []) := by
  rw [rootsAdded, rootsAdded, filterMap_append]
  cases op <;> rfl

lemma mem_rootsOf_concat {r : ℕ} (op : CacheOp T)
    (h : r ∈ rootsOf history) : r ∈ rootsOf (history ++ [op]) := by
  rcases mem_cons.1 h with rfl | h
  · exact mem_cons_self
  · rw [rootsOf, rootsAdded_concat]
    exact mem_cons_of_mem _ (mem_append_left _ h)

lemma rootsFrom_mono (slot : ℕ) (history : List (CacheOp T)) (op : CacheOp T) :
    rootsFrom slot history ≤ rootsFrom slot (history ++ [op]) := by
  refine Finset.card_le_card (Finset.filter_subset_filter _ fun root hr => ?_)
  rw [List.mem_toFinset] at hr ⊢
  exact mem_rootsOf_concat op hr

lemma live_concat (history : List (CacheOp T)) (op : CacheOp T) :
    live (history ++ [op]) = match op with
      | .insert blockhash key slot res _ => live history ++ [(blockhash, key, slot, res)]
      | .addRoot _ => live history
      | .clear slot => (live history).filter fun i => i.2.2.1 ≠ slot := by
  rw [live, foldl_append]
  rfl

namespace StatusCache

variable {slot : ℕ} {slice : KeySlice} {f : ℕ × T}

def forks (keyMap : OrdMap KeySlice (List (ℕ × T))) (slice : KeySlice) : List (ℕ × T) :=
  (keyMap.get? slice).getD []

lemma forks_clearKey (keyMap : OrdMap KeySlice (List (ℕ × T))) (slice sl : KeySlice) :
    forks (clearKey slot keyMap slice) sl
      = if sl = slice then (forks keyMap sl).filter (·.1 ≠ slot) else forks keyMap sl := by
  unfold clearKey
  rcases hget : keyMap.get? slice with _ | l
  · split_ifs with heq
    · rw [heq, forks, hget]
      rfl
    · rfl
  · simp only
    split_ifs with hnil heq heq
    · rw [forks, heq, get?_remove_self, forks, hget, getD_some, hnil]
      rfl
    · rw [forks, get?_remove, if_neg (Ne.symm heq), forks]
    · rw [forks, heq, OrdMap.get?_insert_self, forks, hget]
      rfl
    · rw [forks, OrdMap.get?_insert_ne _ (Ne.symm heq), forks]

lemma forks_foldl_clearKey (slices : List KeySlice) (keyMap : OrdMap KeySlice (List (ℕ × T)))
    (sl : KeySlice) :
    forks (slices.foldl (clearKey slot) keyMap) sl
      = if sl ∈ slices then (forks keyMap sl).filter (·.1 ≠ slot) else forks keyMap sl := by
  induction slices generalizing keyMap with
  | nil => simp
  | cons slice slices ih =>
    rw [foldl_cons, ih, forks_clearKey]
    by_cases heq : sl = slice <;> by_cases hmem : sl ∈ slices <;> simp [heq, hmem]

lemma forks_push (keyMap : OrdMap KeySlice (List (ℕ × T))) (slice sl : KeySlice) (f : ℕ × T) :
    forks (keyMap.modifyD slice [] (· ++ [f])) sl
      = forks keyMap sl ++ if sl = slice then [f] else [] := by
  rw [forks, modifyD, get?_insert]
  split_ifs with h1 h2 h2
  · rw [h2]
    rfl
  · exact absurd h1.symm h2
  · exact absurd h2.symm h1
  · rw [append_nil, forks]

def clearStatus (slot : ℕ) (slices : List KeySlice) (status : KeyStatus T) : KeyStatus T :=
  { status with keyMap := slices.foldl (clearKey slot) status.keyMap }

def listed (deltas : List (ℕ × ℕ × List (KeySlice × T))) (blockhash : ℕ) : List KeySlice :=
  ((OrdMap.lookup blockhash deltas).map fun d => d.2.map (·.1)).getD []

lemma listed_entries (deltas : SlotStatus T) (b : ℕ) :
    listed deltas.entries b = ((deltas.get? b).map fun d => d.2.map (·.1)).getD [] := rfl

lemma foldlM_clearBlockhash {deltas : List (ℕ × ℕ × List (KeySlice × T))}
    {cache : OrdMap ℕ (KeyStatus T)} (hnodup : (deltas.map Prod.fst).Nodup)
    (hin : ∀ d ∈ deltas, ∃ status, cache.get? d.1 = some status) :
    ∃ cache', deltas.foldlM (clearBlockhash slot) cache = .ok cache'
      ∧ ∀ b, cache'.get? b = (cache.get? b).bind fun status =>
        if b ∈ deltas.map Prod.fst then
          if (clearStatus slot (listed deltas b) status).keyMap.entries = [] then none
          else some (clearStatus slot (listed deltas b) status)
        else some status := by
  induction deltas generalizing cache with
  | nil => exact ⟨cache, rfl, fun b => by cases cache.get? b <;> rfl⟩
  | cons d deltas ih =>
    obtain ⟨hd, hnodup⟩ := nodup_cons.1 hnodup
    obtain ⟨status, hstatus⟩ := hin d mem_cons_self
    have hlisted : listed (d :: deltas) d.1 = d.2.2.map (·.1) := by
      rw [listed, OrdMap.lookup, if_pos rfl]
      rfl
    have hother : ∀ b, b ≠ d.1 → listed (d :: deltas) b = listed deltas b := fun b hb => by
      rw [listed, OrdMap.lookup, if_neg (Ne.symm hb)]
      rfl
    obtain ⟨cache1, hcache1, hself, hkeep⟩ : ∃ cache1, clearBlockhash slot cache d = .ok cache1
        ∧ cache1.get? d.1
          = (if (clearStatus slot (listed (d :: deltas) d.1) status).keyMap.entries = [] then none
            else some (clearStatus slot (listed (d :: deltas) d.1) status))
        ∧ ∀ b, b ≠ d.1 → cache1.get? b = cache.get? b := by
      rw [hlisted]
      refine ⟨_, by rw [clearBlockhash, hstatus], ?_, fun b hb => ?_⟩
      · unfold clearStatus
        split_ifs
        · rw [get?_remove_self]
        · rw [OrdMap.get?_insert_self]
      · split_ifs
        · rw [get?_remove, if_neg (Ne.symm hb)]
        · rw [OrdMap.get?_insert_ne _ (Ne.symm hb)]
    have hne : ∀ d' ∈ deltas, d'.1 ≠ d.1 := fun d' hd' heq => hd (mem_map.2 ⟨d', hd', heq⟩)
    obtain ⟨cache', hcache', hget⟩ := @ih cache1 hnodup fun d' hd' => by
      rw [hkeep d'.1 (hne d' hd')]
      exact hin d' (mem_cons_of_mem _ hd')
    refine ⟨cache', ?_, fun b => ?_⟩
    · rw [foldlM_cons, hcache1]
      exact hcache'
    · rw [hget b]
      by_cases hb : b = d.1
      · subst hb
        rw [hself, hstatus, bind_some, map_cons, if_pos mem_cons_self]
        split_ifs <;> rfl
      · rw [hkeep b hb, hother b hb, map_cons]
        simp only [mem_cons, hb, false_or]

section Observers

/-! What is read of a cache: the index and the greatest slot of a blockhash, the slots and results
stored at a slice, and the slices that the slot deltas list. -/

def keyIndexOf (s : StatusCache T) (b : ℕ) : Option ℕ := (s.cache.get? b).map (·.keyIndex)

def maxSlotOf (s : StatusCache T) (b : ℕ) : ℕ := ((s.cache.get? b).map (·.maxSlot)).getD 0

def stored (s : StatusCache T) (b : ℕ) (slice : KeySlice) : List (ℕ × T) :=
  ((s.cache.get? b).map fun status => forks status.keyMap slice).getD []

def listedIn (s : StatusCache T) (slot b : ℕ) : List KeySlice :=
  ((s.slotDeltas.get? slot).map fun deltas => listed deltas.entries b).getD []

lemma getStatus_eq (s : StatusCache T) (key : List ℕ) (b : ℕ) (ancestors : ℕ → Bool) :
    s.getStatus key b ancestors = (s.keyIndexOf b).bind fun i =>
      (s.stored b (keySlice key i)).find? fun f => ancestors f.1 || decide (f.1 ∈ s.roots) := by
  rw [getStatus, keyIndexOf]
  unfold stored
  rcases s.cache.get? b with _ | status
  · rfl
  · simp only [map_some, bind_some, getD_some, forks]
    cases status.keyMap.get? (keySlice key status.keyIndex) <;> rfl

lemma keyIndexOf_of_mem {b : ℕ} (h : f ∈ s.stored b slice) : ∃ i, s.keyIndexOf b = some i := by
  rw [stored] at h
  rw [keyIndexOf]
  rcases hget : s.cache.get? b with _ | status
  · rw [hget] at h
    exact absurd h not_mem_nil
  · exact ⟨_, rfl⟩

end Observers

section Drop

variable (s : StatusCache T) (root b : ℕ)

lemma get?_dropRoot : (s.dropRoot root).cache.get? b
    = if root < s.maxSlotOf b then s.cache.get? b else none := by
  rw [dropRoot, get?_retain, maxSlotOf]
  rcases s.cache.get? b with _ | status
  · simp
  · simp [Option.filter]

lemma keyIndexOf_dropRoot : (s.dropRoot root).keyIndexOf b
    = if root < s.maxSlotOf b then s.keyIndexOf b else none := by
  rw [keyIndexOf, get?_dropRoot]
  split_ifs <;> rfl

lemma maxSlotOf_dropRoot : (s.dropRoot root).maxSlotOf b
    = if root < s.maxSlotOf b then s.maxSlotOf b else 0 := by
  rw [maxSlotOf, get?_dropRoot]
  split_ifs <;> rfl

lemma slotDeltas_dropRoot (slot : ℕ) : (s.dropRoot root).slotDeltas.get? slot
    = if root < slot then s.slotDeltas.get? slot else none := by
  rw [dropRoot, get?_retain]
  rcases s.slotDeltas.get? slot with _ | deltas
  · simp
  · simp [Option.filter]

variable {s root b}

lemma mem_stored_dropRoot :
    f ∈ (s.dropRoot root).stored b slice ↔ root < s.maxSlotOf b ∧ f ∈ s.stored b slice := by
  rw [stored, get?_dropRoot, ← mem_ite_nil_right]
  split_ifs <;> rfl

lemma mem_listedIn_dropRoot :
    slice ∈ (s.dropRoot root).listedIn slot b ↔ root < slot ∧ slice ∈ s.listedIn slot b := by
  rw [listedIn, slotDeltas_dropRoot, ← mem_ite_nil_right]
  split_ifs <;> rfl

end Drop

section Insert

variable (s : StatusCache T) (b : ℕ) (key : List ℕ) (slot : ℕ) (res : T) (random : ℕ)

def insertIndex (s : StatusCache T) (b : ℕ) (key : List ℕ) (random : ℕ) : ℕ :=
  (s.keyIndexOf b).getD (random % (key.length - (cachedKeySize + 1) + 1))

lemma get?_insert_self : ∃ status, (s.insert b key slot res random).cache.get? b = some status
    ∧ status.keyIndex = s.insertIndex b key random
    ∧ status.maxSlot = max slot (s.maxSlotOf b)
    ∧ ∀ slice, forks status.keyMap slice
      = s.stored b slice
        ++ if slice = keySlice key (s.insertIndex b key random) then [(slot, res)] else [] := by
  refine ⟨_, OrdMap.get?_insert_self _ _ _, ?_, ?_, fun slice => (forks_push _ _ _ _).trans ?_⟩
  · rw [insertIndex, keyIndexOf]
    cases s.cache.get? b <;> rfl
  · rw [maxSlotOf]
    rcases s.cache.get? b with _ | status
    · exact (max_self slot).trans (Nat.max_zero slot).symm
    · rfl
  · rw [insertIndex, keyIndexOf, stored]
    cases s.cache.get? b <;> rfl

lemma get?_insert_ne {b' : ℕ} (h : b' ≠ b) :
    (s.insert b key slot res random).cache.get? b' = s.cache.get? b' :=
  OrdMap.get?_insert_ne _ (Ne.symm h) _

lemma keyIndexOf_insert (b' : ℕ) : (s.insert b key slot res random).keyIndexOf b'
    = if b' = b then some (s.insertIndex b key random) else s.keyIndexOf b' := by
  rw [keyIndexOf]
  split_ifs with h
  · obtain ⟨status, hget, hindex, -, -⟩ := get?_insert_self s b key slot res random
    rw [h, hget, map_some, hindex]
  · rw [get?_insert_ne _ _ _ _ _ _ h, keyIndexOf]

lemma maxSlotOf_insert (b' : ℕ) : (s.insert b key slot res random).maxSlotOf b'
    = if b' = b then max slot (s.maxSlotOf b) else s.maxSlotOf b' := by
  rw [maxSlotOf]
  split_ifs with h
  · obtain ⟨status, hget, -, hmax, -⟩ := get?_insert_self s b key slot res random
    rw [h, hget, map_some, getD_some, hmax]
  · rw [get?_insert_ne _ _ _ _ _ _ h, maxSlotOf]

lemma slotDeltas_addToSlotDelta (index : ℕ) (slice : KeySlice) : ∃ index' entries,
    (s.addToSlotDelta b slot index slice res).slotDeltas.get? slot
      = some (((s.slotDeltas.get? slot).getD ∅).insert b (index', entries ++ [(slice, res)]))
    ∧ entries.map (·.1) = s.listedIn slot b := by
  refine ⟨_, _, OrdMap.get?_insert_self _ _ _, ?_⟩
  rw [listedIn]
  rcases s.slotDeltas.get? slot with _ | deltas
  · rfl
  · rw [getD_some, map_some, getD_some, listed_entries]
    cases deltas.get? b <;> rfl

lemma insert_eq_addToSlotDelta : ∃ cache index, s.insert b key slot res random
    = addToSlotDelta { s with cache } b slot index (keySlice key (s.insertIndex b key random))
      res := by
  rw [insertIndex, keyIndexOf, insert]
  cases s.cache.get? b <;> exact ⟨_, _, rfl⟩

lemma slotDeltas_insert_self : ∃ index entries,
    (s.insert b key slot res random).slotDeltas.get? slot
      = some (((s.slotDeltas.get? slot).getD ∅).insert b
        (index, entries ++ [(keySlice key (s.insertIndex b key random), res)]))
    ∧ entries.map (·.1) = s.listedIn slot b := by
  obtain ⟨cache, index, heq⟩ := insert_eq_addToSlotDelta s b key slot res random
  rw [heq]
  exact slotDeltas_addToSlotDelta { s with cache } b slot res index _

lemma slotDeltas_insert_ne {slot' : ℕ} (h : slot' ≠ slot) :
    (s.insert b key slot res random).slotDeltas.get? slot' = s.slotDeltas.get? slot' :=
  OrdMap.get?_insert_ne _ (Ne.symm h) _

variable {s b key slot res random}

lemma mem_stored_insert {b' : ℕ} : f ∈ (s.insert b key slot res random).stored b' slice
    ↔ f ∈ s.stored b' slice
      ∨ b' = b ∧ slice = keySlice key (s.insertIndex b key random) ∧ f = (slot, res) := by
  by_cases h : b' = b
  · obtain ⟨status, hget, -, -, hforks⟩ := get?_insert_self s b key slot res random
    rw [h, stored, hget, map_some, getD_some, hforks]
    simp
  · rw [stored, get?_insert_ne _ _ _ _ _ _ h, or_iff_left fun hc => h hc.1, stored]

lemma mem_listedIn_insert {slot' b' : ℕ} :
    slice ∈ (s.insert b key slot res random).listedIn slot' b' ↔ slice ∈ s.listedIn slot' b'
      ∨ slot' = slot ∧ b' = b ∧ slice = keySlice key (s.insertIndex b key random) := by
  by_cases hslot : slot' = slot
  · obtain ⟨index, entries, hget, hentries⟩ := slotDeltas_insert_self s b key slot res random
    rw [hslot, listedIn, hget, map_some, getD_some, listed_entries,
      get?_insert]
    by_cases hb : b = b'
    · subst hb
      simp [hentries]
    · rw [if_neg hb, or_iff_left fun hc => hb hc.2.1.symm, listedIn]
      cases s.slotDeltas.get? slot <;> rfl
  · rw [listedIn, slotDeltas_insert_ne _ _ _ _ _ _ hslot, or_iff_left fun hc => hslot hc.1,
      listedIn]

end Insert

section Clear

structure Listing (s : StatusCache T) : Prop where
  nonempty : ∀ slot deltas b d, s.slotDeltas.get? slot = some deltas → deltas.get? b = some d →
    d.2 ≠ []
  inCache : ∀ slot b, ∀ slice ∈ s.listedIn slot b, ∃ f ∈ s.stored b slice, f.1 = slot

structure Cleared (slot : ℕ) (s s' : StatusCache T) : Prop where
  roots : s'.roots = s.roots
  limit : s'.maxRootEntries = s.maxRootEntries
  deltas : ∀ slot', s'.slotDeltas.get? slot'
    = if slot' = slot then none else s.slotDeltas.get? slot'
  stored : ∀ b slice, s'.stored b slice
    = if slice ∈ s.listedIn slot b then (s.stored b slice).filter (·.1 ≠ slot) else s.stored b slice
  kept : ∀ b, s'.cache.get? b = none
    ∨ s'.keyIndexOf b = s.keyIndexOf b ∧ s'.maxSlotOf b = s.maxSlotOf b

lemma Cleared.listedIn {s' : StatusCache T} (h : Cleared slot s s') (slot' b : ℕ) :
    s'.listedIn slot' b = if slot' = slot then [] else s.listedIn slot' b := by
  rw [StatusCache.listedIn, h.deltas]
  split_ifs <;> rfl

lemma Cleared.mem_of_ne {s' : StatusCache T} (h : Cleared slot s s') {b : ℕ} (hne : f.1 ≠ slot)
    (hf : f ∈ s.stored b slice) : f ∈ s'.stored b slice := by
  rw [h.stored]
  split_ifs
  · exact mem_filter.2 ⟨hf, decide_eq_true hne⟩
  · exact hf

lemma Cleared.of_mem {s' : StatusCache T} (h : Cleared slot s s') {b : ℕ}
    (hf : f ∈ s'.stored b slice) :
    f ∈ s.stored b slice ∧ s'.keyIndexOf b = s.keyIndexOf b ∧ s'.maxSlotOf b = s.maxSlotOf b := by
  refine ⟨?_, (h.kept b).resolve_left fun hnone => ?_⟩
  · rw [h.stored] at hf
    split_ifs at hf
    · exact mem_of_mem_filter hf
    · exact hf
  · obtain ⟨i, hi⟩ := keyIndexOf_of_mem hf
    rw [keyIndexOf, hnone] at hi
    cases hi

lemma stored_clear {s' : StatusCache T} {slices : List KeySlice} {b : ℕ}
    (h : s'.cache.get? b = (s.cache.get? b).bind fun status =>
      if (clearStatus slot slices status).keyMap.entries = [] then none
      else some (clearStatus slot slices status)) (slice : KeySlice) :
    s'.stored b slice
      = if slice ∈ slices then (s.stored b slice).filter (·.1 ≠ slot) else s.stored b slice := by
  rw [stored, h, stored]
  rcases s.cache.get? b with _ | status
  · simp
  · have hforks := @forks_foldl_clearKey T slot slices status.keyMap slice
    rw [bind_some, map_some, getD_some, ← hforks]
    split_ifs with hnil
    · have hempty : (slices.foldl (clearKey slot) status.keyMap).entries = [] := hnil
      rw [forks, get?, hempty]
      rfl
    · rfl

theorem Listing.clearSlotEntries (h : s.Listing) (slot : ℕ) :
    ∃ s', s.clearSlotEntries slot = .ok s' ∧ Cleared slot s s' := by
  rw [StatusCache.clearSlotEntries]
  rcases hdeltas : s.slotDeltas.get? slot with _ | deltas
  · have hnil : ∀ b, s.listedIn slot b = [] := fun b => by
      rw [listedIn, hdeltas]
      rfl
    refine ⟨s, rfl, rfl, rfl, fun slot' => ?_, fun b slice => ?_, fun b => .inr ⟨rfl, rfl⟩⟩
    · split_ifs with heq
      · rw [heq, hdeltas]
      · rfl
    · rw [hnil, if_neg not_mem_nil]
  · have hlisted : ∀ b, s.listedIn slot b = listed deltas.entries b := fun b => by
      rw [listedIn, hdeltas]
      rfl
    obtain ⟨cache', hcache', hget⟩ := @foldlM_clearBlockhash T slot deltas.entries s.cache
      deltas.keys_nodup fun d hd => by
        have hd' : deltas.get? d.1 = some d.2 := mem_entries.1 hd
        obtain ⟨e, he⟩ := exists_mem_of_ne_nil _ (h.nonempty slot deltas d.1 d.2 hdeltas hd')
        obtain ⟨f, hf, -⟩ := h.inCache slot d.1 e.1 (by
          rw [listedIn, hdeltas, map_some, getD_some, listed_entries, hd']
          exact mem_map_of_mem he)
        obtain ⟨i, hi⟩ := keyIndexOf_of_mem hf
        obtain ⟨status, hstatus, -⟩ := map_eq_some_iff.1 hi
        exact ⟨status, hstatus⟩
    refine ⟨{ s with cache := cache', slotDeltas := s.slotDeltas.remove slot }, ?_, rfl, rfl,
      fun slot' => ?_, fun b slice => ?_, fun b => ?_⟩
    · simp only [hcache']
      rfl
    · rw [get?_remove]
      simp only [eq_comm]
    · by_cases hb : b ∈ deltas.keys
      · rw [hlisted]
        refine stored_clear ((hget b).trans ?_) slice
        simp only [show b ∈ deltas.entries.map Prod.fst from hb, if_true]
      · have hnil : s.listedIn slot b = [] := by
          rw [hlisted, listed_entries]
          rcases hd : deltas.get? b with _ | d
          · rfl
          · exact absurd (mem_keys.2 ⟨d, hd⟩) hb
        rw [hnil, if_neg not_mem_nil, stored, hget b, stored]
        simp only [show b ∉ deltas.entries.map Prod.fst from hb, if_false]
        cases s.cache.get? b <;> rfl
    · rw [keyIndexOf, maxSlotOf, hget b, keyIndexOf, maxSlotOf]
      rcases s.cache.get? b with _ | status
      · exact .inl rfl
      · rw [bind_some]
        split_ifs
        · exact .inl rfl
        · exact .inr ⟨rfl, rfl⟩
        · exact .inr ⟨rfl, rfl⟩

end Clear

end StatusCache

open StatusCache

/-- What holds after every sequence: few enough roots are kept, the greatest slot of a blockhash is
that, and live inserts are stored. -/
structure Kept (N : ℕ) (history : List (CacheOp T)) (s : StatusCache T) : Prop where
  limit : s.maxRootEntries = N
  roots : ∀ r ∈ s.roots, r ∈ rootsOf history
  slots : ∀ b slice, ∀ f ∈ s.stored b slice, f.1 ≤ s.maxSlotOf b
  listing : s.Listing
  kept : ∀ b key slot res, (b, key, slot, res) ∈ live history → rootsFrom slot history ≤ N →
    ∃ i, s.keyIndexOf b = some i ∧ (slot, res) ∈ s.stored b (keySlice key i)

namespace Kept

variable (h : Kept N history s)
include h

lemma dropRoot (hlt : s.maxRootEntries < s.roots.card) {root : ℕ}
    (hmin : ∀ r ∈ s.roots, root ≤ r) : Kept N history (s.dropRoot root) where
  limit := h.limit
  roots r hr := h.roots r (Finset.mem_of_mem_erase hr)
  slots b slice f hf := by
    obtain ⟨hroot, hf⟩ := mem_stored_dropRoot.1 hf
    rw [maxSlotOf_dropRoot, if_pos hroot]
    exact h.slots b slice f hf
  listing := by
    refine ⟨fun slot deltas b d hdeltas hd => ?_, fun slot b slice hslice => ?_⟩
    · rw [slotDeltas_dropRoot] at hdeltas
      split_ifs at hdeltas
      exact h.listing.nonempty slot deltas b d hdeltas hd
    · obtain ⟨hroot, hslice⟩ := mem_listedIn_dropRoot.1 hslice
      obtain ⟨f, hf, rfl⟩ := h.listing.inCache slot b slice hslice
      have hlt := hroot.trans_le (h.slots b slice f hf)
      exact ⟨f, mem_stored_dropRoot.2 ⟨hlt, hf⟩, rfl⟩
  kept b key slot res hlive hroots := by
    obtain ⟨i, hi, hmem⟩ := h.kept b key slot res hlive hroots
    have hroot : root < s.maxSlotOf b := by
      by_contra hle
      have hslot : slot ≤ root := (h.slots b _ _ hmem).trans (not_lt.1 hle)
      have hcard : s.roots.card ≤ rootsFrom slot history := Finset.card_le_card fun r hr =>
        Finset.mem_filter.2 ⟨mem_toFinset.2 (h.roots r hr), hslot.trans (hmin r hr)⟩
      have := h.limit
      omega
    refine ⟨i, ?_, mem_stored_dropRoot.2 ⟨hroot, hmem⟩⟩
    rwa [keyIndexOf_dropRoot, if_pos hroot]

lemma purgeRoots : Kept N history s.purgeRoots := by
  fun_induction StatusCache.purgeRoots s with
  | case1 s hlt ih => exact ih (h.dropRoot hlt fun r hr => Finset.min'_le _ r hr)
  | case2 s hle => exact h

lemma insertRoot (slot : ℕ) :
    Kept N (history ++ [.addRoot slot]) { s with roots := Insert.insert slot s.roots } := by
  refine ⟨h.limit, fun r hr => ?_, h.slots, ⟨h.listing.nonempty, h.listing.inCache⟩,
    fun b key slot' res hlive hroots => ?_⟩
  · rcases Finset.mem_insert.1 hr with rfl | hr
    · rw [rootsOf, rootsAdded_concat]
      exact mem_cons_of_mem _ mem_concat_self
    · exact mem_rootsOf_concat _ (h.roots r hr)
  · rw [live_concat] at hlive
    exact h.kept b key slot' res hlive ((rootsFrom_mono _ _ _).trans hroots)

lemma addRoot (slot : ℕ) : Kept N (history ++ [.addRoot slot]) (s.addRoot slot) :=
  (h.insertRoot slot).purgeRoots

lemma insert (b : ℕ) (key : List ℕ) (slot : ℕ) (res : T) (random : ℕ) :
    Kept N (history ++ [.insert b key slot res random])
      (s.insert b key slot res random) where
  limit := h.limit
  roots r hr := mem_rootsOf_concat _ (h.roots r hr)
  slots b' slice f hf := by
    rw [maxSlotOf_insert]
    rcases mem_stored_insert.1 hf with hf | ⟨rfl, -, rfl⟩
    · have hle := h.slots b' slice f hf
      split_ifs with hb
      · subst hb
        exact hle.trans (le_max_right _ _)
      · exact hle
    · rw [if_pos rfl]
      exact le_max_left _ _
  listing := by
    refine ⟨fun slot' deltas b' d hdeltas hd => ?_, fun slot' b' slice hslice => ?_⟩
    · by_cases hslot : slot' = slot
      · subst hslot
        obtain ⟨index, entries, hget, -⟩ := slotDeltas_insert_self s b key slot' res random
        rw [hget, some.injEq] at hdeltas
        subst hdeltas
        rw [get?_insert] at hd
        split_ifs at hd
        · cases hd
          simp
        · rcases hold : s.slotDeltas.get? slot' with _ | deltas
          · rw [hold] at hd
            cases hd
          · rw [hold] at hd
            exact h.listing.nonempty slot' deltas b' d hold hd
      · rw [slotDeltas_insert_ne _ _ _ _ _ _ hslot] at hdeltas
        exact h.listing.nonempty slot' deltas b' d hdeltas hd
    · rcases mem_listedIn_insert.1 hslice with hslice | ⟨rfl, rfl, rfl⟩
      · obtain ⟨f, hf, hslot⟩ := h.listing.inCache slot' b' slice hslice
        exact ⟨f, mem_stored_insert.2 (.inl hf), hslot⟩
      · exact ⟨(slot', res), mem_stored_insert.2 (.inr ⟨rfl, rfl, rfl⟩), rfl⟩
  kept b' key' slot' res' hlive hroots := by
    rw [live_concat, mem_append, mem_singleton] at hlive
    rcases hlive with hlive | heq
    · obtain ⟨i, hi, hmem⟩ := h.kept b' key' slot' res' hlive
        ((rootsFrom_mono _ _ _).trans hroots)
      refine ⟨i, ?_, mem_stored_insert.2 (.inl hmem)⟩
      rw [keyIndexOf_insert]
      split_ifs with hb
      · subst hb
        rw [insertIndex, hi, getD_some]
      · exact hi
    · cases heq
      refine ⟨s.insertIndex b key random, ?_, mem_stored_insert.2 (.inr ⟨rfl, rfl, rfl⟩)⟩
      rw [keyIndexOf_insert, if_pos rfl]

lemma clear {slot : ℕ} {s' : StatusCache T} (hs : Cleared slot s s') :
    Kept N (history ++ [.clear slot]) s' := by
  refine ⟨hs.limit.trans h.limit, fun r hr => ?_, fun b slice f hf => ?_,
    ⟨fun slot' deltas b d hdeltas hd => ?_, fun slot' b slice hslice => ?_⟩,
    fun b key slot' res hlive hroots => ?_⟩
  · exact mem_rootsOf_concat _ (h.roots r (hs.roots ▸ hr))
  · rw [(hs.of_mem hf).2.2]
    exact h.slots b slice f (hs.of_mem hf).1
  · rw [hs.deltas] at hdeltas
    split_ifs at hdeltas
    exact h.listing.nonempty slot' deltas b d hdeltas hd
  · rw [hs.listedIn] at hslice
    split_ifs at hslice with hslot
    · exact absurd hslice not_mem_nil
    · obtain ⟨f, hf, rfl⟩ := h.listing.inCache slot' b slice hslice
      exact ⟨f, hs.mem_of_ne hslot hf, rfl⟩
  · rw [live_concat, mem_filter] at hlive
    obtain ⟨hlive, hne⟩ := hlive
    obtain ⟨i, hi, hf⟩ := h.kept b key slot' res hlive ((rootsFrom_mono _ _ _).trans hroots)
    have hf' := hs.mem_of_ne (of_decide_eq_true hne) hf
    exact ⟨i, (hs.of_mem hf').2.1.trans hi, hf'⟩

end Kept

/-- What is stored was inserted and not cleared since, and is listed unless a root from its slot on
has fallen out. -/
structure Sound (history : List (CacheOp T)) (s : StatusCache T) : Prop where
  listed : ∀ b slice, ∀ f ∈ s.stored b slice,
    (∃ r ∈ rootsOf history, r ∉ s.roots ∧ f.1 ≤ r) ∨ slice ∈ s.listedIn f.1 b
  sound : ∀ b slice i, ∀ f ∈ s.stored b slice, s.keyIndexOf b = some i →
    ∃ key, (b, key, f) ∈ live history ∧ keySlice key i = slice

namespace Sound

variable (h : Sound history s)
include h

lemma dropRoot {root : ℕ} (hroot : root ∈ rootsOf history) : Sound history (s.dropRoot root) where
  listed b slice f hf := by
    rw [mem_listedIn_dropRoot]
    by_cases hlt : root < f.1
    · refine (h.listed b slice f (mem_stored_dropRoot.1 hf).2).imp ?_ fun hin => ⟨hlt, hin⟩
      rintro ⟨r, hr, hnot, hle⟩
      exact ⟨r, hr, fun hmem => hnot (Finset.mem_of_mem_erase hmem), hle⟩
    · exact .inl ⟨root, hroot, Finset.notMem_erase root s.roots, not_lt.1 hlt⟩
  sound b slice i f hf hi := by
    obtain ⟨hroot, hf⟩ := mem_stored_dropRoot.1 hf
    rw [keyIndexOf_dropRoot, if_pos hroot] at hi
    exact h.sound b slice i f hf hi

lemma purgeRoots (hkept : Kept N history s) : Sound history s.purgeRoots := by
  fun_induction StatusCache.purgeRoots s with
  | case1 s hlt ih =>
    exact ih (h.dropRoot (hkept.roots _ (Finset.min'_mem _ _)))
      (hkept.dropRoot hlt fun r hr => Finset.min'_le _ r hr)
  | case2 s hle => exact h

lemma addRoot (hkept : Kept N history s) {slot : ℕ}
    (hnew : slot ∈ rootsOf history → slot ∈ s.roots) :
    Sound (history ++ [.addRoot slot]) (s.addRoot slot) := by
  refine Sound.purgeRoots ⟨fun b slice f hf => ?_, fun b slice i f hf hi => ?_⟩
    (hkept.insertRoot slot)
  · refine (h.listed b slice f hf).imp_left ?_
    rintro ⟨r, hr, hnot, hle⟩
    refine ⟨r, mem_rootsOf_concat _ hr, fun hmem => ?_, hle⟩
    rcases Finset.mem_insert.1 hmem with rfl | hmem
    · exact hnot (hnew hr)
    · exact hnot hmem
  · rw [live_concat]
    exact h.sound b slice i f hf hi

lemma insert (b : ℕ) (key : List ℕ) (slot : ℕ) (res : T) (random : ℕ) :
    Sound (history ++ [.insert b key slot res random])
      (s.insert b key slot res random) where
  listed b' slice f hf := by
    rw [mem_listedIn_insert]
    rcases mem_stored_insert.1 hf with hf | ⟨rfl, rfl, rfl⟩
    · rcases h.listed b' slice f hf with ⟨r, hr, hnot, hle⟩ | hlisted
      · exact .inl ⟨r, mem_rootsOf_concat _ hr, hnot, hle⟩
      · exact .inr (.inl hlisted)
    · exact .inr (.inr ⟨rfl, rfl, rfl⟩)
  sound b' slice i f hf hi := by
    rw [live_concat]
    rw [keyIndexOf_insert] at hi
    rcases mem_stored_insert.1 hf with hf | ⟨rfl, rfl, rfl⟩
    · obtain ⟨j, hj⟩ := keyIndexOf_of_mem hf
      have hji : j = i := by
        split_ifs at hi with hb
        · subst hb
          rw [insertIndex, hj] at hi
          exact some.inj hi
        · exact some.inj (hj.symm.trans hi)
      obtain ⟨key', hlive, hslice⟩ := h.sound b' slice j f hf hj
      exact ⟨key', mem_append_left _ hlive, hji ▸ hslice⟩
    · rw [if_pos rfl, some.injEq] at hi
      exact ⟨key, mem_concat_self, by rw [hi]⟩

lemma clear {slot : ℕ} {s' : StatusCache T} (hs : Cleared slot s s')
    (habove : ∀ r ∈ rootsOf history, r ∉ s.roots → r < slot) :
    Sound (history ++ [.clear slot]) s' := by
  have hne : ∀ b slice, ∀ f ∈ s'.stored b slice, f.1 ≠ slot := fun b slice f hf heq => by
    rcases h.listed b slice f (hs.of_mem hf).1 with ⟨r, hr, hnot, hle⟩ | hlisted
    · have := habove r hr hnot
      omega
    · rw [hs.stored, if_pos (heq ▸ hlisted), mem_filter] at hf
      exact of_decide_eq_true hf.2 heq
  refine ⟨fun b slice f hf => ?_, fun b slice i f hf hi => ?_⟩
  · rw [hs.listedIn, if_neg (hne b slice f hf), hs.roots]
    refine (h.listed b slice f (hs.of_mem hf).1).imp_left ?_
    rintro ⟨r, hr, hnot⟩
    exact ⟨r, mem_rootsOf_concat _ hr, hnot⟩
  · rw [(hs.of_mem hf).2.1] at hi
    obtain ⟨key, hlive, hslice⟩ := h.sound b slice i f (hs.of_mem hf).1 hi
    refine ⟨key, ?_, hslice⟩
    rw [live_concat]
    exact mem_filter.2 ⟨hlive, decide_eq_true (hne b slice f hf)⟩

end Sound

namespace CacheSession

/-- Keys have the 21 bytes that a slice is taken of, roots are added in increasing order, and slots
that are roots are not cleared. -/
def Allowed (s : CacheSession T) : CacheOp T → Prop
  | .insert _ key _ _ _ => cachedKeySize + 1 ≤ key.length
  | .addRoot slot => ∀ r ∈ rootsAdded s.history, r < slot
  | .clear slot => slot ∉ s.cache.roots

/-- A slot is cleared only above the roots that have fallen out. -/
def ClearsAbove (s : CacheSession T) : CacheOp T → Prop
  | .clear slot => ∀ r ∈ rootsOf s.history, r ∉ s.cache.roots → r < slot
  | _ => True

instance (s : CacheSession T) : DecidablePred s.Allowed
  | .insert _ key _ _ _ => inferInstanceAs (Decidable (cachedKeySize + 1 ≤ key.length))
  | .addRoot slot => inferInstanceAs (Decidable (∀ r ∈ rootsAdded s.history, r < slot))
  | .clear slot => inferInstanceAs (Decidable (slot ∉ s.cache.roots))

instance (s : CacheSession T) : DecidablePred s.ClearsAbove
  | .insert _ _ _ _ _ => .isTrue trivial
  | .addRoot _ => .isTrue trivial
  | .clear slot =>
    inferInstanceAs (Decidable (∀ r ∈ rootsOf s.history, r ∉ s.cache.roots → r < slot))

lemma step_kept {s : CacheSession T} {op : CacheOp T} (h : Kept N s.history s.cache) :
    ∃ s' o, s.step op = .ok (s', o) ∧ s'.history = s.history ++ [op]
      ∧ Kept N s'.history s'.cache := by
  cases op with
  | insert b key slot res random => exact ⟨_, _, rfl, rfl, h.insert b key slot res random⟩
  | addRoot slot => exact ⟨_, _, rfl, rfl, h.addRoot slot⟩
  | clear slot =>
    obtain ⟨cache, hcache, hcleared⟩ := h.listing.clearSlotEntries slot
    refine ⟨⟨cache, s.history ++ [.clear slot]⟩, [], ?_, rfl, h.clear hcleared⟩
    simp only [step, apply, hcache]
    rfl

def First (s : CacheSession T) : Prop := rootsAdded s.history = [] → 0 ∈ s.cache.roots

lemma step_sound {s s' : CacheSession T} {op : CacheOp T} {o : List Empty}
    (h : Kept N s.history s.cache) (hsound : Sound s.history s.cache) (hfirst : s.First)
    (hop : s.Allowed op ∧ s.ClearsAbove op) (hs : s.step op = .ok (s', o)) :
    Sound s'.history s'.cache ∧ s'.First := by
  cases op with
  | insert b key slot res random =>
    cases hs
    refine ⟨hsound.insert b key slot res random, fun hnil => hfirst ?_⟩
    rwa [rootsAdded_concat, append_nil] at hnil
  | addRoot slot =>
    cases hs
    refine ⟨hsound.addRoot h fun hmem => ?_, fun hnil => ?_⟩
    · rcases mem_cons.1 hmem with rfl | hmem
      · exact hfirst (eq_nil_iff_forall_not_mem.2 fun r hr => Nat.not_lt_zero r (hop.1 r hr))
      · exact absurd (hop.1 slot hmem) (lt_irrefl slot)
    · rw [rootsAdded_concat] at hnil
      exact absurd hnil (append_ne_nil_of_right_ne_nil _ (cons_ne_nil _ _))
  | clear slot =>
    obtain ⟨cache, hcache, hcleared⟩ := h.listing.clearSlotEntries slot
    simp only [step, apply, hcache] at hs
    cases hs
    refine ⟨hsound.clear hcleared hop.2, fun hnil => ?_⟩
    rw [rootsAdded_concat, append_nil] at hnil
    exact hcleared.roots ▸ hfirst hnil

lemma kept_init : Kept N [] (StatusCache.init (T := T) N) where
  limit := rfl
  roots r hr := by
    rw [Finset.mem_singleton.1 hr]
    exact mem_cons_self
  slots := nofun
  listing := ⟨nofun, nofun⟩
  kept := nofun

/-- No transaction is forgotten too early: after every sequence, which does not panic, a key whose
slot is not cleared is found on every fork of the slot as long as not more than `N` roots, the
initial one included, are from the slot on. What is found was inserted and not cleared, if slots are
cleared only above the roots that have fallen out. -/
theorem statusCache_finds (N : ℕ) (ops : List (CacheOp T))
    (hops : Guarded step Allowed (init N) ops) :
    ∃ s o, run step (init N) ops = .ok (s, o)
      ∧ (∀ b key slot res ancestors, (b, key, slot, res) ∈ live ops → rootsFrom slot ops ≤ N →
        slot ∈ s.cache.roots ∨ ancestors slot = true →
        (s.cache.getStatus key b ancestors).isSome)
      ∧ (Guarded step ClearsAbove (init N) ops →
        ∀ b key slot res ancestors, cachedKeySize + 1 ≤ key.length →
          s.cache.getStatus key b ancestors = some (slot, res) →
          (slot ∈ s.cache.roots ∨ ancestors slot = true)
            ∧ ∃ key' i, (b, key', slot, res) ∈ live ops
              ∧ s.cache.keyIndexOf b = some i ∧ keySlice key' i = keySlice key i) := by
  obtain ⟨s, o, hrun, hhistory, hkept⟩ := run_ok
    (P := fun ops _ s => s.history = ops ∧ Kept N s.history s.cache)
    ⟨rfl, kept_init⟩ (fun ops o s op h _ => by
      obtain ⟨s', o', hs, hhistory, hkept⟩ := @step_kept T N s op h.2
      exact ⟨s', o', hs, hhistory.trans (congrArg (· ++ [op]) h.1), hkept⟩) hops
  rw [hhistory] at hkept
  refine ⟨s, o, hrun, fun b key slot res ancestors hlive hroots hfork => ?_,
    fun habove b key slot res ancestors _ hfound => ?_⟩
  · obtain ⟨i, hi, hmem⟩ := hkept.kept b key slot res hlive hroots
    rw [getStatus_eq, hi, bind_some, find?_isSome]
    refine ⟨(slot, res), hmem, ?_⟩
    rcases hfork with hroot | hanc
    · simp [hroot]
    · simp [hanc]
  · have hsound := run_induction
      (P := fun _ _ s => Kept N s.history s.cache ∧ Sound s.history s.cache ∧ s.First)
      ⟨kept_init, ⟨fun _ _ _ hf => absurd hf not_mem_nil,
        fun _ _ _ _ hf => absurd hf not_mem_nil⟩, fun _ => Finset.mem_singleton_self 0⟩
      (fun ops o s op s' o' h hop hs => by
        obtain ⟨s1, o1, hs1, -, hkept⟩ := @step_kept T N s op h.1
        cases hs1.symm.trans hs
        exact ⟨hkept, step_sound h.1 h.2.1 h.2.2 hop hs⟩) (hops.and habove) hrun
    rw [getStatus_eq, bind_eq_some_iff] at hfound
    obtain ⟨i, hi, hfound⟩ := hfound
    obtain ⟨key', hlive, hslice⟩ := hsound.2.1.sound b _ i _ (mem_of_find?_eq_some hfound) hi
    refine ⟨?_, key', i, hhistory ▸ hlive, hi, hslice⟩
    have := find?_some hfound
    simp only [Bool.or_eq_true, decide_eq_true_eq] at this
    exact this.symm

def sampleKey (byte : ℕ) : List ℕ := List.replicate 21 byte

/-- A key on a fork whose slot gets a root. -/
theorem statusCache_finds_rooted : ∃ s o,
    run step (init 2) [.insert 7 (sampleKey 1) 3 0 0, .addRoot 2, .clear 4, .addRoot 3]
      = .ok (s, o)
      ∧ (s.cache.getStatus (sampleKey 1) 7 (· == 3)).isSome
      ∧ ∀ slot res, s.cache.getStatus (sampleKey 2) 7 (· == 3) = some (slot, res) →
        ∃ key', (7, key', slot, res) ∈ live (T := ℕ)
          [.insert 7 (sampleKey 1) 3 0 0, .addRoot 2, .clear 4, .addRoot 3] := by
  obtain ⟨s, o, hrun, hkept, hsound⟩ := statusCache_finds (T := ℕ) 2
    [.insert 7 (sampleKey 1) 3 0 0, .addRoot 2, .clear 4, .addRoot 3] (by decide +kernel)
  refine ⟨s, o, hrun, hkept 7 (sampleKey 1) 3 0 _ (by decide) (by decide) (.inr rfl),
    fun slot res hfound => ?_⟩
  obtain ⟨-, key', -, hlive, -⟩ := hsound (by decide +kernel) 7 (sampleKey 2) slot res _
    (by decide) hfound
  exact ⟨key', hlive⟩

/-- A key of slot 5 that stays after the slot's list is dropped with root 7 and the slot is then
cleared, and a key of slot 0 that is dropped with the initial root. -/
theorem cleared_slot_found :
    (Guarded step Allowed (init 1) [.insert 7 (sampleKey 1) 5 0 0, .insert 7 (sampleKey 2) 10 0 0,
        .addRoot 7, .addRoot 8, .clear 5]
      ∧ (∀ i ∈ live (T := ℕ) [.insert 7 (sampleKey 1) 5 0 0, .insert 7 (sampleKey 2) 10 0 0,
        .addRoot 7, .addRoot 8, .clear 5], i.2.2.1 ≠ 5)
      ∧ ∃ r, run step (init 1) [.insert 7 (sampleKey 1) 5 0 0, .insert 7 (sampleKey 2) 10 0 0,
          .addRoot 7, .addRoot 8, .clear 5] = .ok r
        ∧ r.1.cache.getStatus (sampleKey 1) 7 (· == 5) = some (5, 0))
    ∧ Guarded step Allowed (init 1) [.insert 7 (sampleKey 1) 0 0 0, .addRoot 1]
      ∧ (7, sampleKey 1, 0, 0) ∈ live [.insert 7 (sampleKey 1) 0 0 0, .addRoot 1]
      ∧ (rootsAdded (T := ℕ) [.insert 7 (sampleKey 1) 0 0 0, .addRoot 1]).length ≤ 1
      ∧ ∃ r, run step (init 1) [.insert 7 (sampleKey 1) 0 0 0, .addRoot 1] = .ok r
        ∧ r.1.cache.getStatus (sampleKey 1) 7 (· == 0) = none := by
  refine ⟨⟨?_, ?_, Except.exists_of_any ?_⟩, ?_, ?_, ?_, Except.exists_of_any ?_⟩
  all_goals decide +kernel

end CacheSession

end BlackBull
