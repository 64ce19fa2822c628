import BlackBull.Accounts.RollingBitField

/-!
# Rolling bit fields are sets

The items of a field are its excess set, below `min`, and its window, the keys of the range whose
bit is set; no two keys of a range share an address.
-/

namespace BlackBull

open List

namespace RollingBitField

variable {s t : RollingBitField} {A : Finset ℕ} {key width k : ℕ}

/-- The keys of the range whose bit is set. -/
def window (s : RollingBitField) : Finset ℕ :=
  (Finset.Ico s.min s.maxExclusive).filter (s.containsAssumeInRange ·)

lemma mem_window : k ∈ s.window
    ↔ (s.min ≤ k ∧ k < s.maxExclusive) ∧ s.bits (s.getAddress k) = true := by
  rw [window, Finset.mem_filter, Finset.mem_Ico]
  rfl

lemma getAddress_inj {k' : ℕ} (hk : s.min ≤ k ∧ k < s.min + s.maxWidth)
    (hk' : s.min ≤ k' ∧ k' < s.min + s.maxWidth) (h : s.getAddress k = s.getAddress k') :
    k = k' := by
  wlog hle : k ≤ k' generalizing k k'
  · exact (this hk' hk h.symm (by omega)).symm
  have hdvd : s.maxWidth ∣ k' - k := (Nat.modEq_iff_dvd' hle).1 h
  have := Nat.eq_zero_of_dvd_of_lt hdvd (by omega)
  omega

/-- The field holds `A`, but the bit of `min` need not be set and `min` may be in the excess set. -/
structure Holds (s : RollingBitField) (A : Finset ℕ) : Prop where
  pos : 0 < s.maxWidth
  ordered : s.min ≤ s.maxExclusive
  width : s.maxExclusive ≤ s.min + s.maxWidth
  bits : ∀ a, s.bits a = true → ∃ k ∈ s.window, s.getAddress k = a
  nodup : s.excess.Nodup
  excess_below : ∀ e ∈ s.excess, e < s.maxExclusive ∧ ∀ k ∈ s.window, e < k
  items : ∀ k, k ∈ A ↔ k ∈ s.excess ∨ k ∈ s.window
  count : s.count = A.card

structure Represents (s : RollingBitField) (A : Finset ℕ) : Prop extends Holds s A where
  excess_lt : ∀ e ∈ s.excess, e < s.min
  min_mem : s.min < s.maxExclusive → s.min ∈ s.window

section Window

lemma Holds.card (h : Holds s A) : A.card = s.excess.length + s.window.card := by
  have hA : A = s.excess.toFinset ∪ s.window := by
    ext k
    rw [h.items, Finset.mem_union, mem_toFinset]
  have hdisj : Disjoint s.excess.toFinset s.window := by
    rw [Finset.disjoint_left]
    intro k hk hw
    exact ((h.excess_below k (mem_toFinset.1 hk)).2 k hw).false
  rw [hA, Finset.card_union_of_disjoint hdisj, toFinset_card_of_nodup h.nodup]

lemma Holds.allItemsInExcess_iff (h : Holds s A) : s.allItemsInExcess = true ↔ s.window = ∅ := by
  rw [allItemsInExcess, decide_eq_true_iff, h.count, h.card, ← Finset.card_eq_zero]
  omega

lemma Holds.mem_window_iff (h : Holds s A) : k ∈ s.window ↔ k ∈ A ∧ k ∉ s.excess := by
  rw [h.items]
  refine ⟨fun hk => ⟨.inr hk, fun he => ((h.excess_below k he).2 k hk).false⟩, fun hk => ?_⟩
  exact hk.1.resolve_left hk.2

lemma Holds.bitsEmpty_iff (h : Holds s A) :
    (s.count = 0 ∨ s.allItemsInExcess = true) ↔ s.window = ∅ := by
  rw [h.allItemsInExcess_iff, h.count, h.card, ← Finset.card_eq_zero]
  omega

lemma Represents.window_eq_empty (h : Represents s A) : s.window = ∅ ↔ s.min = s.maxExclusive := by
  constructor
  · intro hempty
    by_contra hne
    have hmem := h.min_mem (lt_of_le_of_ne h.ordered hne)
    rw [hempty] at hmem
    exact Finset.notMem_empty _ hmem
  · intro heq
    rw [window, heq, Finset.Ico_self, Finset.filter_empty]

end Window

section Update

variable {b : Bool} (key) (hsub : ∀ k ∈ s.window, t.min ≤ k ∧ k < t.maxExclusive)
  (hkey : t.min ≤ key ∧ key < t.maxExclusive) (hwidth : t.maxExclusive ≤ t.min + t.maxWidth)
  (hmaxWidth : t.maxWidth = s.maxWidth)
  (hbits : t.bits = Function.update s.bits (s.getAddress key) b)
include hsub hkey hwidth hmaxWidth hbits

lemma Holds.update (h : Holds s A) :
    (∀ k, k ∈ t.window ↔ k = key ∧ b = true ∨ k ≠ key ∧ k ∈ s.window)
      ∧ ∀ a, t.bits a = true → ∃ k ∈ t.window, t.getAddress k = a := by
  have haddr : ∀ k, t.getAddress k = s.getAddress k := fun k => by
    rw [getAddress, getAddress, hmaxWidth]
  have hinj : ∀ k k', t.min ≤ k ∧ k < t.maxExclusive → t.min ≤ k' ∧ k' < t.maxExclusive →
      s.getAddress k = s.getAddress k' → k = k' := fun k k' hk hk' heq =>
    getAddress_inj (s := t) ⟨hk.1, by omega⟩ ⟨hk'.1, by omega⟩ (by rw [haddr, haddr, heq])
  have hwindow : ∀ k, k ∈ t.window ↔ k = key ∧ b = true ∨ k ≠ key ∧ k ∈ s.window := by
    intro k
    rw [mem_window, haddr, hbits]
    by_cases heq : k = key
    · simp [heq, hkey]
    · simp only [heq, false_and, ne_eq, not_false_eq_true, true_and, false_or]
      refine ⟨fun hk => ?_, fun hk => ⟨hsub k hk, ?_⟩⟩
      · obtain ⟨hrange, hbit⟩ := hk
        rw [Function.update_of_ne fun ha => heq (hinj k key hrange hkey ha)] at hbit
        obtain ⟨k', hk', ha⟩ := h.bits _ hbit
        rwa [← hinj k' k (hsub k' hk') hrange ha]
      · rw [Function.update_of_ne fun ha => heq (hinj k key (hsub k hk) hkey ha)]
        exact (mem_window.1 hk).2
  refine ⟨hwindow, fun a ha => ?_⟩
  rw [hbits] at ha
  by_cases heq : a = s.getAddress key
  · rw [heq, Function.update_self] at ha
    exact ⟨key, (hwindow key).2 (.inl ⟨rfl, ha⟩), by rw [haddr, heq]⟩
  · rw [Function.update_of_ne heq] at ha
    obtain ⟨k, hk, rfl⟩ := h.bits a ha
    exact ⟨k, (hwindow k).2 (.inr ⟨fun hk => heq (by rw [hk]), hk⟩), haddr k⟩

omit hbits in
lemma Represents.set (h : Represents s A)
    (hbits : t.bits = Function.update s.bits (s.getAddress key) true) (hexcess : t.excess = s.excess)
    (hcount : t.count = s.count + 1) (hlt : ∀ e ∈ s.excess, e < t.min) (hnew : key ∉ s.window)
    (hmin : t.min = key ∨ t.min ∈ s.window) : Represents t (Insert.insert key A) := by
  obtain ⟨hwindow, hbits⟩ := h.toHolds.update key hsub hkey hwidth hmaxWidth hbits
  have hwindow : ∀ k, k ∈ t.window ↔ k = key ∨ k ∈ s.window := fun k => by
    rw [hwindow]
    tauto
  have hnot : key ∉ A := fun hmem => by
    rcases (h.items key).1 hmem with he | hk
    · exact absurd (hlt key he) (Nat.not_lt.2 hkey.1)
    · exact hnew hk
  rw [← hexcess] at hlt
  refine ⟨⟨hmaxWidth ▸ h.pos, (hkey.1.trans_lt hkey.2).le, hwidth, hbits, hexcess ▸ h.nodup,
    fun e he => ⟨?_, fun k hk => ?_⟩, fun k => ?_, ?_⟩, hlt, fun _ => (hwindow _).2 hmin⟩
  · exact (hlt e he).trans (hkey.1.trans_lt hkey.2)
  · exact (hlt e he).trans_le (mem_window.1 hk).1.1
  · rw [Finset.mem_insert, h.items, hwindow, hexcess]
    tauto
  · rw [Finset.card_insert_of_notMem hnot, hcount, ← h.count]

end Update

section Purge

lemma window_withMin {next : ℕ} (hle : s.min ≤ next) (hnext : ∀ k ∈ s.window, next ≤ k) :
    ({ s with min := next } : RollingBitField).window = s.window := by
  ext k
  refine ⟨fun hk => ?_, fun hk => ?_⟩
  · obtain ⟨hk, hbit⟩ := mem_window.1 hk
    exact mem_window.2 ⟨⟨hle.trans hk.1, hk.2⟩, hbit⟩
  · obtain ⟨hrange, hbit⟩ := mem_window.1 hk
    exact mem_window.2 ⟨⟨hnext k hk, hrange.2⟩, hbit⟩

lemma Holds.withMin {next : ℕ} (h : Holds s A) (hle : s.min ≤ next) (hmax : next ≤ s.maxExclusive)
    (hnext : ∀ k ∈ s.window, next ≤ k) : Holds { s with min := next } A := by
  have hw := window_withMin hle hnext
  have hwidth := h.width
  exact ⟨h.pos, hmax, by show s.maxExclusive ≤ next + s.maxWidth; omega, by rw [hw]; exact h.bits,
    h.nodup, by rw [hw]; exact h.excess_below, by rw [hw]; exact h.items, h.count⟩

lemma find?_range_tail (hmin : s.min ∉ s.window) (hne : s.window.Nonempty) :
    ∃ next ∈ s.window, s.range.tail.find? s.containsAssumeInRange = some next
      ∧ ∀ k ∈ s.window, next ≤ k := by
  have htail : ∀ k ∈ s.window, k ∈ s.range.tail := by
    intro k hk
    have hrange := (mem_window.1 hk).1
    have hkmin : k ≠ s.min := fun heq => hmin (heq ▸ hk)
    exact mem_range_tail.2 ⟨by omega, hrange.2⟩
  obtain ⟨k, hk⟩ := hne
  have hsome : (s.range.tail.find? s.containsAssumeInRange).isSome = true :=
    find?_isSome.2 ⟨k, htail k hk, (mem_window.1 hk).2⟩
  obtain ⟨next, hnext⟩ := Option.isSome_iff_exists.1 hsome
  obtain ⟨hbit, before, after, hsplit, hbefore⟩ := find?_eq_some_iff_append.1 hnext
  have hrange := mem_range_tail.1 (mem_of_find?_eq_some hnext)
  refine ⟨next, mem_window.2 ⟨⟨hrange.1.le, hrange.2⟩, hbit⟩, hnext, fun k hk => ?_⟩
  have hsorted : (before ++ next :: after).Pairwise (· < ·) := by
    rw [← hsplit, range, tail_range']
    exact pairwise_lt_range'
  have hmem := htail k hk
  rw [hsplit, mem_append] at hmem
  rcases hmem with hmem | hmem
  · have hclear := hbefore k hmem
    rw [containsAssumeInRange, (mem_window.1 hk).2] at hclear
    cases hclear
  · rcases mem_cons.1 hmem with rfl | hmem
    · exact le_rfl
    · exact ((pairwise_cons.1 (pairwise_append.1 hsorted).2.1).1 k hmem).le

lemma Holds.purge (h : Holds s A) (hother : key ≠ s.min → s.window.Nonempty → s.min ∈ s.window)
    (hmin : key = s.min → s.min ∉ s.window) : Represents (s.purge key) A := by
  have hcond : (0 < s.count ∧ ¬ s.allItemsInExcess = true) ↔ s.window.Nonempty := by
    rw [Finset.nonempty_iff_ne_empty, Ne, ← h.bitsEmpty_iff, not_or, Nat.pos_iff_ne_zero]
  rw [RollingBitField.purge]
  by_cases hne : s.window.Nonempty
  · rw [if_pos (hcond.2 hne)]
    by_cases hkey : key = s.min
    · obtain ⟨next, hmem, hfind, hleast⟩ := find?_range_tail (hmin hkey) hne
      rw [if_pos hkey, hfind]
      have hrange := (mem_window.1 hmem).1
      have hw := window_withMin hrange.1 hleast
      exact ⟨h.withMin hrange.1 hrange.2.le hleast, fun e he => (h.excess_below e he).2 next hmem,
        fun _ => hw ▸ hmem⟩
    · have hmem := hother hkey hne
      rw [if_neg hkey]
      exact ⟨h, fun e he => (h.excess_below e he).2 s.min hmem, fun _ => hmem⟩
  · rw [if_neg fun hc => hne (hcond.1 hc)]
    rw [Finset.not_nonempty_iff_eq_empty] at hne
    refine ⟨h.withMin h.ordered le_rfl fun k hk => ?_, fun e he => (h.excess_below e he).1,
      fun hlt => absurd hlt (lt_irrefl _)⟩
    rw [hne] at hk
    exact absurd hk (Finset.notMem_empty k)

end Purge

section Insert

lemma Represents.moveMin (h : Represents s A) (hlt : s.min < s.maxExclusive) :
    Represents (s.moveMin.purge s.min) A := by
  have hmem := h.min_mem hlt
  have hnot : s.min ∉ s.excess := fun he => (h.excess_lt _ he).false
  obtain ⟨hwindow, hbits⟩ := h.update (s := s) s.min (t := s.moveMin)
    (fun k hk => (mem_window.1 hk).1) ⟨le_rfl, hlt⟩ h.width rfl rfl
  simp only [Bool.false_eq_true, and_false, false_or] at hwindow
  have hexcess : ∀ e, e ∈ s.moveMin.excess ↔ e ∈ s.excess ∨ e = s.min := fun e => by
    rw [RollingBitField.moveMin, mem_append, mem_singleton]
  refine Holds.purge ⟨h.pos, h.ordered, h.width, hbits, ?_, fun e he => ?_, fun k => ?_, h.count⟩
    (fun hne => absurd rfl hne) fun _ hw => ((hwindow _).1 hw).1 rfl
  · exact h.nodup.append (nodup_singleton _) (by simpa using hnot)
  · rcases (hexcess e).1 he with he | rfl
    · exact ⟨(h.excess_below e he).1, fun k hk => (h.excess_below e he).2 k ((hwindow k).1 hk).2⟩
    · refine ⟨hlt, fun k hk => ?_⟩
      obtain ⟨hne, hk⟩ := (hwindow k).1 hk
      exact lt_of_le_of_ne (mem_window.1 hk).1.1 hne.symm
  · rw [h.items, hexcess, hwindow]
    by_cases heq : k = s.min
    · simp [heq, hmem]
    · simp [heq]

lemma purge_frame (s : RollingBitField) (key : ℕ) : (s.purge key).maxExclusive = s.maxExclusive
    ∧ (s.purge key).maxWidth = s.maxWidth ∧ (s.purge key).excess = s.excess := by
  rcases purge_cases s key with heq | ⟨next, -, heq⟩ <;> rw [heq] <;> exact ⟨rfl, rfl, rfl⟩

/-- The items whose bits stay when there is to be room for `key`. -/
def staying (s : RollingBitField) (key : ℕ) : Finset ℕ := s.window.filter (key < · + s.maxWidth)

lemma Represents.staying_moveMin (h : Represents s A) (hlt : s.min < s.maxExclusive)
    (hfits : ¬ key < s.min + s.maxWidth) : (s.moveMin.purge s.min).staying key = s.staying key := by
  obtain ⟨-, hwidth, hexcess⟩ := purge_frame s.moveMin s.min
  ext k
  rw [staying, staying, Finset.mem_filter, Finset.mem_filter, (h.moveMin hlt).mem_window_iff,
    h.mem_window_iff, hexcess, hwidth]
  simp only [RollingBitField.moveMin, mem_append, mem_singleton, not_or]
  refine ⟨fun hk => ⟨⟨hk.1.1, hk.1.2.1⟩, hk.2⟩, fun hk => ⟨⟨hk.1.1, hk.1.2, ?_⟩, hk.2⟩⟩
  rintro rfl
  exact hfits hk.2

lemma Represents.makeRoom (h : Represents s A) (hlt : s.min < s.maxExclusive)
    (hkey : s.maxExclusive ≤ key) :
    ∃ s' bitsEmpty, s.makeRoom key = .ok (s', bitsEmpty) ∧ Represents s' A
      ∧ s'.maxExclusive = s.maxExclusive ∧ s'.maxWidth = s.maxWidth ∧ s'.window = s.staying key
      ∧ if bitsEmpty then s'.min = s'.maxExclusive
        else s'.min < s'.maxExclusive ∧ key < s'.min + s'.maxWidth := by
  fun_induction RollingBitField.makeRoom s key with
  | case1 s hfits =>
    refine ⟨s, false, rfl, h, rfl, rfl, (Finset.filter_true_of_mem fun k hk => ?_).symm, hlt, by omega⟩
    have := (mem_window.1 hk).1
    omega
  | case2 s _ hexcess => exact absurd (h.excess_lt _ hexcess) (lt_irrefl _)
  | case3 s hfits _ s' hall =>
    have h' : Represents s' A := h.moveMin hlt
    obtain ⟨hmax, hwidth, -⟩ := purge_frame s.moveMin s.min
    have hempty := h'.allItemsInExcess_iff.1 hall
    refine ⟨s', true, rfl, h', hmax, hwidth, ?_, h'.window_eq_empty.1 hempty⟩
    rw [← h.staying_moveMin hlt (by omega)]
    exact hempty.trans (by rw [staying, hempty, Finset.filter_empty])
  | case4 s hfits _ s' hall ih =>
    have h' : Represents s' A := h.moveMin hlt
    obtain ⟨hmax, hwidth, -⟩ := purge_frame s.moveMin s.min
    have hne : s'.min ≠ s'.maxExclusive := fun heq =>
      hall (h'.allItemsInExcess_iff.2 (h'.window_eq_empty.2 heq))
    obtain ⟨s'', bitsEmpty, heq, hs'', hmax', hwidth', hstay, hroom⟩ :=
      ih h' (lt_of_le_of_ne h'.ordered hne) (hmax.trans_le hkey)
    exact ⟨s'', bitsEmpty, heq, hs'', hmax'.trans hmax, hwidth'.trans hwidth,
      hstay.trans (h.staying_moveMin hlt (by omega)), hroom⟩

lemma Represents.room (h : Represents s A) (hkey : s.window = ∅ ∨ s.min ≤ key) :
    ∃ s' bitsEmpty, s.room key = .ok (s', bitsEmpty) ∧ Represents s' A
      ∧ s'.maxExclusive = s.maxExclusive ∧ s'.maxWidth = s.maxWidth ∧ s'.window = s.staying key
      ∧ if bitsEmpty then s'.min = s'.maxExclusive ∧ (s' = s ∨ s.maxExclusive ≤ key)
        else (s'.min < s'.maxExclusive ∧ s'.min ≤ key) ∧ key < s'.min + s'.maxWidth := by
  unfold RollingBitField.room
  split_ifs with hempty hin
  · have hw := h.bitsEmpty_iff.1 hempty
    refine ⟨s, true, rfl, h, rfl, rfl, ?_, h.window_eq_empty.1 hw, .inl rfl⟩
    rw [staying, hw, Finset.filter_empty]
  · have hle := hkey.resolve_left fun hw => hempty (h.bitsEmpty_iff.2 hw)
    have hwidth := h.width
    refine ⟨s, false, rfl, h, rfl, rfl, (Finset.filter_true_of_mem fun k hk => ?_).symm,
      ⟨by omega, hle⟩, by omega⟩
    have := (mem_window.1 hk).1
    omega
  · have hne : s.min ≠ s.maxExclusive := fun heq =>
      hempty (h.bitsEmpty_iff.2 (h.window_eq_empty.2 heq))
    obtain ⟨s', bitsEmpty, heq, hs', hmax, hwidth, hstay, hroom⟩ :=
      h.makeRoom (lt_of_le_of_ne h.ordered hne) (Nat.not_lt.1 hin)
    refine ⟨s', bitsEmpty, heq, hs', hmax, hwidth, hstay, ?_⟩
    cases bitsEmpty with
    | true => exact ⟨hroom, .inr (Nat.not_lt.1 hin)⟩
    | false =>
      obtain ⟨hlt, hfits⟩ : s'.min < s'.maxExclusive ∧ key < s'.min + s'.maxWidth := hroom
      exact ⟨⟨hlt, by omega⟩, hfits⟩

lemma Holds.containsAssumeInRange_iff (h : Holds s A) (hle : s.min ≤ key)
    (hlt : key < s.min + s.maxWidth) : s.containsAssumeInRange key = true ↔ key ∈ s.window := by
  constructor
  · intro hbit
    obtain ⟨k, hk, haddr⟩ := h.bits _ hbit
    have hrange := (mem_window.1 hk).1
    have hwidth := h.width
    rwa [← getAddress_inj ⟨hrange.1, by omega⟩ ⟨hle, hlt⟩ haddr]
  · exact fun hk => (mem_window.1 hk).2

lemma Represents.setBit_empty (h : Represents s A) (key : ℕ) (hempty : s.min = s.maxExclusive) :
    ∃ t, s.setBit key true = .ok t ∧ t.excess = s.excess ∧ t.maxExclusive = key + 1
      ∧ t.count = A.card + 1
      ∧ ((∀ e ∈ s.excess, e < key) → Represents t (Insert.insert key A)) := by
  have hw := h.window_eq_empty.2 hempty
  have hbit : ¬ s.containsAssumeInRange key = true := by
    intro hbit
    obtain ⟨k, hk, -⟩ := h.bits _ hbit
    rw [hw] at hk
    exact Finset.notMem_empty k hk
  rw [setBit, if_neg hbit, if_pos rfl]
  refine ⟨_, rfl, rfl, rfl, by rw [← h.count], fun hexcess => ?_⟩
  have hpos := h.pos
  exact h.set (s := s) key (fun k hk => absurd hk (hw ▸ Finset.notMem_empty k))
    ⟨le_rfl, Nat.lt_succ_self _⟩ (by show key + 1 ≤ key + s.maxWidth; omega) rfl rfl rfl rfl hexcess
    (hw ▸ Finset.notMem_empty key) (.inl rfl)

lemma Represents.setBit_range (h : Represents s A) (hlt : s.min < s.maxExclusive)
    (hle : s.min ≤ key) (hfits : key < s.min + s.maxWidth) (hmin64 : s.min < 2 ^ 64)
    (hwidth : s.maxWidth < 2 ^ 64) :
    if key ∈ s.window ∨ s.min + s.maxWidth < 2 ^ 64 then
      ∃ t, s.setBit key false = .ok t ∧ Represents t (Insert.insert key A)
    else s.setBit key false = .error .range := by
  have hiff := h.containsAssumeInRange_iff hle hfits
  by_cases hmem : key ∈ s.window
  · rw [if_pos (.inl hmem), setBit, if_pos (hiff.2 hmem)]
    refine ⟨s, rfl, ?_⟩
    rwa [Finset.insert_eq_of_mem ((h.items key).2 (.inr hmem))]
  · have hmin : Nat.min s.min key = s.min := Nat.min_eq_left hle
    have hbound := h.width
    obtain ⟨m, hm⟩ : ∃ m, Nat.max s.maxExclusive (key + 1) = m := ⟨_, rfl⟩
    have hmax : s.maxExclusive ≤ m ∧ key + 1 ≤ m ∧ m ≤ s.min + s.maxWidth := by
      rw [← hm]
      exact ⟨Nat.le_max_left _ _, Nat.le_max_right _ _, Nat.max_le.2 ⟨hbound, hfits⟩⟩
    rw [setBit, if_neg fun hc => hmem (hiff.1 hc), if_neg Bool.false_ne_true]
    simp only [hmin, hm, hmem, false_or]
    by_cases hsum : s.min + s.maxWidth < 2 ^ 64
    · have hassert : ¬ (s.min + s.maxWidth) % 2 ^ 64 < m := by
        omega
      rw [if_pos hsum, if_neg hassert]
      refine ⟨_, rfl, ?_⟩
      exact h.set (s := s) key
        (fun k hk => ⟨(mem_window.1 hk).1.1, (mem_window.1 hk).1.2.trans_le hmax.1⟩)
        ⟨hle, hmax.2.1⟩ hmax.2.2 rfl rfl rfl rfl h.excess_lt hmem (.inr (h.min_mem hlt))
    · rw [if_neg hsum, if_pos (by omega)]

/-- If no bit is set, the key is above the excess set. If one is, the key is below all bits or is
there, or no bit stays, or one that stays is at least the width below `2 ^ 64`. -/
def InsertOk (s : RollingBitField) (key : ℕ) : Prop :=
  if s.window = ∅ then ∀ e ∈ s.excess, e < key
  else key < s.min ∨ s.contains key ∨ s.staying key = ∅
    ∨ ∃ k ∈ s.staying key, k + s.maxWidth < 2 ^ 64

instance (s : RollingBitField) (key : ℕ) : Decidable (s.InsertOk key) := by
  unfold InsertOk
  infer_instance

end Insert

section Queries

lemma Represents.contains_iff (h : Represents s A) : s.contains key = true ↔ key ∈ A := by
  rw [h.items, contains]
  split_ifs with hlt hle
  · rw [mem_window]
    refine ⟨fun hbit => .inr ⟨⟨hle, hlt⟩, hbit⟩, fun hk => (hk.resolve_left fun he => ?_).2⟩
    have := h.excess_lt key he
    omega
  · rw [contains_iff_mem]
    refine ⟨.inl, fun hk => hk.resolve_right fun hw => hle (mem_window.1 hw).1.1⟩
  · refine ⟨nofun, ?_⟩
    rintro (he | hw)
    · exact absurd (h.excess_below key he).1 hlt
    · exact absurd (mem_window.1 hw).1.2 hlt

lemma Holds.isEmpty_iff (h : Holds s A) : s.isEmpty = true ↔ A = ∅ := by
  rw [isEmpty, decide_eq_true_iff, len, h.count, Finset.card_eq_zero]

lemma Represents.isLeast_minItem (h : Represents s A) (hne : A.Nonempty) :
    ∃ m, s.minItem = some m ∧ IsLeast (A : Set ℕ) m := by
  rw [minItem, if_neg (mt h.isEmpty_iff.1 hne.ne_empty)]
  have hwindow : ∀ k ∈ s.window, s.min ∈ s.window ∧ s.min ≤ k := by
    intro k hk
    have hrange := (mem_window.1 hk).1
    exact ⟨h.min_mem (by omega), hrange.1⟩
  by_cases hnil : s.excess = []
  · rw [if_pos hnil]
    have hmem : ∀ k, k ∈ A ↔ k ∈ s.window := fun k => by simp [h.items, hnil]
    obtain ⟨k, hk⟩ := hne
    refine ⟨s.min, rfl, (hmem _).2 (hwindow k ((hmem k).1 hk)).1, fun k hk => ?_⟩
    exact (hwindow k ((hmem k).1 hk)).2
  · obtain ⟨e, he⟩ := Option.ne_none_iff_exists'.1 (mt min?_eq_none_iff.1 hnil)
    obtain ⟨hmem, hle⟩ := min?_eq_some_iff.1 he
    have hleast : IsLeast (A : Set ℕ) e := by
      refine ⟨(h.items e).2 (.inl hmem), fun k hk => ?_⟩
      rcases (h.items k).1 hk with hk | hk
      · exact hle k hk
      · exact ((h.excess_below e hmem).2 k hk).le
    have hmin : Nat.min s.min e = e := Nat.min_eq_right (h.excess_lt e hmem).le
    rw [if_neg hnil, he, Option.getD_some, hmin, ite_self]
    exact ⟨e, rfl, hleast⟩

lemma takeWhile_range' (a n m : ℕ) :
    (range' a n).takeWhile (· < m) = (range' a n).filter (· < m) := by
  induction n generalizing a with
  | zero => rfl
  | succ n ih =>
    rw [range'_succ, takeWhile_cons, filter_cons]
    split_ifs with hlt
    · rw [ih]
    · refine (filter_eq_nil_iff.2 fun k hk => ?_).symm
      have hk := mem_range'_1.1 hk
      simp only [decide_eq_true_eq] at hlt ⊢
      omega

lemma Represents.list (h : Represents s A) (p : ℕ → Bool) :
    (s.excess.filter p ++ (s.range.filter p).filter s.containsAssumeInRange).Nodup
      ∧ ∀ k, k ∈ s.excess.filter p ++ (s.range.filter p).filter s.containsAssumeInRange
        ↔ k ∈ A ∧ p k = true := by
  have hmem : ∀ k, k ∈ (s.range.filter p).filter s.containsAssumeInRange
      ↔ k ∈ s.window ∧ p k = true := by
    intro k
    rw [mem_filter, mem_filter, mem_range, mem_window, containsAssumeInRange]
    tauto
  have hrange : s.range.Nodup := nodup_range'
  refine ⟨(h.nodup.filter _).append ((hrange.filter _).filter _) ?_, fun k => ?_⟩
  · intro k he hk
    exact ((h.excess_below k (mem_of_mem_filter he)).2 k ((hmem k).1 hk).1).false
  · rw [mem_append, hmem, mem_filter, h.items]
    tauto

theorem Represents.agrees (h : Represents s A) : Agrees s A := by
  refine ⟨fun key => h.contains_iff, h.count, h.isEmpty_iff, fun m => ?_, ?_, fun m => ?_⟩
  · rcases A.eq_empty_or_nonempty with hA | hne
    · rw [minItem, if_pos (h.isEmpty_iff.2 hA), hA]
      refine ⟨nofun, fun hleast => absurd hleast.1 (by simp)⟩
    · obtain ⟨m', heq, hleast⟩ := h.isLeast_minItem hne
      rw [heq, Option.some_inj]
      exact ⟨fun hm => hm ▸ hleast, fun hm => hleast.unique hm⟩
  · obtain ⟨hnodup, hmem⟩ := h.list fun _ => true
    rw [filter_true, filter_true] at hnodup hmem
    refine ⟨hnodup, Finset.ext fun k => ?_⟩
    rw [mem_toFinset, getAll, hmem]
    simp
  · obtain ⟨hnodup, hmem⟩ := h.list fun k => k < m
    have hfilter : s.range.takeWhile (· < m) = s.range.filter (· < m) := takeWhile_range' _ _ _
    rw [getAllLessThan, hfilter]
    refine ⟨hnodup, Finset.ext fun k => ?_⟩
    rw [mem_toFinset, Finset.mem_filter, hmem, decide_eq_true_iff]

theorem Represents.eq_iff {B : Finset ℕ} (h : Represents s A) (h' : Represents t B) :
    s.eq t = true ↔ A = B := by
  have hall : s.getAll.all t.contains = true ↔ A ⊆ B := by
    rw [all_eq_true]
    obtain ⟨-, hA⟩ := h.agrees.getAll
    simp only [← mem_toFinset, hA, h'.contains_iff]
    rfl
  rw [eq, Bool.and_eq_true, decide_eq_true_iff, hall, len, len, h.count, h'.count]
  constructor
  · rintro ⟨hcard, hsub⟩
    exact Finset.eq_of_subset_of_card_le hsub hcard.ge
  · rintro rfl
    exact ⟨rfl, Finset.Subset.refl _⟩

end Queries

section Step

structure Inv (width : ℕ) (s : RollingBitField) (A : Finset ℕ) : Prop where
  represents : Represents s A
  maxExclusive : s.maxExclusive < 2 ^ 64
  maxWidth : s.maxWidth = width

lemma setBit_bounds {bitsEmpty : Bool} (h : s.setBit key bitsEmpty = .ok t) :
    t.maxExclusive ≤ Nat.max s.maxExclusive (key + 1) ∧ t.maxWidth = s.maxWidth := by
  rw [setBit] at h
  split_ifs at h
  · cases h
    exact ⟨Nat.le_max_left _ _, rfl⟩
  · cases h
    exact ⟨Nat.le_max_right _ _, rfl⟩
  · simp only [ite_error_eq_ok] at h
    obtain ⟨-, h⟩ := h
    cases h
    exact ⟨le_rfl, rfl⟩

lemma Represents.insert_excess (h : Represents s A) (hlt : key < s.min) (hmem : key ∉ s.excess) :
    Represents { s with excess := s.excess ++ [key], count := s.count + 1 }
      (Insert.insert key A) := by
  have hnot : key ∉ A := by
    rw [h.items]
    rintro (he | hk)
    · exact hmem he
    · have := (mem_window.1 hk).1
      omega
  have hexcess : ∀ e ∈ s.excess ++ [key], e < s.min :=
    forall_mem_append.2 ⟨h.excess_lt, forall_mem_singleton.2 hlt⟩
  refine ⟨⟨h.pos, h.ordered, h.width, h.bits, ?_, fun e he => ⟨?_, fun k hk => ?_⟩, fun k => ?_, ?_⟩,
    hexcess, h.min_mem⟩
  · exact h.nodup.append (nodup_singleton _) (by simpa using hmem)
  · exact (hexcess e he).trans_le h.ordered
  · exact (hexcess e he).trans_le (mem_window.1 hk).1.1
  · rw [Finset.mem_insert, h.items]
    rw [mem_append, mem_singleton]
    tauto
  · rw [Finset.card_insert_of_notMem hnot, ← h.count]

lemma not_agrees_of_excess {e : ℕ} (h : Represents s A) (he : e ∈ s.excess) (hle : key ≤ e)
    (hmax : t.maxExclusive = key + 1) (hcount : t.count = A.card + 1) :
    ¬ Agrees t (Insert.insert key A) := by
  intro hagrees
  have hmem : e ∈ A := (h.items e).2 (.inl he)
  rcases Nat.eq_or_lt_of_le hle with rfl | hlt
  · -- the key is counted twice
    have hlen := hagrees.len
    rw [Finset.insert_eq_of_mem hmem, len, hcount] at hlen
    omega
  · -- the greater item is out of the range
    have hcontains := (hagrees.contains e).2 (Finset.mem_insert_of_mem hmem)
    rw [contains, if_neg (by omega)] at hcontains
    cases hcontains

lemma Represents.insertOk_of_empty (h : Represents s A) (h' : Represents s' A)
    (hmax : s'.maxExclusive = s.maxExclusive) (hstay : s'.window = s.staying key)
    (hempty : s'.min = s'.maxExclusive ∧ (s' = s ∨ s.maxExclusive ≤ key)) :
    s.InsertOk key ↔ ∀ e ∈ s'.excess, e < key := by
  rw [h'.window_eq_empty.2 hempty.1] at hstay
  rcases hempty.2 with rfl | hkey
  · rw [InsertOk, if_pos (h'.window_eq_empty.2 hempty.1)]
  · refine iff_of_true ?_ fun e he => ?_
    · unfold InsertOk
      split_ifs with hw
      · intro e he
        exact (h.excess_below e he).1.trans_le hkey
      · exact .inr (.inr (.inl hstay.symm))
    · exact (hmax ▸ (h'.excess_below e he).1).trans_le hkey

lemma Represents.insertOk_iff (h : Represents s A) (h' : Represents s' A)
    (hwidth : s'.maxWidth = s.maxWidth) (hstay : s'.window = s.staying key)
    (hkey : s.window = ∅ ∨ s.min ≤ key) (hlt : s'.min < s'.maxExclusive) (hle : s'.min ≤ key) :
    s.InsertOk key ↔ key ∈ s'.window ∨ s'.min + s'.maxWidth < 2 ^ 64 := by
  have hmin := h'.min_mem hlt
  have hne : s.staying key ≠ ∅ := fun hnil => by simp [hstay, hnil] at hmin
  have hw : s.window ≠ ∅ := fun hnil => hne (by rw [staying, hnil, Finset.filter_empty])
  have hcontains : s.contains key = true ↔ key ∈ s'.window := by
    rw [h.contains_iff, h'.mem_window_iff, and_iff_left]
    intro he
    have := h'.excess_lt key he
    omega
  rw [InsertOk, if_neg hw, or_iff_right (Nat.not_lt.2 (hkey.resolve_left hw)), hcontains,
    or_iff_right hne, ← hstay, ← hwidth]
  refine or_congr_right ⟨fun ⟨k, hk, hsum⟩ => ?_, fun hsum => ⟨_, hmin, hsum⟩⟩
  have := (mem_window.1 hk).1
  omega

/-- An insert is that of a set, or it fails, or it is not above all items and leaves wrong answers. -/
lemma Inv.insert (h : Inv width s A) (key : ℕ) (hwidth : width < 2 ^ 64) (hkey : key < 2 ^ 64 - 1) :
    if s.InsertOk key then ∃ t, s.insert key = .ok t ∧ Inv width t (Insert.insert key A)
    else ∀ t, s.insert key = .ok t →
      (∃ e ∈ A, key ≤ e) ∧ ¬ Agrees t (Insert.insert key A) := by
  have hs := h.represents
  by_cases hexcess : ¬ (s.count = 0 ∨ s.allItemsInExcess) ∧ key < s.min
  · have hok : s.InsertOk key := by
      rw [InsertOk, if_neg fun hw => hexcess.1 (hs.bitsEmpty_iff.2 hw)]
      exact .inl hexcess.2
    rw [if_pos hok, RollingBitField.insert, if_pos hexcess]
    split_ifs with hmem
    · rw [Finset.insert_eq_of_mem ((hs.items key).2 (.inl hmem))]
      exact ⟨s, rfl, h⟩
    · exact ⟨_, rfl, hs.insert_excess hexcess.2 hmem, h.maxExclusive, h.maxWidth⟩
  · have hempty : s.window = ∅ ∨ s.min ≤ key := by
      rw [not_and_or, not_not, hs.bitsEmpty_iff, Nat.not_lt] at hexcess
      exact hexcess
    obtain ⟨s', bitsEmpty, hroom, hs', hmax', hwidth', hstay, hcase⟩ := hs.room hempty
    have hmax := h.maxExclusive
    have hinsert : s.insert key = s'.setBit key bitsEmpty := by
      rw [RollingBitField.insert, if_neg hexcess, hroom]
      rfl
    have hinv : ∀ t, s'.setBit key bitsEmpty = .ok t → Represents t (Insert.insert key A) →
        Inv width t (Insert.insert key A) := by
      intro t ht hrep
      obtain ⟨hbound, hw⟩ := setBit_bounds ht
      refine ⟨hrep, hbound.trans_lt ?_, hw.trans (hwidth'.trans h.maxWidth)⟩
      rw [hmax']
      exact Nat.max_lt.2 ⟨hmax, by omega⟩
    rw [hinsert]
    cases bitsEmpty with
    | true =>
      have hok := hs.insertOk_of_empty hs' hmax' hstay hcase
      obtain ⟨t, ht, hexc, htmax, htcount, hrep⟩ := hs'.setBit_empty key hcase.1
      split_ifs with hcond
      · exact ⟨t, ht, hinv t ht (hrep (hok.1 hcond))⟩
      · intro t' ht'
        cases ht.symm.trans ht'
        obtain ⟨e, he, hle⟩ : ∃ e ∈ s'.excess, key ≤ e := by
          by_contra hall
          push Not at hall
          exact hcond (hok.2 hall)
        have hmem : e ∈ A := (hs'.items e).2 (.inl he)
        exact ⟨⟨e, hmem, hle⟩, not_agrees_of_excess hs' he hle htmax htcount⟩
    | false =>
      obtain ⟨⟨hlt, hle⟩, hfits⟩ : (s'.min < s'.maxExclusive ∧ s'.min ≤ key)
        ∧ key < s'.min + s'.maxWidth := hcase
      have hset := hs'.setBit_range hlt hle hfits (by omega) (by rw [hwidth', h.maxWidth]; exact hwidth)
      rw [if_congr (hs.insertOk_iff hs' hwidth' hstay hempty hlt hle) rfl rfl]
      split_ifs at hset ⊢ with hcond
      · obtain ⟨t, ht, hrep⟩ := hset
        exact ⟨t, ht, hinv t ht hrep⟩
      · intro t ht
        rw [hset] at ht
        cases ht

lemma Represents.remove (h : Represents s A) (key : ℕ) :
    Represents (s.remove key).1 (A.erase key) ∧ (s.remove key).2 = decide (key ∈ A) := by
  have hother : ¬ s.contains key = true → Represents s (A.erase key) ∧ false = decide (key ∈ A) := by
    rw [h.contains_iff]
    intro hnot
    rw [Finset.erase_eq_of_notMem hnot, decide_eq_false hnot]
    exact ⟨h, rfl⟩
  rw [RollingBitField.remove]
  split_ifs with hle hlt hbit hmem
  · have hwin : key ∈ s.window := mem_window.2 ⟨⟨hle, hlt⟩, hbit⟩
    have hA : key ∈ A := (h.items key).2 (.inr hwin)
    obtain ⟨hwindow, hbits⟩ := h.update (s := s) key
      (t := { s with count := s.count - 1,
                     bits := Function.update s.bits (s.getAddress key) false })
      (fun k hk => (mem_window.1 hk).1) ⟨hle, hlt⟩ h.width rfl rfl
    simp only [Bool.false_eq_true, and_false, false_or] at hwindow
    refine ⟨Holds.purge ⟨h.pos, h.ordered, h.width, hbits, h.nodup,
      fun e he => ⟨(h.excess_below e he).1, fun k hk => ?_⟩, fun k => ?_, ?_⟩ (fun hne _ => ?_)
      fun heq hw => ((hwindow _).1 hw).1 heq.symm, (decide_eq_true hA).symm⟩
    · exact (h.excess_below e he).2 k ((hwindow k).1 hk).2
    · rw [Finset.mem_erase, h.items, hwindow]
      have : k ∈ s.excess → k ≠ key := fun he heq =>
        ((h.excess_below k he).2 key hwin).ne heq
      tauto
    · rw [Finset.card_erase_of_mem hA, ← h.count]
    · exact (hwindow _).2 ⟨hne.symm, h.min_mem (by omega)⟩
  · exact hother (by simp [contains, hlt, hle, hbit])
  · exact hother (by simp [contains, hlt])
  · have hA : key ∈ A := (h.items key).2 (.inl hmem)
    have hexcess : ∀ e, e ∈ s.excess.erase key ↔ e ≠ key ∧ e ∈ s.excess := fun e =>
      h.nodup.mem_erase_iff
    refine ⟨⟨⟨h.pos, h.ordered, h.width, h.bits, h.nodup.erase key,
      fun e he => h.excess_below e ((hexcess e).1 he).2, fun k => ?_, ?_⟩,
      fun e he => h.excess_lt e ((hexcess e).1 he).2, h.min_mem⟩, (decide_eq_true hA).symm⟩
    · rw [Finset.mem_erase, h.items]
      have : k ∈ s.window → k ≠ key := fun hk heq =>
        hle (heq ▸ (mem_window.1 hk).1.1)
      rw [hexcess]
      tauto
    · rw [Finset.card_erase_of_mem hA, ← h.count]
  · exact hother (by simp [contains, hle, hmem])

def StepOk (s : RollingBitField) : Op → Prop
  | .insert key => s.InsertOk key
  | .remove _ => True

instance (s : RollingBitField) : ∀ op, Decidable (s.StepOk op)
  | .insert key => inferInstanceAs (Decidable (s.InsertOk key))
  | .remove _ => inferInstanceAs (Decidable True)

lemma Inv.step {op : Op} (h : Inv width s A) (hwidth : width < 2 ^ 64)
    (hkey : op.key < 2 ^ 64 - 1) :
    if s.StepOk op then
      ∃ t, s.step op = .ok (t, (setStep A op).2) ∧ Inv width t (setStep A op).1
    else ∀ t o, s.step op = .ok (t, o) →
      (∃ key e, op.inserted = some key ∧ e ∈ A ∧ key ≤ e) ∧ ¬ Agrees t (setStep A op).1 := by
  cases op with
  | insert key =>
    have hinsert := h.insert key hwidth hkey
    change if s.InsertOk key then _ else _
    split_ifs at hinsert ⊢
    · obtain ⟨t, ht, hinv⟩ := hinsert
      exact ⟨t, by rw [RollingBitField.step, ht]; rfl, hinv⟩
    · intro t o ht
      obtain ⟨t', ht', heq⟩ := Except.map_eq_ok.1 ht
      cases heq
      obtain ⟨⟨e, he, hle⟩, hbad⟩ := hinsert _ ht'
      exact ⟨⟨key, e, rfl, he, hle⟩, hbad⟩
  | remove key =>
    obtain ⟨hrep, hanswer⟩ := h.represents.remove key
    obtain ⟨hmax, hw⟩ : (s.remove key).1.maxExclusive = s.maxExclusive
        ∧ (s.remove key).1.maxWidth = s.maxWidth := by
      rw [RollingBitField.remove]
      split_ifs
      · exact ⟨(purge_frame _ _).1, (purge_frame _ _).2.1⟩
      all_goals exact ⟨rfl, rfl⟩
    refine ⟨_, ?_, hrep, hmax ▸ h.maxExclusive, hw.trans h.maxWidth⟩
    rw [RollingBitField.step, hanswer]
    rfl

end Step

section Runs

lemma setRun_concat (ops : List Op) (op : Op) :
    setRun (ops ++ [op]) = ((setStep (setRun ops).1 op).1,
      (setRun ops).2 ++ (setStep (setRun ops).1 op).2) := by
  rw [setRun, foldl_append]
  rfl

lemma inv_fresh (hpos : 0 < width) : Inv width (fresh width) ∅ := by
  have hitems : ∀ k, k ∈ (∅ : Finset ℕ) ↔ k ∈ (fresh width).excess ∨ k ∈ (fresh width).window :=
    fun k => by simp [mem_window, fresh]
  exact ⟨⟨⟨hpos, le_rfl, Nat.zero_le _, nofun, nodup_nil, nofun, hitems, rfl⟩, nofun,
    fun hlt => absurd hlt (lt_irrefl _)⟩, Nat.two_pow_pos 64, rfl⟩

lemma run_inv {ops : List Op} (hpos : 0 < width) (hwidth : width < 2 ^ 64)
    (hkeys : ∀ op ∈ ops, op.key < 2 ^ 64 - 1)
    (h : Guarded step StepOk (fresh width) ops) :
    ∃ s, run step (fresh width) ops = .ok (s, (setRun ops).2)
      ∧ Inv width s (setRun ops).1 := by
  obtain ⟨s, o, hrun, rfl, hinv⟩ := run_ok (P := fun ops o s => o = (setRun ops).2
      ∧ Inv width s (setRun ops).1) ⟨rfl, inv_fresh hpos⟩ (fun ops o s op ⟨ho, hinv⟩ hop => by
    have hstep := hinv.step hwidth hop.2
    rw [if_pos hop.1] at hstep
    obtain ⟨t, ht, hinv'⟩ := hstep
    rw [setRun_concat, ho]
    exact ⟨t, _, ht, rfl, hinv'⟩) (h.and (guarded_of_mem hkeys _))
  exact ⟨s, hrun, hinv⟩

/-- A field answers as a set along a run just if every insert into a field without bits is above its
excess set and no sum of `min` and the width overflows. Two such fields are equal just if their sets
are. -/
theorem rollingBitField_is_set_iff (n : ℕ) (ops : List Op) (hn : n < 64)
    (hkeys : ∀ op ∈ ops, op.key < 2 ^ 64 - 1) :
    ((∃ s₀, new (2 ^ n) = .ok s₀ ∧ ∀ ops', ops' <+: ops →
        ∃ s, run step s₀ ops' = .ok (s, (setRun ops').2)
          ∧ Agrees s (setRun ops').1)
      ↔ Guarded step StepOk (fresh (2 ^ n)) ops)
    ∧ ∀ (n' : ℕ) (ops' : List Op) (s s' : RollingBitField) (o o' : List Bool),
      n' < 64 → (∀ op ∈ ops', op.key < 2 ^ 64 - 1) →
      Guarded step StepOk (fresh (2 ^ n)) ops →
      Guarded step StepOk (fresh (2 ^ n')) ops' →
      run step (fresh (2 ^ n)) ops = .ok (s, o) →
      run step (fresh (2 ^ n')) ops' = .ok (s', o') →
      (s.eq s' = true ↔ (setRun ops).1 = (setRun ops').1) := by
  have hwidth : ∀ n < 64, 2 ^ n < 2 ^ 64 := fun n hn => Nat.pow_lt_pow_right (by decide) hn
  refine ⟨?_, fun n' ops' s s' o o' hn' hkeys' hG hG' hs hs' => ?_⟩
  · have hnew : new (2 ^ n) = .ok (fresh (2 ^ n)) := by
      rw [new, if_pos ⟨Nat.two_pow_pos n, by rw [Nat.log2_two_pow]⟩]
    constructor
    · rintro ⟨s₀, hs0, hall⟩
      cases hnew.symm.trans hs0
      induction ops using reverseRecOn with
      | nil => trivial
      | append_singleton ops op ih =>
        have hops := ih (fun op hop => hkeys op (mem_append_left _ hop)) fun ops' hpre =>
          hall ops' (hpre.trans (prefix_append _ _))
        obtain ⟨s, hrun, hinv⟩ := run_inv (Nat.two_pow_pos n) (hwidth n hn)
          (fun op hop => hkeys op (mem_append_left _ hop)) hops
        refine guarded_append.2 ⟨hops, fun s' o' hrun' => ⟨?_, fun _ _ _ => trivial⟩⟩
        cases hrun.symm.trans hrun'
        by_contra hbad
        have hstep := hinv.step (hwidth n hn) (hkeys op mem_concat_self)
        rw [if_neg hbad] at hstep
        obtain ⟨t, ht, hagrees⟩ := hall _ prefix_rfl
        obtain ⟨s1, o1, o2, hrun1, hrun2, -⟩ := run_append_ok.1 ht
        cases hrun.symm.trans hrun1
        obtain ⟨t', o3, o4, ht', hnil, -⟩ := run_cons_ok.1 hrun2
        cases hnil
        rw [setRun_concat] at hagrees
        exact (hstep _ _ ht').2 hagrees
    · refine fun hG => ⟨_, hnew, fun ops' hpre => ?_⟩
      obtain ⟨rest, rfl⟩ := hpre
      obtain ⟨s, hrun, hinv⟩ := run_inv (Nat.two_pow_pos n) (hwidth n hn)
        (fun op hop => hkeys op (mem_append_left _ hop)) (guarded_append.1 hG).1
      exact ⟨s, hrun, hinv.represents.agrees⟩
  · obtain ⟨t, ht, hinv⟩ := run_inv (Nat.two_pow_pos n) (hwidth n hn) hkeys hG
    obtain ⟨t', ht', hinv'⟩ := run_inv (Nat.two_pow_pos n') (hwidth n' hn') hkeys' hG'
    cases ht.symm.trans hs
    cases ht'.symm.trans hs'
    exact hinv.represents.eq_iff hinv'.represents

def growing : List Op := [.insert 4, .insert 5, .insert 9, .remove 9, .insert 10, .remove 4]

theorem growing_is_set :
    Guarded step StepOk (fresh (2 ^ 1)) growing
      ∧ ∀ ops', ops' <+: growing →
        ∃ s, run step (fresh (2 ^ 1)) ops' = .ok (s, (setRun ops').2)
          ∧ Agrees s (setRun ops').1 := by
  have hG : Guarded step StepOk (fresh (2 ^ 1)) growing := by decide +kernel
  obtain ⟨s0, hs0, hall⟩ := (rollingBitField_is_set_iff 1 growing (by decide) (by decide)).1.2 hG
  cases hs0
  exact ⟨hG, hall⟩

/-- A key of the excess set that is inserted again once the bits are empty is counted twice, and one
below an item of the excess set hides that item. Near the top of the keys the range check fails. -/
theorem reinserted_counted_twice :
    (∃ r, run step (fresh 2) [.insert 0, .insert 5, .remove 5, .insert 0] = .ok r
      ∧ r.1.len = 2 ∧ r.1.getAll = [0, 0])
    ∧ (∃ r, run step (fresh 2) [.insert 3, .insert 9, .remove 9, .insert 1] = .ok r
      ∧ r.1.contains 3 = false)
    ∧ (run step (fresh 8)
      [.insert (2 ^ 64 - 4), .insert (2 ^ 64 - 3)]).toOption.isNone = true :=
  ⟨Except.exists_of_any (by decide +kernel), Except.exists_of_any (by decide +kernel),
    by decide +kernel⟩

end Runs

section Prior

lemma run_increasing {ops : List Op} {o : List Bool} (hpos : 0 < width) (hwidth : width < 2 ^ 64)
    (hkeys : ∀ op ∈ ops, op.key < 2 ^ 64 - 1)
    (hinc : (ops.filterMap Op.inserted).Pairwise (· < ·))
    (hrun : run step (fresh width) ops = .ok (s, o)) :
    Inv width s (setRun ops).1 ∧ ∀ a ∈ (setRun ops).1, a ∈ ops.filterMap Op.inserted := by
  induction ops using reverseRecOn generalizing s o with
  | nil =>
    cases hrun
    exact ⟨inv_fresh hpos, fun a ha => absurd ha (Finset.notMem_empty a)⟩
  | append_singleton ops op ih =>
    obtain ⟨s', o1, o2, hrun', hstep, -⟩ := run_append_ok.1 hrun
    obtain ⟨t, o3, o4, ht, hnil, -⟩ := run_cons_ok.1 hstep
    cases hnil
    rw [filterMap_append, pairwise_append] at hinc
    obtain ⟨hinv, hmem⟩ := ih (fun op hop => hkeys op (mem_append_left _ hop)) hinc.1 hrun'
    have hop := hinv.step hwidth (hkeys op mem_concat_self)
    rw [setRun_concat, filterMap_append]
    split_ifs at hop
    · obtain ⟨t', ht', hinv'⟩ := hop
      cases ht.symm.trans ht'
      refine ⟨hinv', fun a ha => mem_append.2 ?_⟩
      cases op with
      | insert key =>
        rcases Finset.mem_insert.1 ha with rfl | ha
        · exact .inr (mem_singleton_self _)
        · exact .inl (hmem a ha)
      | remove key => exact .inl (hmem a (Finset.mem_of_mem_erase ha))
    · -- an insert that is not that of a set would be below an item
      obtain ⟨⟨key, e, hkey, he, hle⟩, -⟩ := hop _ _ ht
      have hlt := hinc.2.2 e (hmem e he) key (by simp [hkey])
      omega

lemma Represents.scanDown_iff {m : ℕ} (h : Represents s A) (hm : IsLeast (A : Set ℕ) m)
    (slot k : ℕ) :
    s.scanDown m (slot + 1) = some k ↔ IsGreatest {a | a ∈ A ∧ 0 < a ∧ a < slot + 2} k := by
  induction slot using Nat.strong_induction_on with
  | _ slot ih =>
    rw [scanDown]
    by_cases hmem : slot + 1 ∈ A
    · have htop : IsGreatest {a | a ∈ A ∧ 0 < a ∧ a < slot + 2} (slot + 1) :=
        ⟨⟨hmem, by omega, by omega⟩, fun a ha => Nat.le_of_lt_succ ha.2.2⟩
      rw [if_pos (h.contains_iff.2 hmem), Option.some_inj]
      exact ⟨fun heq => heq ▸ htop, fun hk => htop.unique hk⟩
    · have hne : ∀ a ∈ A, a < slot + 2 ↔ a < slot + 1 := fun a ha => by
        have : a ≠ slot + 1 := fun heq => hmem (heq ▸ ha)
        omega
      rw [if_neg (mt h.contains_iff.1 hmem)]
      split_ifs with hstop
      · refine ⟨nofun, fun hk => ?_⟩
        obtain ⟨hkA, hpos, hlt⟩ := hk.1
        have hle := hm.2 hkA
        rw [hne k hkA] at hlt
        omega
      · obtain ⟨slot, rfl⟩ : ∃ n, slot = n + 1 := Nat.exists_eq_succ_of_ne_zero (by omega)
        rw [ih slot (Nat.lt_succ_self _)]
        congr! 3 with a
        refine and_congr_right fun ha => and_congr_right fun _ => ?_
        exact (hne a ha).symm

/-- The scan ends at slot 0 without looking there, unless it starts there. -/
lemma Represents.getPrior_iff (h : Represents s A) (x k : ℕ) : s.getPrior x = some k
    ↔ if x < 2 then k = 0 ∧ 0 ∈ A else IsGreatest {a | a ∈ A ∧ 0 < a ∧ a < x} k := by
  rw [getPrior, Option.bind_eq_some_iff]
  have hscan (m : ℕ) (hm : IsLeast (A : Set ℕ) m) : s.scanDown m (x - 1) = some k
      ↔ if x < 2 then k = 0 ∧ 0 ∈ A else IsGreatest {a | a ∈ A ∧ 0 < a ∧ a < x} k := by
    split_ifs with hx
    · rw [show x - 1 = 0 by omega, scanDown]
      simp only [h.contains_iff, Option.ite_none_right_eq_some, Option.some_inj]
      tauto
    · obtain ⟨y, rfl⟩ := Nat.exists_eq_add_of_le' (Nat.not_lt.1 hx)
      exact h.scanDown_iff hm y k
  constructor
  · rintro ⟨m, hm, hk⟩
    exact (hscan m ((h.agrees.minItem m).1 hm)).1 hk
  · intro hk
    have hmem : k ∈ A := by
      split_ifs at hk
      · exact hk.1 ▸ hk.2
      · exact hk.1.1
    obtain ⟨m, hm, hleast⟩ := h.isLeast_minItem ⟨k, hmem⟩
    exact ⟨m, hm, (hscan m hleast).2 hk⟩

/-- In a field built by inserting increasing keys and removing any, `getPrior` gives the greatest key
below a slot just if key 0 is not in the field, or the slot is 1, or a key other than 0 is below it. -/
theorem getPrior_greatest_iff {s₀ : RollingBitField} {o : List Bool} (ops : List Op)
    (hwidth : width < 2 ^ 64) (hnew : new width = .ok s₀)
    (hkeys : ∀ op ∈ ops, op.key < 2 ^ 64 - 1)
    (hinc : (ops.filterMap Op.inserted).Pairwise (· < ·))
    (hrun : run step s₀ ops = .ok (s, o)) (x : ℕ) :
    (∀ k, s.getPrior x = some k ↔ IsGreatest {a | a ∈ (setRun ops).1 ∧ a < x} k)
      ↔ (0 ∈ (setRun ops).1 → x = 1 ∨ ∃ a ∈ (setRun ops).1, 0 < a ∧ a < x) := by
  unfold new at hnew
  split_ifs at hnew with hpos
  cases hnew
  have h := (run_increasing hpos.1 hwidth hkeys hinc hrun).1.represents
  simp only [h.getPrior_iff]
  split_ifs with hx
  · constructor
    · intro hall h0
      have hlt := ((hall 0).1 ⟨rfl, h0⟩).1.2
      exact .inl (by omega)
    · intro hcond k
      constructor
      · rintro ⟨rfl, h0⟩
        refine ⟨⟨h0, ?_⟩, fun a ha => by have := ha.2; omega⟩
        rcases hcond h0 with rfl | ⟨a, -, hlt⟩
        · exact Nat.one_pos
        · omega
      · rintro ⟨⟨hk, hlt⟩, -⟩
        obtain rfl : k = 0 := by omega
        exact ⟨rfl, hk⟩
  · constructor
    · intro hall h0
      by_contra! hno
      have hzero : IsGreatest {a | a ∈ (setRun ops).1 ∧ a < x} 0 := by
        refine ⟨⟨h0, by omega⟩, fun a ha => ?_⟩
        by_contra hlt
        have := hno.2 a ha.1 (by omega)
        have := ha.2
        omega
      exact ((hall 0).2 hzero).1.2.1.false
    · intro hcond k
      constructor
      · rintro ⟨⟨hk, hpos, hlt⟩, htop⟩
        refine ⟨⟨hk, hlt⟩, fun a ha => ?_⟩
        rcases Nat.eq_zero_or_pos a with rfl | hapos
        · exact Nat.zero_le k
        · exact htop ⟨ha.1, hapos, ha.2⟩
      · rintro ⟨⟨hk, hlt⟩, htop⟩
        refine ⟨⟨hk, ?_, hlt⟩, fun a ha => htop ⟨ha.1, ha.2.2⟩⟩
        rcases Nat.eq_zero_or_pos k with rfl | hkpos
        · obtain ⟨a, ha, hapos, hax⟩ := (hcond hk).resolve_left (by omega)
          exact hapos.trans_le (htop ⟨ha, hax⟩)
        · exact hkpos

theorem getPrior_growing : ∃ s o, run step (fresh 2) growing = .ok (s, o)
    ∧ s.getPrior 10 = some 5 ∧ IsGreatest {a | a ∈ (setRun growing).1 ∧ a < 10} 5 := by
  obtain ⟨⟨s, o⟩, hrun, hprior⟩ := Except.exists_of_any (p := fun r => r.1.getPrior 10 = some 5)
    (x := run step (fresh 2) growing) (by decide +kernel)
  have hiff := (getPrior_greatest_iff growing (show 2 < 2 ^ 64 by decide) rfl (by decide) (by decide)
    hrun 10).2 (by decide) 5
  exact ⟨s, o, hrun, hprior, hiff.1 hprior⟩

/-- Key 0 is not found below slot 2, and it is found below slot 0. -/
theorem getPrior_misses_zero : ∃ r, run step (fresh 2) [.insert 0] = .ok r
    ∧ r.1.contains 0 = true ∧ r.1.getPrior 2 = none ∧ r.1.getPrior 0 = some 0 :=
  Except.exists_of_any (by decide +kernel)

end Prior

end RollingBitField

end BlackBull
