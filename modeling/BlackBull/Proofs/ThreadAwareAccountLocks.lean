import BlackBull.Scheduler.ThreadAwareAccountLocks

/-!
# Thread-aware account locks count the outstanding locks

An entry of the table holds, for every thread, the number of the outstanding write and read locks of
its account (`Represents`), modulo `2 ^ 32`.
-/

namespace BlackBull

open Function List AccountLocks LockSession HeldLock

namespace ThreadSet

variable {s : ThreadSet} {t i : ℕ}

lemma getLsbD_asFlag (ht : t < 64) : (asFlag t).getLsbD i = decide (i = t) := by
  rw [asFlag, BitVec.getLsbD_shiftLeft, BitVec.getLsbD_one]
  by_cases h : i = t
  · simp [h, ht]
  · by_cases hlt : i < t
    · simp [h, hlt]
    · have : i - t ≠ 0 := by omega
      simp [h, this]

lemma getLsbD_only (ht : t < 64) : (only t).getLsbD i = true ↔ i = t := by
  rw [only, getLsbD_asFlag ht, decide_eq_true_iff]

lemma getLsbD_any {n : ℕ} (hn : n ≤ 64) : (any n).getLsbD i = true ↔ i < n := by
  rw [any, maxThreads]
  split_ifs with h
  · rw [BitVec.getLsbD_allOnes, decide_eq_true_iff, h]
  · have hlt : n < 64 := by omega
    have hflag : (asFlag n).toNat = 2 ^ n := by
      rw [asFlag, BitVec.toNat_shiftLeft, BitVec.toNat_ofNat, Nat.shiftLeft_eq]
      simp only [Nat.one_mod_two_pow_eq_one.2 (by decide : 0 < 64), Nat.one_mul]
      exact Nat.mod_eq_of_lt (Nat.pow_lt_pow_right (by decide) hlt)
    have hle : 1#64 ≤ asFlag n := by
      rw [BitVec.le_def, hflag]
      exact Nat.one_le_two_pow
    rw [← BitVec.testBit_toNat, BitVec.toNat_sub_of_le hle, hflag]
    show (2 ^ n - 1).testBit i = true ↔ i < n
    rw [Nat.testBit_two_pow_sub_one, decide_eq_true_iff]

lemma eq_none_iff : s = none ↔ ∀ i, s.getLsbD i ≠ true := by
  constructor
  · rintro rfl i
    simp [none]
  · intro h
    refine BitVec.eq_of_getLsbD_eq fun i _ => ?_
    rw [none, BitVec.getLsbD_zero, Bool.eq_false_iff]
    exact h i

lemma contains_iff (ht : t < 64) : s.contains t = true ↔ s.getLsbD t = true := by
  have hne : s &&& asFlag t ≠ none ↔ s.getLsbD t = true := by
    rw [Ne, eq_none_iff]
    push Not
    simp only [BitVec.getLsbD_and, getLsbD_asFlag ht, Bool.and_eq_true, decide_eq_true_iff]
    exact ⟨fun ⟨i, hi, heq⟩ => heq ▸ hi, fun h => ⟨t, h, rfl⟩⟩
  rw [contains, decide_eq_true_iff]
  exact hne

lemma getLsbD_insert (ht : t < 64) :
    (s.insert t).getLsbD i = true ↔ s.getLsbD i = true ∨ i = t := by
  rw [insert, BitVec.getLsbD_or, getLsbD_asFlag ht, Bool.or_eq_true, decide_eq_true_iff]

lemma getLsbD_remove (ht : t < 64) :
    (s.remove t).getLsbD i = true ↔ s.getLsbD i = true ∧ i ≠ t := by
  rw [remove, BitVec.getLsbD_and, BitVec.getLsbD_not, getLsbD_asFlag ht, Bool.and_eq_true,
    Bool.and_eq_true, decide_eq_true_iff, Bool.not_eq_true', decide_eq_false_iff_not]
  exact ⟨fun h => ⟨h.1, h.2.2⟩, fun h => ⟨h.1, BitVec.lt_of_getLsbD h.1, h.2⟩⟩

lemma mem_ones : i ∈ s.ones ↔ s.getLsbD i = true := by
  rw [ones, mem_filter, mem_range]
  exact ⟨And.right, fun h => ⟨BitVec.lt_of_getLsbD h, h⟩⟩

lemma onlyOneContained_iff : s.onlyOneContained = some t ↔ ∀ i, s.getLsbD i = true ↔ i = t := by
  simp only [← mem_ones]
  constructor
  · intro h
    unfold onlyOneContained at h
    split_ifs at h with hone
    obtain ⟨x, hx⟩ := length_eq_one_iff.1 hone
    rw [hx] at h ⊢
    cases h
    exact fun i => mem_singleton
  · intro h
    have hnodup : s.ones.Nodup := nodup_range.filter _
    have hones : s.ones = [t] := by
      rw [← perm_singleton, perm_ext_iff_of_nodup hnodup (nodup_singleton _)]
      simpa using h
    have hone : s.numThreads = 1 := by
      rw [numThreads, hones]
      rfl
    rw [onlyOneContained, if_pos hone, hones]
    rfl

end ThreadSet

open ThreadSet (eq_none_iff getLsbD_any onlyOneContained_iff getLsbD_only mem_ones)

def WriteCounts (w : ℕ → ℕ) : Option AccountWriteLocks → Prop
  | none => ∀ t, w t = 0
  | some l => 0 < w l.threadId ∧ l.lockCount = w l.threadId % 2 ^ 32
      ∧ ∀ t, t ≠ l.threadId → w t = 0

def ReadCounts (r : ℕ → ℕ) : Option AccountReadLocks → Prop
  | none => ∀ t, r t = 0
  | some l => (∃ t, 0 < r t)
      ∧ ∀ t, l.lockCounts t = r t % 2 ^ 32 ∧ (l.threadSet.getLsbD t = true ↔ 0 < r t)

/-- The entry of an account counts its write locks `w` and its read locks `r` on `n` threads. -/
structure Represents (n : ℕ) (e : Option AccountLocks) (w r : ℕ → ℕ) : Prop where
  write : WriteCounts w (e.getD {}).writeLocks
  read : ReadCounts r (e.getD {}).readLocks
  nonempty : e ≠ some ⟨none, none⟩
  exclusive : ∀ t, 0 < w t → ∀ t', t' ≠ t → w t' = 0 ∧ r t' = 0
  bound : ∀ t, 0 < w t ∨ 0 < r t → t < n

def Free (w r : ℕ → ℕ) (write : Bool) (t : ℕ) : Prop :=
  ∀ t', t' ≠ t → w t' = 0 ∧ (write = true → r t' = 0)

namespace Represents

variable {n : ℕ} {e : Option AccountLocks} {w r : ℕ → ℕ} {t : ℕ}

lemma eq_of_pos {f : ℕ → ℕ} {i : ℕ} (hpos : 0 < f i) (hzero : ∀ t', t' ≠ t → f t' = 0) : i = t := by
  by_contra hne
  exact hpos.ne' (hzero i hne)

lemma onlyOneContained_eq {l : AccountReadLocks} (h : ReadCounts r (some l))
    (hfree : ∀ t', t' ≠ t → r t' = 0) : l.threadSet.onlyOneContained = some t := by
  obtain ⟨⟨t0, hpos⟩, hl⟩ := h
  rw [onlyOneContained_iff]
  intro i
  rw [(hl i).2]
  exact ⟨fun hi => eq_of_pos hi hfree, fun hi => hi ▸ eq_of_pos hpos hfree ▸ hpos⟩

lemma free_of_write (h : Represents n e w r) (write : Bool) (hpos : 0 < w t) : Free w r write t :=
  fun t' ht' => ⟨(h.exclusive t hpos t' ht').1, fun _ => (h.exclusive t hpos t' ht').2⟩

lemma free_iff_of_write (h : Represents n e w r) (write : Bool) {t0 : ℕ} (hpos : 0 < w t0) :
    t < n ∧ Free w r write t ↔ t = t0 := by
  constructor
  · rintro ⟨-, hfree⟩
    exact (eq_of_pos hpos fun t' ht' => (hfree t' ht').1).symm
  · rintro rfl
    exact ⟨h.bound t (.inl hpos), h.free_of_write write hpos⟩

theorem schedulableThreads (h : Represents n e w r) (hn : n ≤ 64) (write : Bool) :
    ∃ s, schedulableThreads n write e = .ok s
      ∧ ∀ t, s.getLsbD t = true ↔ t < n ∧ Free w r write t := by
  have hw := h.write
  have hr := h.read
  rcases e with _ | ⟨_ | wl, _ | rl⟩
  · refine ⟨_, rfl, fun t => ?_⟩
    rw [getLsbD_any hn]
    exact ⟨fun ht => ⟨ht, fun t' _ => ⟨hw t', fun _ => hr t'⟩⟩, And.left⟩
  · exact absurd rfl h.nonempty
  · cases write with
    | false =>
      refine ⟨_, rfl, fun t => ?_⟩
      rw [getLsbD_any hn]
      exact ⟨fun ht => ⟨ht, fun t' _ => ⟨hw t', nofun⟩⟩, And.left⟩
    | true =>
      refine ⟨_, rfl, fun t => ?_⟩
      have hfree : Free w r true t ↔ rl.threadSet.onlyOneContained = some t := by
        refine ⟨fun hfree => onlyOneContained_eq hr fun t' ht' => (hfree t' ht').2 rfl,
          fun hone t' ht' => ⟨hw t', fun _ => ?_⟩⟩
        have hmem := (hr.2 t').2
        rw [onlyOneContained_iff.1 hone] at hmem
        by_contra hne
        exact ht' (hmem.2 (Nat.pos_of_ne_zero hne))
      rw [hfree]
      rcases hone : rl.threadSet.onlyOneContained with _ | t0
      · simp [ThreadSet.none]
      · have hpos : 0 < r t0 := (hr.2 t0).2.1 ((onlyOneContained_iff.1 hone t0).2 rfl)
        have hlt := h.bound t0 (.inr hpos)
        rw [Option.map_some, Option.getD_some, getLsbD_only (hlt.trans_le hn),
          Option.some_inj]
        exact ⟨fun heq => ⟨heq ▸ hlt, heq.symm⟩, fun heq => heq.2.symm⟩
  · refine ⟨_, rfl, fun t => ?_⟩
    rw [getLsbD_only ((h.bound _ (.inl hw.1)).trans_le hn), h.free_iff_of_write write hw.1]
  · have hone := onlyOneContained_eq hr fun t' ht' => (h.exclusive _ hw.1 t' ht').2
    refine ⟨rl.threadSet, if_pos hone, fun t => ?_⟩
    rw [onlyOneContained_iff.1 hone, h.free_iff_of_write write hw.1]

lemma lockCountUp_mod (c : ℕ) : lockCountUp (c % 2 ^ 32) = (c + 1) % 2 ^ 32 := by
  rw [lockCountUp]
  omega

lemma lockCountDown_mod {c : ℕ} (hpos : 0 < c) : lockCountDown (c % 2 ^ 32) = (c - 1) % 2 ^ 32 := by
  rw [lockCountDown]
  omega

variable (h : Represents n e w r)
include h

lemma withWrite {e' : Option AccountLocks} {c : ℕ} (ht : t < n) (hfree : Free w r true t)
    (hw : WriteCounts (update w t c) (e'.getD {}).writeLocks)
    (hr : (e'.getD {}).readLocks = (e.getD {}).readLocks) (hne : e' ≠ some ⟨none, none⟩) :
    Represents n e' (update w t c) r := by
  have hzero : ∀ t', t' ≠ t → update w t c t' = 0 := fun t' ht' => by
    rw [update_of_ne ht', (hfree t' ht').1]
  have heq : ∀ t', 0 < update w t c t' → t' = t := fun t' hpos => eq_of_pos hpos hzero
  refine ⟨hw, hr ▸ h.read, hne, fun t0 hpos t' ht' => ?_, fun t0 hpos => ?_⟩
  · rw [heq t0 hpos] at ht'
    exact ⟨hzero t' ht', (hfree t' ht').2 rfl⟩
  · rcases hpos with hpos | hpos
    · rwa [heq t0 hpos]
    · exact h.bound t0 (.inr hpos)

theorem writeLock (ht : t < n) (hfree : Free w r true t) :
    ∃ e', AccountLocks.writeLock e t = .ok e'
      ∧ Represents n e' (update w t (w t + 1)) r := by
  have hw := h.write
  have hr := h.read
  rcases hl : e.getD {} with ⟨wl, rl⟩
  simp only [hl] at hw hr
  have hread : ¬ (rl.any fun l => l.threadSet.onlyOneContained ≠ some t) = true := by
    cases rl with
    | none => exact Bool.false_ne_true
    | some rl => simpa using onlyOneContained_eq hr fun t' ht' => (hfree t' ht').2 rfl
  have hother : ∀ t', t' ≠ t → update w t (w t + 1) t' = 0 := fun t' ht' => by
    rw [update_of_ne ht', (hfree t' ht').1]
  simp only [AccountLocks.writeLock, hl, if_neg hread]
  cases wl with
  | none =>
    refine ⟨_, rfl, h.withWrite ht hfree ⟨?_, ?_, hother⟩ (by rw [hl]; rfl) (by simp)⟩
    · simp
    · simp [hw t]
  | some wl =>
    obtain rfl : wl.threadId = t := eq_of_pos hw.1 fun t' ht' => (hfree t' ht').1
    simp only [ne_eq, not_true_eq_false, if_false]
    refine ⟨_, rfl, h.withWrite ht hfree ⟨?_, ?_, hother⟩ (by rw [hl]; rfl) (by simp)⟩
    · simp
    · rw [update_self, ← lockCountUp_mod, ← hw.2.1]

theorem writeUnlock (hpos : 0 < w t) (hlt : w t < 2 ^ 32) :
    ∃ e', writeUnlock e t = .ok e'
      ∧ Represents n e' (update w t (w t - 1)) r := by
  have hfree := h.free_of_write true hpos
  have ht := h.bound t (.inl hpos)
  have hw := h.write
  rcases e with _ | ⟨_ | wl, rl⟩
  · exact absurd (hw t) hpos.ne'
  · exact absurd (hw t) hpos.ne'
  · obtain ⟨-, hcount, hother⟩ : 0 < w wl.threadId ∧ wl.lockCount = w wl.threadId % 2 ^ 32
      ∧ ∀ t, t ≠ wl.threadId → w t = 0 := hw
    obtain rfl := eq_of_pos hpos hother
    have hdown : lockCountDown wl.lockCount = w wl.threadId - 1 := by
      rw [hcount, lockCountDown_mod hpos, Nat.mod_eq_of_lt (by omega)]
    have hzero : ∀ t', t' ≠ wl.threadId →
        update w wl.threadId (w wl.threadId - 1) t' = 0 := fun t' ht' => by
      rw [update_of_ne ht', hother t' ht']
    simp only [writeUnlock, ne_eq, not_true_eq_false, if_false, hdown]
    by_cases hlast : w wl.threadId - 1 = 0
    · rw [if_pos hlast]
      have hnone : ∀ t', update w wl.threadId (w wl.threadId - 1) t' = 0 := fun t' => by
        by_cases hne : t' = wl.threadId
        · rw [hne, update_self, hlast]
        · exact hzero t' hne
      cases rl with
      | none | some rl => exact ⟨_, rfl, h.withWrite ht hfree hnone rfl (by simp)⟩
    · rw [if_neg hlast]
      refine ⟨_, rfl, h.withWrite ht hfree ⟨?_, ?_, hzero⟩ rfl (by simp)⟩
      · show 0 < update w wl.threadId (w wl.threadId - 1) wl.threadId
        rw [update_self]
        omega
      · show w wl.threadId - 1
          = update w wl.threadId (w wl.threadId - 1) wl.threadId % 2 ^ 32
        rw [update_self, Nat.mod_eq_of_lt (by omega)]

lemma withRead {e' : Option AccountLocks} {c : ℕ} (ht : t < n) (hfree : Free w r false t)
    (hr : ReadCounts (update r t c) (e'.getD {}).readLocks)
    (hw : (e'.getD {}).writeLocks = (e.getD {}).writeLocks) (hne : e' ≠ some ⟨none, none⟩) :
    Represents n e' w (update r t c) := by
  refine ⟨hw ▸ h.write, hr, hne, fun t0 hpos t' ht' => ?_, fun t0 hpos => ?_⟩
  · rw [eq_of_pos hpos fun t' ht' => (hfree t' ht').1] at ht' hpos
    rw [update_of_ne ht']
    exact h.exclusive t hpos t' ht'
  · by_cases heq : t0 = t
    · rwa [heq]
    · rw [update_of_ne heq] at hpos
      exact h.bound t0 hpos

theorem readLock (hn : n ≤ 64) (ht : t < n) (hfree : Free w r false t) :
    ∃ e', AccountLocks.readLock e t = .ok e'
      ∧ Represents n e' w (update r t (r t + 1)) := by
  have hw := h.write
  have hr := h.read
  have ht64 : t < 64 := ht.trans_le hn
  rcases hl : e.getD {} with ⟨wl, rl⟩
  simp only [hl] at hw hr
  have hwrite : ¬ (wl.any fun l => l.threadId ≠ t) = true := by
    cases wl with
    | none => exact Bool.false_ne_true
    | some wl => simpa using eq_of_pos hw.1 fun t' ht' => (hfree t' ht').1
  have hpos : 0 < update r t (r t + 1) t := by
    rw [update_self]
    omega
  simp only [AccountLocks.readLock, hl, if_neg hwrite]
  cases rl with
  | none =>
    refine ⟨_, rfl, h.withRead ht hfree ⟨⟨t, hpos⟩, fun t' => ?_⟩ (by rw [hl]; rfl) (by simp)⟩
    rw [getLsbD_only ht64]
    by_cases heq : t' = t
    · subst heq
      simp [hr t']
    · simp [heq, hr t']
  | some rl =>
    obtain ⟨-, hcounts⟩ := hr
    refine ⟨_, rfl, h.withRead ht hfree ⟨⟨t, hpos⟩, fun t' => ?_⟩ (by rw [hl]; rfl) (by simp)⟩
    show update rl.lockCounts t (lockCountUp (rl.lockCounts t)) t'
        = update r t (r t + 1) t' % 2 ^ 32
      ∧ ((rl.threadSet.insert t).getLsbD t' = true ↔ _)
    rw [ThreadSet.getLsbD_insert ht64]
    by_cases heq : t' = t
    · subst heq
      rw [update_self, update_self, (hcounts t').1, lockCountUp_mod]
      exact ⟨rfl, fun _ => Nat.succ_pos _, fun _ => .inr rfl⟩
    · rw [update_of_ne heq, update_of_ne heq, (hcounts t').1,
        or_iff_left heq]
      exact ⟨rfl, (hcounts t').2⟩

theorem readUnlock (hn : n ≤ 64) (hpos : 0 < r t) (hlt : r t < 2 ^ 32) :
    ∃ e', readUnlock e t = .ok e'
      ∧ Represents n e' w (update r t (r t - 1)) := by
  have hfree : Free w r false t := fun t' ht' => ⟨by
    by_contra hne
    have := (h.exclusive t' (Nat.pos_of_ne_zero hne) t (Ne.symm ht')).2
    omega, nofun⟩
  have ht := h.bound t (.inr hpos)
  have ht64 : t < 64 := ht.trans_le hn
  have hr := h.read
  rcases e with _ | ⟨wl, _ | ⟨threadSet, lockCounts⟩⟩
  · exact absurd (hr t) hpos.ne'
  · exact absurd (hr t) hpos.ne'
  · obtain ⟨-, hcounts⟩ : _ ∧ ∀ t, lockCounts t = r t % 2 ^ 32
      ∧ (threadSet.getLsbD t = true ↔ 0 < r t) := hr
    have hdown : lockCountDown (lockCounts t) = r t - 1 := by
      rw [(hcounts t).1, lockCountDown_mod hpos, Nat.mod_eq_of_lt (by omega)]
    have hcontains : threadSet.contains t = true :=
      (ThreadSet.contains_iff ht64).2 ((hcounts t).2.2 hpos)
    have hcounts' : ∀ t', update lockCounts t (r t - 1) t'
        = update r t (r t - 1) t' % 2 ^ 32 := fun t' => by
      by_cases heq : t' = t
      · subst heq
        rw [update_self, update_self, Nat.mod_eq_of_lt (by omega)]
      · rw [update_of_ne heq, update_of_ne heq, (hcounts t').1]
    simp only [readUnlock, hcontains, not_true_eq_false, if_false, hdown]
    by_cases hlast : r t - 1 = 0
    · rw [if_pos hlast]
      have hremove : ∀ t', (threadSet.remove t).getLsbD t' = true
          ↔ 0 < update r t (r t - 1) t' := fun t' => by
        rw [ThreadSet.getLsbD_remove ht64, (hcounts t').2]
        by_cases heq : t' = t
        · simp [heq, hlast]
        · simp [heq]
      by_cases hempty : threadSet.remove t = ThreadSet.none
      · rw [if_pos hempty]
        have hnone : ∀ t', update r t (r t - 1) t' = 0 := fun t' => by
          have := eq_none_iff.1 hempty t'
          rw [Ne, hremove] at this
          omega
        cases wl with
        | none | some wl => exact ⟨_, rfl, h.withRead ht hfree hnone rfl (by simp)⟩
      · rw [if_neg hempty]
        obtain ⟨t', ht'⟩ : ∃ t', (threadSet.remove t).getLsbD t' = true := by
          by_contra hall
          push Not at hall
          exact hempty (eq_none_iff.2 hall)
        exact ⟨_, rfl, h.withRead ht hfree ⟨⟨t', (hremove t').1 ht'⟩, fun t' =>
          ⟨hcounts' t', hremove t'⟩⟩ rfl (by simp)⟩
    · rw [if_neg hlast]
      have hpos' : 0 < update r t (r t - 1) t := by
        rw [update_self]
        omega
      refine ⟨_, rfl, h.withRead ht hfree ⟨⟨t, hpos'⟩, fun t' => ⟨hcounts' t', ?_⟩⟩ rfl (by simp)⟩
      rw [(hcounts t').2]
      by_cases heq : t' = t
      · subst heq
        exact ⟨fun _ => hpos', fun _ => hpos⟩
      · rw [update_of_ne heq]

lemma eq_writeLocks (hpos : 0 < w t) (hw : ∀ t', t' ≠ t → w t' = 0) (hr : ∀ t', r t' = 0) :
    e = some ⟨some ⟨t, w t % 2 ^ 32⟩, none⟩ := by
  have hwrite := h.write
  have hread := h.read
  rcases e with _ | ⟨_ | ⟨t0, c⟩, _ | rl⟩
  · exact absurd (hwrite t) hpos.ne'
  · exact absurd (hwrite t) hpos.ne'
  · exact absurd (hwrite t) hpos.ne'
  · obtain ⟨hpos', hc, -⟩ : 0 < w t0 ∧ c = w t0 % 2 ^ 32 ∧ _ := hwrite
    obtain rfl := eq_of_pos hpos' hw
    rw [hc]
  · obtain ⟨⟨t', hpos'⟩, -⟩ := hread
    exact absurd (hr t') hpos'.ne'

end Represents

namespace ThreadAwareAccountLocks

variable {κ : Type} [DecidableEq κ] {s : ThreadAwareAccountLocks κ} {t : ℕ}

lemma foldlM_update {f : Option AccountLocks → ℕ → Except LockPanic (Option AccountLocks)}
    {P : κ → ℕ → Option AccountLocks → Prop} (accounts : List κ) (h0 : ∀ a, P a 0 (s.locks a))
    (hstep : ∀ a i e, i < accounts.count a → P a i e → ∃ e', f e t = .ok e' ∧ P a (i + 1) e') :
    ∃ s', accounts.foldlM (update f t) s = .ok s' ∧ s'.numThreads = s.numThreads
      ∧ ∀ a, P a (accounts.count a) (s'.locks a) := by
  induction accounts generalizing s P with
  | nil => exact ⟨s, rfl, rfl, h0⟩
  | cons a accounts ih =>
    have hcount : ∀ b, (a :: accounts).count b = accounts.count b + if b = a then 1 else 0 := by
      intro b
      by_cases hb : b = a
      · simp [hb]
      · simp [hb, count_cons_of_ne (Ne.symm hb)]
    obtain ⟨e, he, hP⟩ := hstep a 0 _ (by simp) (h0 a)
    obtain ⟨s', hs', hn, hall⟩ := @ih { s with locks := Function.update s.locks a e }
      (fun b i => P b (i + if b = a then 1 else 0))
      (fun b => by
        by_cases hb : b = a
        · subst hb
          simpa using hP
        · simpa [hb] using h0 b)
      fun b i e' hlt hP' => by
        rw [Nat.add_right_comm]
        exact hstep b _ e' (by rw [hcount]; omega) hP'
    refine ⟨s', ?_, hn, fun b => ?_⟩
    · rw [foldlM_cons, update, he]
      exact hs'
    · rw [hcount]
      exact hall b

def Counts (s : ThreadAwareAccountLocks κ) (W R : κ → ℕ → ℕ) : Prop :=
  ∀ a, Represents s.numThreads (s.locks a) (W a) (R a)

def addCounts (W : κ → ℕ → ℕ) (accounts : List κ) (t : ℕ) : κ → ℕ → ℕ :=
  fun a => Function.update (W a) t (W a t + accounts.count a)

variable {W R : κ → ℕ → ℕ} {writes reads : List κ}

omit [DecidableEq κ] in
lemma counts_new (n : ℕ) :
    Counts (κ := κ) ⟨n, fun _ => none⟩ (fun _ _ => 0) fun _ _ => 0 :=
  fun _ => ⟨fun _ => rfl, fun _ => rfl, by simp, fun _ hpos => absurd hpos (lt_irrefl 0),
    fun _ hpos => absurd hpos (by simp)⟩

theorem Counts.lockAccounts (h : s.Counts W R) (hn : s.numThreads ≤ 64) (ht : t < s.numThreads)
    (hwrites : ∀ a ∈ writes, Free (W a) (R a) true t)
    (hreads : ∀ a ∈ reads, Free (W a) (R a) false t) :
    ∃ s', s.lockAccounts writes reads t = .ok s' ∧ s'.numThreads = s.numThreads
      ∧ s'.Counts (addCounts W writes t) (addCounts R reads t) := by
  obtain ⟨s1, hs1, hn1, h1⟩ := foldlM_update (s := s) (t := t) (f := writeLock)
    (P := fun a i e => Represents s.numThreads e (Function.update (W a) t (W a t + i)) (R a))
    writes (fun a => by simpa using h a) fun a i e hlt hP => by
      have ha : a ∈ writes := count_pos_iff.1 (by omega)
      obtain ⟨e', he', hrep⟩ := hP.writeLock ht fun t' ht' => by
        rw [update_of_ne ht']
        exact hwrites a ha t' ht'
      refine ⟨e', he', ?_⟩
      rwa [update_self, update_idem, Nat.add_assoc] at hrep
  obtain ⟨s2, hs2, hn2, h2⟩ := foldlM_update (s := s1) (t := t) (f := readLock)
    (P := fun a i e => Represents s.numThreads e (addCounts W writes t a)
      (Function.update (R a) t (R a t + i)))
    reads (fun a => by simpa [addCounts] using h1 a) fun a i e hlt hP => by
      have ha : a ∈ reads := count_pos_iff.1 (by omega)
      obtain ⟨e', he', hrep⟩ := hP.readLock hn ht fun t' ht' => by
        rw [addCounts, update_of_ne ht']
        exact ⟨(hreads a ha t' ht').1, nofun⟩
      refine ⟨e', he', ?_⟩
      rwa [update_self, update_idem, Nat.add_assoc] at hrep
  refine ⟨s2, ?_, hn2.trans hn1, fun a => ?_⟩
  · rw [ThreadAwareAccountLocks.lockAccounts, if_neg (Nat.not_le.2 ht)]
    exact Except.bind_eq_ok.2 ⟨s1, hs1, hs2⟩
  · rw [hn2, hn1]
    simpa [addCounts] using h2 a

theorem Counts.unlockAccounts (h : s.Counts (addCounts W writes t) (addCounts R reads t))
    (hn : s.numThreads ≤ 64) (hwrites : ∀ a, W a t + writes.count a < 2 ^ 32)
    (hreads : ∀ a, R a t + reads.count a < 2 ^ 32) :
    ∃ s', s.unlockAccounts writes reads t = .ok s' ∧ s'.numThreads = s.numThreads
      ∧ s'.Counts W R := by
  obtain ⟨s1, hs1, hn1, h1⟩ := foldlM_update (s := s) (t := t) (f := writeUnlock)
    (P := fun a i e => Represents s.numThreads e
      (Function.update (W a) t (W a t + (writes.count a - i))) (addCounts R reads t a))
    writes h fun a i e hlt hP => by
      have hbound := hwrites a
      have hget : Function.update (W a) t (W a t + (writes.count a - i)) t
        = W a t + (writes.count a - i) := update_self _ _ _
      obtain ⟨e', he', hrep⟩ := hP.writeUnlock (t := t) (by omega) (by omega)
      refine ⟨e', he', ?_⟩
      rw [hget, update_idem] at hrep
      convert hrep using 3
      omega
  obtain ⟨s2, hs2, hn2, h2⟩ := foldlM_update (s := s1) (t := t) (f := readUnlock)
    (P := fun a i e => Represents s.numThreads e (W a)
      (Function.update (R a) t (R a t + (reads.count a - i))))
    reads (fun a => by simpa [addCounts] using h1 a) fun a i e hlt hP => by
      have hbound := hreads a
      have hget : Function.update (R a) t (R a t + (reads.count a - i)) t
        = R a t + (reads.count a - i) := update_self _ _ _
      obtain ⟨e', he', hrep⟩ := hP.readUnlock (t := t) hn (by omega) (by omega)
      refine ⟨e', he', ?_⟩
      rw [hget, update_idem] at hrep
      convert hrep using 3
      omega
  refine ⟨s2, Except.bind_eq_ok.2 ⟨s1, hs1, hs2⟩, hn2.trans hn1, fun a => ?_⟩
  rw [hn2, hn1]
  simpa using h2 a

omit [DecidableEq κ] in
lemma Counts.narrow (h : s.Counts W R) (hn : s.numThreads ≤ 64) (write : Bool)
    (accounts : List κ) (threads : ThreadSet)
    (hthreads : ∀ t, threads.getLsbD t = true → t < s.numThreads) :
    ∃ r, s.narrow write threads accounts = .ok r
      ∧ match r with
        | none => ∀ t, threads.getLsbD t = true → ¬ ∀ a ∈ accounts, Free (W a) (R a) write t
        | some left => ∀ t, left.getLsbD t = true
            ↔ threads.getLsbD t = true ∧ ∀ a ∈ accounts, Free (W a) (R a) write t := by
  induction accounts generalizing threads with
  | nil => exact ⟨some threads, rfl, fun t => by simp⟩
  | cons a accounts ih =>
    obtain ⟨sched, hsched, hmem⟩ := (h a).schedulableThreads hn write
    have hand : ∀ t, (threads &&& sched).getLsbD t = true
        ↔ threads.getLsbD t = true ∧ Free (W a) (R a) write t := fun t => by
      rw [BitVec.getLsbD_and, Bool.and_eq_true, hmem]
      exact ⟨fun ht => ⟨ht.1, ht.2.2⟩, fun ht => ⟨ht.1, hthreads t ht.1, ht.2⟩⟩
    simp only [ThreadAwareAccountLocks.narrow, hsched, bind, Except.bind]
    split_ifs with hempty
    · refine ⟨none, rfl, fun t ht hall => ?_⟩
      exact eq_none_iff.1 hempty t ((hand t).2 ⟨ht, hall a mem_cons_self⟩)
    · obtain ⟨r, hr, hcase⟩ := ih (threads &&& sched) fun t ht => hthreads t ((hand t).1 ht).1
      refine ⟨r, hr, ?_⟩
      cases r with
      | none =>
        intro t ht hall
        obtain ⟨ha, hall⟩ := forall_mem_cons.1 hall
        exact hcase t ((hand t).2 ⟨ht, ha⟩) hall
      | some left =>
        intro t
        rw [hcase t, hand, forall_mem_cons, and_assoc]

def Takes (W R : κ → ℕ → ℕ) (writes reads : List κ) (t : ℕ) : Prop :=
  (∀ a ∈ writes, Free (W a) (R a) true t) ∧ ∀ a ∈ reads, Free (W a) (R a) false t

omit [DecidableEq κ] in
variable (writes reads) in
lemma Counts.accountsSchedulableThreads (h : s.Counts W R) (hn : s.numThreads ≤ 64) :
    ∃ r, s.accountsSchedulableThreads writes reads = .ok r
      ∧ ∀ t, (t < s.numThreads ∧ Takes W R writes reads t)
        ↔ ∃ threads, r = some threads ∧ threads.getLsbD t = true := by
  obtain ⟨r1, hr1, hcase1⟩ := h.narrow hn true writes (ThreadSet.any s.numThreads) fun t ht =>
    (getLsbD_any hn).1 ht
  cases r1 with
  | none =>
    refine ⟨none, by rw [ThreadAwareAccountLocks.accountsSchedulableThreads, hr1]; rfl,
      fun t => ⟨fun ht => ?_, nofun⟩⟩
    exact absurd ht.2.1 (hcase1 t ((getLsbD_any hn).2 ht.1))
  | some threads =>
    have hmem : ∀ t, threads.getLsbD t = true
        ↔ t < s.numThreads ∧ ∀ a ∈ writes, Free (W a) (R a) true t := fun t => by
      rw [hcase1 t, getLsbD_any hn]
    obtain ⟨r2, hr2, hcase2⟩ := h.narrow hn false reads threads fun t ht => ((hmem t).1 ht).1
    refine ⟨r2, by rw [ThreadAwareAccountLocks.accountsSchedulableThreads, hr1]; exact hr2,
      fun t => ?_⟩
    cases r2 with
    | none =>
      refine ⟨fun ht => ?_, nofun⟩
      exact absurd ht.2.2 (hcase2 t ((hmem t).2 ⟨ht.1, ht.2.1⟩))
    | some left =>
      simp only [Option.some.injEq, exists_eq_left', hcase2 t, hmem, Takes, and_assoc]

variable (writes reads) in
/-- The lock is tried with the threads on which it has no conflict: it is taken on one of them, or
nothing changes where there is none. -/
theorem Counts.tryLockAccounts (h : s.Counts W R) (hn : s.numThreads ≤ 64) (allowed : ThreadSet)
    {threadSelector : ThreadSet → ℕ}
    (hselect : ∀ threads, threads ≠ ThreadSet.none →
      threads.getLsbD (threadSelector threads) = true) :
    ∃ offered : ThreadSet,
      (∀ t, offered.getLsbD t = true
        ↔ t < s.numThreads ∧ allowed.getLsbD t = true ∧ Takes W R writes reads t)
      ∧ if offered = ThreadSet.none then
          ∃ e, s.tryLockAccounts writes reads allowed threadSelector = .ok (s, .error e)
        else ∃ s', s.tryLockAccounts writes reads allowed threadSelector
            = .ok (s', .ok (threadSelector offered))
          ∧ s'.numThreads = s.numThreads
          ∧ s'.Counts (addCounts W writes (threadSelector offered))
            (addCounts R reads (threadSelector offered)) := by
  obtain ⟨r, hr, hmem⟩ := h.accountsSchedulableThreads writes reads hn
  cases r with
  | none =>
    refine ⟨ThreadSet.none, fun t => ⟨fun ht => absurd ht (eq_none_iff.1 rfl t),
      fun ht => ?_⟩, ?_⟩
    · obtain ⟨threads, hnone, -⟩ := (hmem t).1 ⟨ht.1, ht.2.2⟩
      cases hnone
    · refine ⟨.multipleConflicts, ?_⟩
      rw [ThreadAwareAccountLocks.tryLockAccounts, hr]
      rfl
  | some schedulable =>
    have hoffered : ∀ t, (schedulable &&& allowed).getLsbD t = true
        ↔ t < s.numThreads ∧ allowed.getLsbD t = true ∧ Takes W R writes reads t := fun t => by
      rw [BitVec.getLsbD_and, Bool.and_eq_true]
      have := hmem t
      simp only [Option.some.injEq, exists_eq_left'] at this
      tauto
    refine ⟨schedulable &&& allowed, hoffered, ?_⟩
    simp only [ThreadAwareAccountLocks.tryLockAccounts, hr, bind, Except.bind]
    split_ifs with hempty
    · exact ⟨_, rfl⟩
    · obtain ⟨hlt, -, htakes⟩ := (hoffered _).1 (hselect _ hempty)
      obtain ⟨s', hs', hn', hcounts⟩ := h.lockAccounts hn hlt htakes.1 htakes.2
      exact ⟨s', by rw [hs'], hn', hcounts⟩

end ThreadAwareAccountLocks

section Session

open ThreadAwareAccountLocks (Counts addCounts Takes unlockAccounts writeUnlockAccount)

variable {κ : Type} [DecidableEq κ]

/-- The locks of a thread on an account among the outstanding ones; `accounts` are those that a lock
writes, or reads. -/
def lockCount (accounts : HeldLock κ → List κ) (held : List (HeldLock κ)) (a : κ) (t : ℕ) : ℕ :=
  (held.map fun lock => if lock.threadId = t then (accounts lock).count a else 0).sum

variable {accounts : HeldLock κ → List κ} {held : List (HeldLock κ)} {a : κ} {t : ℕ}

lemma lockCount_eq_zero :
    lockCount accounts held a t = 0 ↔ ∀ lock ∈ held, lock.threadId = t → a ∉ accounts lock := by
  rw [lockCount, sum_eq_zero_iff, forall_mem_map]
  refine forall₂_congr fun lock _ => ?_
  split_ifs with h
  · rw [count_eq_zero]
    exact ⟨fun ha _ => ha, fun ha => ha h⟩
  · exact ⟨fun _ ht => absurd ht h, fun _ => rfl⟩

lemma lockCount_cons (lock : HeldLock κ) : lockCount accounts (lock :: held)
    = addCounts (lockCount accounts held) (accounts lock) lock.threadId := by
  funext a t
  rw [lockCount, map_cons, sum_cons, addCounts, Nat.add_comm]
  by_cases h : lock.threadId = t
  · subst h
    rw [if_pos rfl, update_self]
    rfl
  · rw [if_neg h, update_of_ne (Ne.symm h)]
    rfl

lemma lockCount_perm {held' : List (HeldLock κ)} (h : held.Perm held') :
    lockCount accounts held = lockCount accounts held' := by
  funext a t
  exact (h.map _).sum_eq

lemma lockCount_concat (lock : HeldLock κ) : lockCount accounts (held ++ [lock])
    = addCounts (lockCount accounts held) (accounts lock) lock.threadId := by
  rw [lockCount_perm (perm_append_singleton lock held), lockCount_cons]

lemma lockCount_eraseIdx {index : ℕ} {lock : HeldLock κ} (h : held[index]? = some lock) :
    lockCount accounts held
      = addCounts (lockCount accounts (held.eraseIdx index)) (accounts lock) lock.threadId := by
  obtain ⟨hlt, rfl⟩ := List.getElem?_eq_some_iff.1 h
  rw [← lockCount_cons, lockCount_perm (getElem_cons_eraseIdx_perm hlt)]

/-- Thread `t` could take the locks: no outstanding lock on another thread conflicts. -/
def CouldTake (held : List (HeldLock κ)) (writes reads : List κ) (t : ℕ) : Prop :=
  ∀ lock ∈ held, lock.threadId ≠ t →
    (∀ a ∈ writes, a ∉ lock.writes ∧ a ∉ lock.reads) ∧ ∀ a ∈ reads, a ∉ lock.writes

lemma couldTake_iff {writes reads : List κ} : CouldTake held writes reads t
    ↔ Takes (lockCount HeldLock.writes held) (lockCount HeldLock.reads held) writes reads t := by
  simp only [CouldTake, Takes, Free, lockCount_eq_zero]
  constructor
  · intro h
    refine ⟨fun a ha t' ht' => ⟨fun lock hlock heq => ?_, fun _ lock hlock heq => ?_⟩,
      fun a ha t' ht' => ⟨fun lock hlock heq => ?_, nofun⟩⟩
    · exact ((h lock hlock (heq ▸ ht')).1 a ha).1
    · exact ((h lock hlock (heq ▸ ht')).1 a ha).2
    · exact (h lock hlock (heq ▸ ht')).2 a ha
  · rintro ⟨hwrites, hreads⟩ lock hlock hne
    refine ⟨fun a ha => ⟨?_, ?_⟩, fun a ha => ?_⟩
    · exact (hwrites a ha _ hne).1 lock hlock rfl
    · exact (hwrites a ha _ hne).2 trivial lock hlock rfl
    · exact (hreads a ha _ hne).1 lock hlock rfl

def Exclusive (held : List (HeldLock κ)) : Prop :=
  ∀ lock ∈ held, ∀ a ∈ lock.writes, ∀ lock' ∈ held, a ∈ lock'.writes ∨ a ∈ lock'.reads →
    lock'.threadId = lock.threadId

namespace LockSession

structure Inv (numThreads : ℕ) (s : LockSession κ) : Prop where
  numThreads_eq : s.table.numThreads = numThreads
  counts : s.table.Counts (lockCount writes s.held) (lockCount reads s.held)

variable {s : LockSession κ} {n : ℕ}

lemma Inv.exclusive (h : s.Inv n) : Exclusive s.held := by
  intro lock hlock a ha lock' hlock' hmem
  by_contra hne
  have hpos : 0 < lockCount writes s.held a lock.threadId := by
    rw [Nat.pos_iff_ne_zero, Ne, lockCount_eq_zero]
    exact fun hall => hall lock hlock rfl ha
  obtain ⟨hw, hr⟩ := (h.counts a).exclusive _ hpos _ hne
  rw [lockCount_eq_zero] at hw hr
  exact hmem.elim (hw lock' hlock' rfl) (hr lock' hlock' rfl)

lemma Inv.empty (h : s.Inv n) (hnil : s.held = []) (a : κ) : s.table.locks a = none := by
  have hrep := h.counts a
  rw [hnil] at hrep
  have hw := hrep.write
  have hr := hrep.read
  rcases he : s.table.locks a with _ | ⟨_ | wl, _ | rl⟩ <;> rw [he] at hw hr
  · exact absurd he hrep.nonempty
  · obtain ⟨t, hpos⟩ := hr.1
    exact absurd hpos (lt_irrefl 0)
  · exact absurd hw.1 (lt_irrefl 0)
  · exact absurd hw.1 (lt_irrefl 0)

/-- A released lock has fewer than `2 ^ 32` write locks, and read locks, of its thread on every
account. -/
def Countable (s : LockSession κ) : LockCall κ → Prop
  | .tryLock _ _ _ threadSelector =>
    ∀ threads, threads ≠ ThreadSet.none → threads.getLsbD (threadSelector threads) = true
  | .unlock _ => ∀ a t, lockCount writes s.held a t < 2 ^ 32
      ∧ lockCount reads s.held a t < 2 ^ 32

theorem Inv.step (h : s.Inv n) (hn : n ≤ 64) {call : LockCall κ} (hcall : s.Countable call) :
    ∃ s' o, s.step call = .ok (s', o) ∧ s'.Inv n := by
  have hn' : s.table.numThreads ≤ 64 := h.numThreads_eq.trans_le hn
  cases call with
  | tryLock writes reads allowed threadSelector =>
    obtain ⟨offered, -, hcase⟩ := h.counts.tryLockAccounts writes reads hn'
      allowed hcall
    rw [LockSession.step]
    split_ifs at hcase with hempty
    · obtain ⟨e, he⟩ := hcase
      rw [he]
      exact ⟨s, _, rfl, h⟩
    · obtain ⟨table, htable, hnum, hcounts⟩ := hcase
      rw [htable]
      refine ⟨_, _, rfl, hnum.trans h.numThreads_eq, ?_⟩
      rw [lockCount_concat, lockCount_concat]
      exact hcounts
  | unlock index =>
    rw [LockSession.step]
    rcases hlock : s.held[index]? with _ | lock
    · exact ⟨s, [], rfl, h⟩
    · have hcounts := h.counts
      rw [lockCount_eraseIdx hlock, lockCount_eraseIdx hlock] at hcounts
      have hbound : ∀ (accounts : HeldLock κ → List κ) a,
          lockCount accounts s.held a lock.threadId
            = lockCount accounts (s.held.eraseIdx index) a lock.threadId
              + (accounts lock).count a := fun accounts a => by
        rw [lockCount_eraseIdx hlock, addCounts, update_self]
      obtain ⟨table, htable, hnum, hcounts'⟩ := hcounts.unlockAccounts hn'
        (fun a => hbound writes a ▸ (hcall a _).1)
        (fun a => hbound reads a ▸ (hcall a _).2)
      refine ⟨⟨table, s.held.eraseIdx index⟩, [], ?_, hnum.trans h.numThreads_eq, hcounts'⟩
      simp only [htable]
      rfl

/-- Along every run, as long as no thread has `2 ^ 32` locks of a kind on an account when a lock is
released: no assertion fails, written accounts are locked on one thread only, the table is empty when
nothing is outstanding, and a lock is taken just if some allowed thread can, on one that the selector
is offered among all these; otherwise nothing changes. -/
theorem threadAware_locks_exclusive (n : ℕ) (hn : 0 < n ∧ n ≤ maxThreads)
    (calls : List (LockCall κ)) :
    ∃ table, ThreadAwareAccountLocks.new (κ := κ) n = .ok table ∧
      (Guarded step Countable ⟨table, []⟩ calls →
        ∃ s o, run step ⟨table, []⟩ calls = .ok (s, o)
          ∧ Exclusive s.held
          ∧ (s.held = [] → ∀ a, s.table.locks a = none)
          ∧ ∀ (writes reads : List κ) (allowed : ThreadSet) (threadSelector : ThreadSet → ℕ),
            (∀ threads, threads ≠ ThreadSet.none →
              threads.getLsbD (threadSelector threads) = true) →
            ∃ offered : ThreadSet,
              (∀ t, offered.getLsbD t = true
                ↔ t < n ∧ allowed.getLsbD t = true ∧ CouldTake s.held writes reads t)
              ∧ if offered = ThreadSet.none then
                  ∃ e, s.table.tryLockAccounts writes reads allowed threadSelector
                    = .ok (s.table, .error e)
                else ∃ table', s.table.tryLockAccounts writes reads allowed threadSelector
                  = .ok (table', .ok (threadSelector offered))) := by
  refine ⟨⟨n, fun _ => none⟩, if_pos hn, fun hG => ?_⟩
  obtain ⟨s, o, hrun, hinv⟩ := run_ok (P := fun _ _ => Inv n)
    ⟨rfl, ThreadAwareAccountLocks.counts_new n⟩ (fun _ _ s call h hcall => h.step hn.2 hcall) hG
  refine ⟨s, o, hrun, hinv.exclusive, hinv.empty, fun writes reads allowed threadSelector hsel => ?_⟩
  obtain ⟨offered, hoffered, hcase⟩ := hinv.counts.tryLockAccounts writes reads
    (hinv.numThreads_eq.trans_le hn.2) allowed hsel
  refine ⟨offered, fun t => ?_, ?_⟩
  · rw [hoffered, hinv.numThreads_eq, couldTake_iff]
  · split_ifs at hcase ⊢
    · exact hcase
    · obtain ⟨table', htable, -⟩ := hcase
      exact ⟨table', htable⟩

def firstThread (threads : ThreadSet) : ℕ := threads.ones.headD 0

lemma getLsbD_firstThread (threads : ThreadSet) (h : threads ≠ ThreadSet.none) :
    threads.getLsbD (firstThread threads) = true := by
  rw [← mem_ones, firstThread]
  rcases hones : threads.ones with _ | ⟨t, ts⟩
  · refine absurd (eq_none_iff.2 fun i hi => ?_) h
    rw [← mem_ones, hones] at hi
    cases hi
  · exact mem_cons_self

lemma held_tryLock {s' : LockSession κ} {writes reads : List κ} {allowed : ThreadSet}
    {threadSelector : ThreadSet → ℕ} {o : List (Except TryLockError ℕ)}
    (h : s.step (.tryLock writes reads allowed threadSelector) = .ok (s', o)) :
    s'.held = s.held ∨ ∃ t, s'.held = s.held ++ [⟨writes, reads, t⟩] := by
  simp only [step, Except.bind_eq_ok, Prod.exists] at h
  obtain ⟨table, result, -, h⟩ := h
  cases result with
  | error e =>
    cases h
    exact .inl rfl
  | ok t =>
    cases h
    exact .inr ⟨t, rfl⟩

/-- Two threads and a lock that is taken and released. -/
theorem threadAware_locks_released :
    ∃ s o, run step ⟨⟨2, fun _ => none⟩, []⟩
        [.tryLock [1] [2] (ThreadSet.any 2) firstThread, .unlock 0] = .ok (s, o)
      ∧ Exclusive (κ := ℕ) s.held := by
  have hG : Guarded step Countable (⟨⟨2, fun _ => none⟩, []⟩ : LockSession ℕ)
      [.tryLock [1] [2] (ThreadSet.any 2) firstThread, .unlock 0] := by
    refine ⟨getLsbD_firstThread, fun s' o hs' => ⟨fun a t => ?_, fun _ _ _ => trivial⟩⟩
    have hsingle : ∀ b : ℕ, count a [b] < 2 ^ 32 := fun b =>
      count_le_length.trans_lt (by simp)
    rcases held_tryLock hs' with heq | ⟨t', heq⟩ <;> rw [heq]
    · exact ⟨by simp [lockCount], by simp [lockCount]⟩
    · simp only [lockCount, nil_append, map_singleton, sum_singleton]
      split_ifs
      · exact ⟨hsingle 1, hsingle 2⟩
      · exact ⟨by decide, by decide⟩
  obtain ⟨table, htable, h⟩ := threadAware_locks_exclusive (κ := ℕ) 2 (by decide)
    [.tryLock [1] [2] (ThreadSet.any 2) firstThread, .unlock 0]
  cases htable
  obtain ⟨s, o, hrun, hexclusive, -⟩ := h hG
  exact ⟨s, o, hrun, hexclusive⟩

lemma wraps_of_mod {k : ℕ} (hlt : 1 < k) (hm : k % 2 ^ 32 = 1) :
    run step (⟨⟨1, fun _ => none⟩, []⟩ : LockSession ℕ)
      [.tryLock (replicate k 0) [] (ThreadSet.any 1) firstThread, .unlock 0]
      = .error .noWriteLock := by
  obtain ⟨m, rfl⟩ := Nat.exists_eq_add_of_le' hlt
  obtain ⟨offered, hoffered, hcase⟩ := Counts.tryLockAccounts (replicate (m + 2) 0) []
    (ThreadAwareAccountLocks.counts_new 1) (by decide) (ThreadSet.any 1) getLsbD_firstThread
  have hne : offered ≠ ThreadSet.none := fun heq => by
    refine eq_none_iff.1 heq 0 ((hoffered 0).2 ⟨Nat.one_pos, by decide, ?_, nofun⟩)
    exact fun a _ t' _ => ⟨rfl, fun _ => rfl⟩
  have hthread : firstThread offered = 0 :=
    Nat.lt_one_iff.1 ((hoffered _).1 (getLsbD_firstThread offered hne)).1
  rw [if_neg hne, hthread] at hcase
  obtain ⟨table, htable, -, hcounts⟩ := hcase
  have hentry := (hcounts 0).eq_writeLocks (t := 0) (by simp [addCounts])
    (fun t ht => update_of_ne ht _ _) (by simp [addCounts])
  rw [addCounts, update_self, count_replicate_self, Nat.zero_add, hm] at hentry
  -- the first release removes the entry, the second finds none
  have hunlock : table.unlockAccounts (replicate (m + 2) 0) [] 0 = .error .noWriteLock := by
    rw [unlockAccounts, replicate_succ, replicate_succ, foldlM_cons,
      writeUnlockAccount, ThreadAwareAccountLocks.update, hentry]
    rfl
  rw [run, step, htable]
  show ((table.unlockAccounts (replicate (m + 2) 0) [] 0 >>= _) >>= _) >>= _ = _
  rw [hunlock]
  rfl

/-- With `2 ^ 32 + 1` write locks of one account the count has wrapped to 1, and releasing them
fails. -/
theorem lock_count_wraps :
    run step (⟨⟨1, fun _ => none⟩, []⟩ : LockSession ℕ)
      [.tryLock (List.replicate (2 ^ 32 + 1) 0) [] (ThreadSet.any 1) firstThread, .unlock 0]
      = .error .noWriteLock :=
  wraps_of_mod (by decide) (by decide)

end LockSession

end Session

end BlackBull
