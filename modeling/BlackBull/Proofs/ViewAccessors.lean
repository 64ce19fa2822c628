import BlackBull.Proofs.ViewFrame

/-!
# What the accessors of a view read

The accessors trust the frame.
-/

namespace BlackBull.TransactionView

open AddressTableLookupIterator List TransactionConfigFrame View SvmInstruction
open InstructionsIterator (forLegacyAndV0 forV1)

variable {b : Slice} {o o' n size mask bit k : ℕ} {tx : Transaction} {f : TransactionFrame}
  {it : InstructionsIterator} {ix : SvmInstruction} {v : View}

lemma asU16_eq (h : n < 2 ^ 16) : asU16 n = n := Nat.mod_eq_of_lt h

lemma asU16_le : asU16 n ≤ n := Nat.mod_le _ _

lemma modify_ok {g : ℕ → ℕ} {u : PUnit} : (modify g : ReadM PUnit) o = .ok (u, o') ↔ o' = g o :=
  @set_ok o o' (g o) u

lemma drain_ok {σ α : Type} {next : σ → Result (Option (α × σ))} {Yields : σ → List α → Prop}
    (hnil : ∀ s, Yields s [] → next s = .ok none)
    (hcons : ∀ s a as, Yields s (a :: as) → ∃ s', next s = .ok (some (a, s')) ∧ Yields s' as)
    {fuel : ℕ} {s : σ} {as : List α} (h : Yields s as) (hfuel : as.length < fuel) :
    drain next fuel s = .ok as := by
  induction as generalizing fuel s with
  | nil =>
    obtain ⟨k, rfl⟩ : ∃ k, fuel = k + 1 := ⟨fuel - 1, by omega⟩
    rw [drain, hnil s h]
    rfl
  | cons a as ih =>
    obtain ⟨s', hnext, h'⟩ := hcons s a as h
    rw [length_cons] at hfuel
    obtain ⟨k, rfl⟩ : ∃ k, fuel = k + 1 := ⟨fuel - 1, by omega⟩
    rw [drain, hnext]
    exact Except.bind_of_ok (ih h' (by omega))

lemma uncheckedReadSliceData_of_at {w : List UInt8} (h : At b.bytes o w) :
    uncheckedReadSliceData b w.length o = .ok (w, o + w.length) := by
  unfold uncheckedReadSliceData
  rw [rawSlice_of_at h, wrappingAdd_eq (show o + w.length ≤ b.length from h.le)]
  rfl

lemma forLegacyAndV0_of_at (h : At b.bytes o ix.encode) :
    forLegacyAndV0 b ix.frame o = .ok (ix, o + ix.encode.length) := by
  obtain ⟨hp, hacc, hdata⟩ := at_encode.1 h
  obtain ⟨hatn, hacc⟩ := at_append.1 hacc
  obtain ⟨hatm, hdata⟩ := at_append.1 hdata
  have hn : wrappingAdd (o + 1) ix.frame.numAccountsLen
      = o + 1 + (compactU16 ix.accounts.length).length := wrappingAdd_eq hatn.le
  have hm : wrappingAdd (o + 1 + (shortVec ix.accounts).length) ix.frame.dataLenLen
      = o + 1 + (shortVec ix.accounts).length + (compactU16 ix.data.length).length :=
    wrappingAdd_eq hatm.le
  have hstop : o + 1 + (shortVec ix.accounts).length + (shortVec ix.data).length
      = o + ix.encode.length := by
    rw [length_encode]
    omega
  have hdata' := uncheckedReadSliceData_of_at hdata
  have hacc' := uncheckedReadSliceData_of_at hacc
  rw [add_length_shortVec] at hacc'
  rw [add_length_shortVec, hstop] at hdata'
  refine bind_ok.2 ⟨_, _, uncheckedReadByte_ok.2 ⟨hp, rfl⟩, ?_⟩
  refine bind_ok.2 ⟨(), _, modify_ok.2 hn.symm, ?_⟩
  refine bind_ok.2 ⟨_, _, hacc', ?_⟩
  refine bind_ok.2 ⟨(), _, modify_ok.2 hm.symm, ?_⟩
  exact bind_ok.2 ⟨_, _, hdata', rfl⟩

def YieldsLegacyAndV0 (b : Slice) (it : InstructionsIterator) (ixs : List SvmInstruction) : Prop :=
  ∃ (o : ℕ) (taken : List SvmInstruction), (taken ++ ixs).length < 2 ^ 14
    ∧ At b.bytes o (ixs.flatMap encode)
    ∧ it = .legacyAndV0 o (taken ++ ixs).length taken.length
      ((taken ++ ixs).map frame)

lemma next_legacyAndV0_nil (h : YieldsLegacyAndV0 b it []) :
    InstructionsIterator.next b it = .ok none := by
  obtain ⟨o, taken, -, -, rfl⟩ := h
  rw [InstructionsIterator.next, if_pos (by rw [append_nil])]

lemma next_legacyAndV0_cons {ixs : List SvmInstruction} (h : YieldsLegacyAndV0 b it (ix :: ixs)) :
    ∃ it', InstructionsIterator.next b it = .ok (some (ix, it')) ∧ YieldsLegacyAndV0 b it' ixs := by
  obtain ⟨o, taken, hlt, hat, rfl⟩ := h
  rw [flatMap_cons, at_append] at hat
  have hindex : ¬ (taken ++ ix :: ixs).length ≤ taken.length := by
    rw [length_append, length_cons]
    omega
  have hget : ((taken ++ ix :: ixs).map SvmInstruction.frame)[taken.length]? = some ix.frame := by
    rw [getElem?_map, getElem?_append_right (Nat.le_refl _), Nat.sub_self]
    rfl
  have hmod : (taken.length + 1) % 2 ^ 16 = (taken ++ [ix]).length := by
    rw [length_append, length_singleton]
    omega
  have happend : taken ++ ix :: ixs = taken ++ [ix] ++ ixs := by simp
  refine ⟨.legacyAndV0 (o + ix.encode.length) (taken ++ [ix] ++ ixs).length (taken ++ [ix]).length
    ((taken ++ [ix] ++ ixs).map SvmInstruction.frame), ?_,
    o + ix.encode.length, taken ++ [ix], by rw [← happend]; exact hlt, hat.2, rfl⟩
  rw [InstructionsIterator.next, if_neg hindex, hget]
  dsimp only
  rw [forLegacyAndV0_of_at hat.1, ← happend, ← hmod]
  rfl

lemma forV1_of_at (hfits : ix.FitsV1) (h : At b.bytes o ix.encodePayload) :
    forV1 b ix.v1Header o = .ok (ix, o + ix.encodePayload.length) := by
  obtain ⟨hacc, hdata⟩ := at_append.1 h
  have hnat : ix.v1Header.numAccounts.toNat = ix.accounts.length := toNat_ofNat hfits.1
  unfold forV1
  rw [hnat]
  refine bind_ok.2 ⟨_, _, uncheckedReadSliceData_of_at hacc, ?_⟩
  refine bind_ok.2 ⟨_, _, uncheckedReadSliceData_of_at hdata, ?_⟩
  rw [encodePayload, length_append, ← Nat.add_assoc]
  rfl

def YieldsV1 (b : Slice) (it : InstructionsIterator) (ixs : List SvmInstruction) : Prop :=
  ∃ h p index : ℕ, index + ixs.length < 2 ^ 8 ∧ (∀ ix ∈ ixs, ix.FitsV1)
    ∧ At b.bytes h (ixs.flatMap encodeHeader)
    ∧ At b.bytes p (ixs.flatMap encodePayload)
    ∧ it = .v1 index (index + ixs.length) h p

lemma next_v1_nil (h : YieldsV1 b it []) : InstructionsIterator.next b it = .ok none := by
  obtain ⟨h, p, index, -, -, -, -, rfl⟩ := h
  rw [InstructionsIterator.next, if_pos (show index + [].length ≤ index from Nat.le_refl _)]

lemma next_v1_cons {ixs : List SvmInstruction} (h : YieldsV1 b it (ix :: ixs)) :
    ∃ it', InstructionsIterator.next b it = .ok (some (ix, it')) ∧ YieldsV1 b it' ixs := by
  obtain ⟨h, p, index, hlt, hfits, hath, hatp, rfl⟩ := h
  rw [flatMap_cons, at_append] at hath hatp
  obtain ⟨hfit, hfits⟩ := forall_mem_cons.1 hfits
  have hhead : InstructionsFrame.readV1Header b h = .ok (ix.v1Header, h + 4) :=
    readV1Header_ok.2 ⟨hfit.2, hath.1, rfl⟩
  have hindex : ¬ index + (ix :: ixs).length ≤ index := by
    rw [length_cons]
    omega
  have hmod : (index + 1) % 2 ^ 16 = index + 1 := Nat.mod_eq_of_lt (by omega)
  have hlen : index + (ix :: ixs).length = index + 1 + ixs.length := by
    rw [length_cons]
    omega
  refine ⟨.v1 (index + 1) (index + 1 + ixs.length) (h + 4) (p + ix.encodePayload.length), ?_,
    h + 4, p + ix.encodePayload.length, index + 1, by omega, hfits, hath.2, hatp.2, rfl⟩
  rw [InstructionsIterator.next, if_neg hindex, hhead, ← hlen, hmod]
  exact Except.bind_of_ok (forV1_of_at hfit hatp.1)

lemma readSliceData_of_at {w : List UInt8} (hlt : w.length < 2 ^ 14) (h : At b.bytes o w) :
    readSliceData b w.length o = .ok (w, o + w.length) := by
  have ho : o ≤ b.length := le_trans (Nat.le_add_right _ _) h.le
  have hskip : advanceOffsetForArray b 1 w.length o = .ok ((), o + w.length) := by
    rw [advanceOffsetForArray_ok ho (by omega), Nat.mul_one]
    exact ⟨h.le, rfl⟩
  unfold readSliceData
  rw [hskip]
  exact Except.bind_of_ok (rawSlice_of_at h)

lemma readType_of_at {a : ByteBlock k} (h : At b.bytes o a.bytes) :
    readType b k o = .ok (a, o + k) := by
  have hle : o + a.bytes.length ≤ b.length := h.le
  rw [a.length_eq] at hle
  unfold readType
  rw [(@advanceOffsetForType_ok b o _ k (by omega) ()).2 ⟨hle, rfl⟩]
  exact Except.bind_of_ok (uncheckedCopyValue_ok.2 h)

lemma readLookup_of_at {l : SvmMessageAddressTableLookup} (hshort : l.Short)
    (h : At b.bytes o l.encode) :
    readLookup b o = .ok (l, o + l.encode.length) := by
  obtain ⟨hkey, hatw, hatr⟩ := SvmMessageAddressTableLookup.at_encode.1 h
  obtain ⟨hatn, hatw⟩ := at_append.1 hatw
  obtain ⟨hatm, hatr⟩ := at_append.1 hatr
  have hstop : o + 32 + (shortVec l.writableIndexes).length + (shortVec l.readonlyIndexes).length
      = o + l.encode.length := by
    rw [SvmMessageAddressTableLookup.length_encode]
    omega
  have hw := readSliceData_of_at hshort.1 hatw
  have hr := readSliceData_of_at hshort.2 hatr
  rw [add_length_shortVec] at hw
  rw [add_length_shortVec, hstop] at hr
  refine bind_ok.2 ⟨_, _, readType_of_at hkey, ?_⟩
  refine bind_ok.2 ⟨_, _, optimizedReadCompressedU16_ok.2 ⟨hshort.1, hatn, rfl⟩, ?_⟩
  refine bind_ok.2 ⟨_, _, hw, ?_⟩
  refine bind_ok.2 ⟨_, _, optimizedReadCompressedU16_ok.2 ⟨hshort.2, hatm, rfl⟩, ?_⟩
  exact bind_ok.2 ⟨_, _, hr, rfl⟩

def YieldsLookups (b : Slice) (it : AddressTableLookupIterator)
    (ls : List SvmMessageAddressTableLookup) : Prop :=
  it.index.toNat + ls.length = it.numAddressTableLookups.toNat ∧ (∀ l ∈ ls, l.Short)
    ∧ At b.bytes it.offset (ls.flatMap SvmMessageAddressTableLookup.encode)

lemma next_lookup_nil {it : AddressTableLookupIterator} (h : YieldsLookups b it []) :
    next b it = .ok none := by
  have hindex : ¬ it.index < it.numAddressTableLookups := by
    rw [UInt8.lt_iff_toNat_lt, ← h.1]
    exact Nat.lt_irrefl _
  rw [AddressTableLookupIterator.next, if_neg hindex]

lemma toNat_succ {i k : UInt8} (h : i.toNat < k.toNat) : (i + 1).toNat = i.toNat + 1 := by
  have := k.toNat_lt
  exact Nat.mod_eq_of_lt (show i.toNat + 1 < 2 ^ 8 by omega)

lemma next_lookup_cons {it : AddressTableLookupIterator} {l : SvmMessageAddressTableLookup}
    {ls : List SvmMessageAddressTableLookup} (h : YieldsLookups b it (l :: ls)) :
    ∃ it', next b it = .ok (some (l, it')) ∧ YieldsLookups b it' ls := by
  obtain ⟨hnum, hshort, hat⟩ := h
  rw [flatMap_cons, at_append] at hat
  rw [length_cons] at hnum
  obtain ⟨hl, hshort⟩ := forall_mem_cons.1 hshort
  have hlt : it.index.toNat < it.numAddressTableLookups.toNat := by omega
  refine ⟨{ it with offset := it.offset + l.encode.length, index := it.index + 1 }, ?_, ?_, hshort,
    hat.2⟩
  · rw [AddressTableLookupIterator.next, if_pos (UInt8.lt_iff_toNat_lt.2 hlt),
      readLookup_of_at hl hat.1]
  · show (it.index + 1).toNat + ls.length = it.numAddressTableLookups.toNat
    rw [toNat_succ hlt]
    omega

/-- At any offset within the bytes a reader returns within the bytes, or with an error. -/
def Checked (b : Slice) {α : Type} (x : ReadM α) (P : α → Prop) : Prop :=
  ∀ o ≤ b.length, (∃ a o', x o = .ok (a, o') ∧ o' ≤ b.length ∧ P a) ∨ ∃ e, x o = .error (.error e)

namespace Checked

variable {α β : Type}

lemma bind {x : ReadM α} {g : α → ReadM β} {P : α → Prop} {Q : β → Prop} (hx : Checked b x P)
    (hg : ∀ a, P a → Checked b (g a) Q) : Checked b (x >>= g) Q := by
  intro o ho
  rcases hx o ho with ⟨a, o1, hok, ho1, ha⟩ | ⟨e, herr⟩
  · rcases hg a ha o1 ho1 with ⟨c, o2, hok2, h⟩ | ⟨e, herr⟩
    · exact .inl ⟨c, o2, bind_ok.2 ⟨a, o1, hok, hok2⟩, h⟩
    · refine .inr ⟨e, ?_⟩
      show (x o >>= fun r => g r.1 r.2) = _
      rw [hok]
      exact herr
  · refine .inr ⟨e, ?_⟩
    show (x o >>= fun r => g r.1 r.2) = _
    rw [herr]
    rfl

lemma pure {a : α} {P : α → Prop} (h : P a) : Checked b (pure a) P :=
  fun o ho => .inl ⟨a, o, rfl, ho, h⟩

lemma readType (k : ℕ) : Checked b (readType b k) fun _ => True := by
  intro o ho
  by_cases hle : o + k ≤ b.length
  · obtain ⟨a, hat⟩ := exists_block hle
    exact .inl ⟨a, _, readType_of_at hat, hle, trivial⟩
  · refine .inr ⟨.parseError, ?_⟩
    unfold TransactionView.readType advanceOffsetForType
    rw [checkRemaining_eq ho, if_neg hle]
    rfl

lemma optimizedReadCompressedU16 : Checked b (optimizedReadCompressedU16 b) (· < 2 ^ 14) := by
  intro o ho
  rcases h : TransactionView.optimizedReadCompressedU16 b o with stop | ⟨n, o'⟩
  · refine .inr ?_
    unfold TransactionView.optimizedReadCompressedU16 parseError at h
    split at h
    · cases h
      exact ⟨_, rfl⟩
    · split_ifs at h
      split at h
      · cases h
        exact ⟨_, rfl⟩
      · split_ifs at h
        cases h
        exact ⟨_, rfl⟩
  · obtain ⟨hn, hat, rfl⟩ := optimizedReadCompressedU16_ok.1 h
    exact .inl ⟨n, _, rfl, hat.le, hn⟩

lemma readSliceData (hn : n < 2 ^ 14) : Checked b (readSliceData b n) fun _ => True := by
  intro o ho
  by_cases hle : o + n ≤ b.length
  · obtain ⟨w, rfl, hat⟩ := exists_at hle
    exact .inl ⟨w, _, readSliceData_of_at hn hat, hle, trivial⟩
  · refine .inr ⟨.parseError, ?_⟩
    have hmul : wrappingMul n 1 = n := by
      rw [wrappingMul, Nat.mul_one]
      exact Nat.mod_eq_of_lt (by omega)
    unfold TransactionView.readSliceData advanceOffsetForArray
    rw [hmul, checkRemaining_eq ho, if_neg hle]
    rfl

lemma readLookup : Checked b (readLookup b) fun _ => True := by
  refine (readType 32).bind fun key _ => optimizedReadCompressedU16.bind fun nw hnw => ?_
  refine (readSliceData hnw).bind fun w _ => optimizedReadCompressedU16.bind fun nr hnr => ?_
  exact (readSliceData hnr).bind fun r _ => pure trivial

end Checked

lemma drain_lookups {it : AddressTableLookupIterator} {fuel : ℕ} (ho : it.offset ≤ b.length)
    (hfuel : it.numAddressTableLookups.toNat < it.index.toNat + fuel)
    (hindex : it.index.toNat ≤ it.numAddressTableLookups.toNat) :
    ∃ ls, drain (next b) fuel it = .ok ls := by
  induction fuel generalizing it with
  | zero => omega
  | succ fuel ih =>
    rw [drain]
    by_cases hlt : it.index.toNat < it.numAddressTableLookups.toNat
    · rcases Checked.readLookup it.offset ho with ⟨l, o', hok, ho', -⟩ | ⟨e, herr⟩
      · have hsucc := toNat_succ hlt
        have hnext : next b it
            = .ok (some (l, { it with offset := o', index := it.index + 1 })) := by
          rw [AddressTableLookupIterator.next, if_pos (UInt8.lt_iff_toNat_lt.2 hlt), hok]
        obtain ⟨ls, hls⟩ := @ih { it with offset := o', index := it.index + 1 } ho'
          (by dsimp only; omega) (by dsimp only; omega)
        refine ⟨l :: ls, ?_⟩
        rw [hnext]
        exact Except.bind_of_ok hls
      · have hnext : next b it = .ok none := by
          rw [AddressTableLookupIterator.next, if_pos (UInt8.lt_iff_toNat_lt.2 hlt), herr]
        exact ⟨[], by rw [hnext]; rfl⟩
    · have hnext : next b it = .ok none :=
        if_neg (mt UInt8.lt_iff_toNat_lt.1 hlt)
      exact ⟨[], by rw [hnext]; rfl⟩

lemma configValue_none (hframe : v.frame.transactionConfigFrame = ⟨4, mask, o, n⟩)
    (hbit : mask.testBit bit = false) :
    v.configValue size bit = .ok none := by
  have hoffset : v.frame.transactionConfigFrame.wordOffset bit = none := by
    simp [hframe, wordOffset, wordIndexForBit, hbit]
  rw [configValue, hoffset]

lemma configValue_some {index : ℕ} (hframe : v.frame.transactionConfigFrame = ⟨4, mask, o, n⟩)
    (hbit : mask.testBit bit = true) (hindex : countOnes (mask &&& (2 ^ bit - 1)) = index)
    (hsmall : index < 2 ^ 5) (hlt : k < 256 ^ size)
    (hat : At v.data.bytes (o + index * 4) (leBytes size k)) :
    v.configValue size bit = .ok (some k) := by
  have hval : leNat (leBytes size k) = k := leNat_leBytes hlt
  have hle : o + index * 4 ≤ v.data.length := le_trans (Nat.le_add_right _ _) hat.le
  have hmod : index % 2 ^ 8 = index := Nat.mod_eq_of_lt (by omega)
  have hmul : wrappingMul index configValueSize = index * 4 := by
    unfold wrappingMul configValueSize
    exact Nat.mod_eq_of_lt (by omega)
  have hoffset : v.frame.transactionConfigFrame.wordOffset bit = some (o + index * 4) := by
    rw [hframe, wordOffset, wordIndexForBit,
      if_neg (by simp [isPresent, hbit]), Option.map_some, hindex, hmod, hmul,
      wrappingAdd_eq hle]
  have hcopy : uncheckedCopyValue v.data size (o + index * 4)
      = .ok ⟨leBytes size k, length_leBytes _ _⟩ := uncheckedCopyValue_ok.2 hat
  rw [configValue, hoffset]
  dsimp only
  rw [hcopy]
  exact congrArg (fun k => Except.ok (some k)) hval

lemma configValue_ok {α : Type} {toNat : α → ℕ} {index : ℕ} {x : Option α}
    (hlt : ∀ y, toNat y < 256 ^ size)
    (hframe : v.frame.transactionConfigFrame = ⟨4, mask, o, n⟩) (hbit : mask.testBit bit = x.isSome)
    (hindex : countOnes (mask &&& (2 ^ bit - 1)) = index) (hsmall : index < 2 ^ 5)
    (hat : At v.data.bytes (o + index * 4) (x.elim [] (leBytes size ∘ toNat))) :
    v.configValue size bit = .ok (x.map toNat) := by
  cases x with
  | none => exact configValue_none hframe hbit
  | some y => exact configValue_some hframe hbit hindex hsmall (hlt y) hat

lemma countOnes_below (c : Config) : countOnes (c.mask &&& (2 ^ 0 - 1)) = 0
    ∧ countOnes (c.mask &&& (2 ^ 2 - 1)) = (if c.priorityFeeLamports.isSome then 2 else 0)
    ∧ countOnes (c.mask &&& (2 ^ 3 - 1)) = (if c.priorityFeeLamports.isSome then 2 else 0)
      + (if c.computeUnitLimit.isSome then 1 else 0)
    ∧ countOnes (c.mask &&& (2 ^ 4 - 1)) = (if c.priorityFeeLamports.isSome then 2 else 0)
      + (if c.computeUnitLimit.isSome then 1 else 0)
      + (if c.loadedAccountsDataSizeLimit.isSome then 1 else 0) := by
  have hall : ∀ p q r s : Bool, let mask := (if p then 3 else 0) + (if q then 4 else 0)
      + (if r then 8 else 0) + (if s then 16 else 0)
      countOnes (mask &&& (2 ^ 0 - 1)) = 0
      ∧ countOnes (mask &&& (2 ^ 2 - 1)) = (if p then 2 else 0)
      ∧ countOnes (mask &&& (2 ^ 3 - 1)) = (if p then 2 else 0) + (if q then 1 else 0)
      ∧ countOnes (mask &&& (2 ^ 4 - 1)) = (if p then 2 else 0) + (if q then 1 else 0)
        + (if r then 1 else 0) := by
    decide +kernel
  exact hall _ _ _ _

lemma config_ok {c : Config}
    (hframe : v.frame.transactionConfigFrame = ⟨4, c.mask, o, countOnes c.mask⟩)
    (hat : At v.data.bytes o c.encodeValues) :
    v.priorityFeeLamports = .ok c.priorityFeeLamports ∧ v.computeUnitLimit = .ok c.computeUnitLimit
    ∧ v.loadedAccountsDataSizeLimit = .ok c.loadedAccountsDataSizeLimit
    ∧ v.requestedHeapSize = .ok c.requestedHeapSize := by
  obtain ⟨-, -, h0, h2, h3, h4⟩ := c.testBit_mask
  obtain ⟨hi0, hi2, hi3, hi4⟩ := countOnes_below c
  simp only [Config.encodeValues, at_append, length_append, length_value] at hat
  obtain ⟨⟨⟨hat0, hat2⟩, hat3⟩, hat4⟩ := hat
  have hlt64 (y : UInt64) : y.toNat < 256 ^ 8 := lt_of_lt_of_eq y.toNat_lt (by decide)
  have hlt32 (y : UInt32) : y.toNat < 256 ^ 4 := lt_of_lt_of_eq y.toNat_lt (by decide)
  have hp := configValue_ok hlt64 hframe h0 hi0 (by decide) hat0
  have hq := configValue_ok hlt32 hframe h2 hi2 (by split <;> decide) (by rw [ite_mul]; exact hat2)
  have hr := configValue_ok hlt32 hframe h3 hi3 (by split <;> split <;> decide)
    (by rw [Nat.add_mul, ite_mul, ite_mul]; exact hat3)
  have hs := configValue_ok hlt32 hframe h4 hi4 (by split <;> split <;> split <;> decide)
    (by rw [Nat.add_mul, Nat.add_mul, ite_mul, ite_mul, ite_mul]; exact hat4)
  have h64 (x : Option UInt64) : (x.map UInt64.toNat).map UInt64.ofNat = x := by
    cases x <;> simp
  have h32 (x : Option UInt32) : (x.map UInt32.toNat).map UInt32.ofNat = x := by
    cases x <;> simp
  unfold priorityFeeLamports computeUnitLimit loadedAccountsDataSizeLimit
    requestedHeapSize
  rw [hp, hq, hr, hs]
  exact ⟨congrArg Except.ok (h64 _), congrArg Except.ok (h32 _), congrArg Except.ok (h32 _),
    congrArg Except.ok (h32 _)⟩

lemma config_notApplicable (hframe : v.frame.transactionConfigFrame = .notApplicable) :
    v.priorityFeeLamports = .ok none ∧ v.computeUnitLimit = .ok none
    ∧ v.loadedAccountsDataSizeLimit = .ok none ∧ v.requestedHeapSize = .ok none := by
  have hvalue (size bit : ℕ) : v.configValue size bit = .ok none := by
    rw [configValue, hframe]
    rfl
  unfold priorityFeeLamports computeUnitLimit loadedAccountsDataSizeLimit
    requestedHeapSize
  rw [hvalue, hvalue, hvalue, hvalue]
  exact ⟨rfl, rfl, rfl, rfl⟩

lemma Transaction.length_encodeHeader_le (tx : Transaction) : tx.encodeHeader.length ≤ 4 := by
  have hversion : (versionBytes tx.body.version).length ≤ 1 := by
    rcases tx.body.version <;> decide
  have hheader : tx.header.length = 3 := rfl
  rw [encodeHeader, length_append]
  omega

lemma Transaction.FitsLegacyOrV0.offsets (h : tx.FitsLegacyOrV0 size) :
    tx.headerOffset = 1 + tx.signatures.length * 64 ∧ tx.keysOffset ≤ tx.headerOffset + 4
    ∧ tx.hashOffset = tx.keysOffset + 1 + tx.accountKeys.length * 32 ∧ tx.hashOffset < 2 ^ 11 := by
  have hs := h.signatures_le
  have hk := h.keys_le
  have hhead : tx.headerOffset = 1 + tx.signatures.length * 64 := length_encodeBlocks (by omega)
  have hkeys : tx.keysOffset ≤ tx.headerOffset + 4 :=
    Nat.add_le_add_left tx.length_encodeHeader_le _
  have hhash : tx.hashOffset = tx.keysOffset + 1 + tx.accountKeys.length * 32 := by
    rw [Transaction.hashOffset, length_encodeBlocks (by omega), Nat.add_assoc]
  exact ⟨hhead, hkeys, hhash, by omega⟩

lemma at_of_encodeBlocks {as : List (ByteBlock k)} (hlt : as.length < 2 ^ 7)
    (h : At b.bytes o (encodeBlocks as)) : At b.bytes (o + 1) (ByteBlock.flatten as) := by
  rw [encodeBlocks, compactU16_one hlt, at_append] at h
  exact h.2

lemma Transaction.FitsLegacyOrV0.rawBlocks_signatures (hfits : tx.FitsLegacyOrV0 size)
    (h : tx.StandsLegacyOrV0 b) :
    rawBlocks b 64 1 (UInt8.ofNat tx.signatures.length).toNat = .ok tx.signatures := by
  have hle := hfits.signatures_le
  rw [toNat_ofNat (by omega)]
  exact rawBlocks_of_at (at_of_encodeBlocks (by omega) h.signatures)

def bodyLookups : Body → List SvmMessageAddressTableLookup
  | .v0 ls => ls
  | _ => []

def bodyConfig : Body → Config
  | .v1 c => c
  | _ => ⟨none, none, none, none⟩

namespace Framed

variable (h : Framed b tx f)
include h

lemma staticAccountKeys : (View.mk b f).staticAccountKeys = .ok tx.accountKeys := by
  cases h with
  | legacyOrV0 hfits hstands =>
    obtain ⟨-, hkeys, hhash, hlt⟩ := hfits.offsets
    show rawBlocks b 32 (asU16 (tx.keysOffset + 1)) (UInt8.ofNat tx.accountKeys.length).toNat = _
    rw [toNat_ofNat (by omega), asU16_eq (by omega)]
    exact rawBlocks_of_at (at_of_encodeBlocks (by omega) hstands.keys)
  | v1 hbody hfits hstands =>
    show rawBlocks b 32 (asU16 42) (UInt8.ofNat tx.accountKeys.length).toNat = _
    rw [toNat_ofNat hfits.keys_lt]
    exact rawBlocks_of_at hstands.keys

lemma recentBlockhash : (View.mk b f).recentBlockhash = .ok tx.recentBlockhash := by
  cases h with
  | legacyOrV0 hfits hstands =>
    obtain ⟨-, -, -, hlt⟩ := hfits.offsets
    show uncheckedCopyValue b 32 (asU16 tx.hashOffset) = _
    rw [asU16_eq (by omega)]
    exact uncheckedCopyValue_ok.2 hstands.hash
  | v1 hbody hfits hstands => exact uncheckedCopyValue_ok.2 hstands.hash

lemma numInstructions : (View.mk b f).numInstructions = tx.instructions.length := by
  cases h <;> rfl

lemma instructions : (View.mk b f).instructions = .ok tx.instructions := by
  cases h with
  | legacyOrV0 hfits hstands =>
    obtain ⟨-, -, -, hlt⟩ := hfits.offsets
    obtain ⟨hlen, hat⟩ := at_append.1 hstands.instructions
    have hcount := (length_compactU16_le hfits.instructions_lt).2
    have hyields : YieldsLegacyAndV0 b tx.frameLegacyOrV0.instructions.iter tx.instructions := by
      refine ⟨_, [], hfits.instructions_lt, hat, ?_⟩
      show InstructionsIterator.legacyAndV0 (asU16 _) _ _ _ = _
      rw [asU16_eq (by unfold Transaction.instructionsOffset; omega)]
      rfl
    exact drain_ok (fun _ => next_legacyAndV0_nil) (fun _ _ _ => next_legacyAndV0_cons) hyields
      (Nat.lt_succ_self _)
  | @v1 config hbody hfits hstands =>
    have hlt := hfits.keys_lt
    have hixs := hfits.instructions_lt
    have hbits := config.testBit_mask
    obtain ⟨hath, hatp⟩ := at_append.1 hstands.instructions
    rw [length_encodeHeaders] at hatp
    have hbound : tx.headersOffset config < 2 ^ 14 := by
      have hones := (mask_bits _ hbits.1 hbits.2.1).2.1
      rw [Transaction.headersOffset, Transaction.configOffset, ByteBlock.length_flatten,
        config.length_encodeValues, hones]
      split <;> split <;> split <;> split <;> omega
    have hyields : YieldsV1 b (tx.frameV1 config).instructions.iter tx.instructions := by
      refine ⟨_, _, 0, by omega, hfits.instructions_fit, hath, hatp, ?_⟩
      show InstructionsIterator.v1 0 _ (asU16 _) (asU16 _) = _
      rw [asU16_eq (by omega), asU16_eq (by omega), Nat.zero_add]
    exact drain_ok (fun _ => next_v1_nil) (fun _ _ _ => next_v1_cons) hyields (Nat.lt_succ_self _)

lemma signatures_safe : ∃ as, (View.mk b f).signatures = .ok as := by
  cases h with
  | legacyOrV0 hfits hstands => exact ⟨_, hfits.rawBlocks_signatures hstands⟩
  | @v1 config hbody hfits hstands =>
    have hle : tx.signaturesOffset config + (ByteBlock.flatten tx.signatures).length ≤ b.length :=
      hstands.signatures.le
    rw [ByteBlock.length_flatten, hfits.signatures_eq] at hle
    exact ⟨_, dif_pos (le_trans (Nat.add_le_add_right asU16_le _) hle)⟩

lemma signatures (hb : b.length < 2 ^ 16) : (View.mk b f).signatures = .ok tx.signatures := by
  cases h with
  | legacyOrV0 hfits hstands => exact hfits.rawBlocks_signatures hstands
  | @v1 config hbody hfits hstands =>
    have hstop := hstands.stop
    show rawBlocks b 64 (asU16 (tx.signaturesOffset config)) tx.numRequiredSignatures.toNat = _
    rw [asU16_eq (by omega), ← hfits.signatures_eq]
    exact rawBlocks_of_at hstands.signatures

lemma lookups_safe : ∃ ls, (View.mk b f).addressTableLookups = .ok ls := by
  have hoffset : f.addressTableLookup.offset ≤ b.length := by
    cases h with
    | legacyOrV0 hfits hstands =>
      have hlook := hfits.lookups
      show (tx.body.lookupFrame tx.lookupsOffset).offset ≤ b.length
      cases hbody : tx.body with
      | legacy | v1 c => exact Nat.zero_le _
      | v0 ls =>
        rw [hbody] at hlook
        exact le_trans asU16_le (le_trans (Nat.le_add_right _ _) hlook.2.2.1)
    | v1 hbody hfits hstands => exact Nat.zero_le _
  exact drain_lookups hoffset (show f.addressTableLookup.numAddressTableLookups.toNat
    < 0 + (f.addressTableLookup.numAddressTableLookups.toNat + 1) by omega) (Nat.zero_le _)

lemma addressTableLookups (hb : b.length < 2 ^ 16) :
    (View.mk b f).addressTableLookups = .ok (bodyLookups tx.body) := by
  cases h with
  | legacyOrV0 hfits hstands =>
    have hlook := hfits.lookups
    have hat := hstands.lookups
    have hstop := hstands.stop
    show drain _ ((tx.body.lookupFrame tx.lookupsOffset).numAddressTableLookups.toNat + 1)
      (⟨(tx.body.lookupFrame tx.lookupsOffset).offset,
        (tx.body.lookupFrame tx.lookupsOffset).numAddressTableLookups, 0⟩ :
        AddressTableLookupIterator) = _
    cases hbody : tx.body with
    | legacy => rfl
    | v0 ls =>
      rw [hbody] at hlook hat hstop
      obtain ⟨hlen, hshort, hle, -, -⟩ := hlook
      have hcompact : compactU16 ls.length = [.ofNat ls.length] := compactU16_one (by omega)
      have hnat : (UInt8.ofNat ls.length).toNat = ls.length := toNat_ofNat (by omega)
      rw [Body.encodeLookups, hcompact, at_append] at hat
      rw [Body.lookupFrame, asU16_eq (by omega)]
      refine drain_ok (fun _ => next_lookup_nil) (fun _ _ _ => next_lookup_cons)
        (show YieldsLookups b _ ls from ⟨?_, hshort, hat.2⟩) (by rw [hnat]; exact Nat.lt_succ_self _)
      show 0 + ls.length = (UInt8.ofNat ls.length).toNat
      rw [hnat, Nat.zero_add]
    | v1 c =>
      rw [hbody] at hlook
      exact hlook.elim
  | v1 hbody hfits hstands =>
    rw [hbody]
    rfl

lemma config :
    (View.mk b f).priorityFeeLamports = .ok (bodyConfig tx.body).priorityFeeLamports
    ∧ (View.mk b f).computeUnitLimit = .ok (bodyConfig tx.body).computeUnitLimit
    ∧ (View.mk b f).loadedAccountsDataSizeLimit
      = .ok (bodyConfig tx.body).loadedAccountsDataSizeLimit
    ∧ (View.mk b f).requestedHeapSize = .ok (bodyConfig tx.body).requestedHeapSize := by
  cases h with
  | legacyOrV0 hfits hstands =>
    have hnone : bodyConfig tx.body = ⟨none, none, none, none⟩ := by
      have hne := hfits.version_ne
      cases hbody : tx.body with
      | legacy | v0 ls => rfl
      | v1 c =>
        rw [hbody] at hne
        exact absurd rfl hne
    rw [hnone]
    exact config_notApplicable rfl
  | v1 hbody hfits hstands =>
    rw [hbody]
    exact config_ok rfl hstands.values

end Framed

lemma tryNewUnsanitized_ok {view : View} :
    tryNewUnsanitized b = .ok view ↔ ∃ tx f, Framed b tx f ∧ view = ⟨b, f⟩ := by
  unfold tryNewUnsanitized
  simp only [Except.bind_eq_ok, tryNew_ok]
  constructor
  · rintro ⟨f, ⟨tx, h⟩, hview⟩
    cases hview
    exact ⟨tx, f, h, rfl⟩
  · rintro ⟨tx, f, h, rfl⟩
    exact ⟨f, ⟨tx, h⟩, rfl⟩

/-- Every accessor returns, and the iterator over instructions yields as many as the frame says. -/
structure View.Safe (view : View) : Prop where
  signatures : ∃ as, view.signatures = .ok as
  staticAccountKeys : ∃ keys, view.staticAccountKeys = .ok keys
  recentBlockhash : ∃ hash, view.recentBlockhash = .ok hash
  priorityFeeLamports : ∃ fee, view.priorityFeeLamports = .ok fee
  computeUnitLimit : ∃ limit, view.computeUnitLimit = .ok limit
  loadedAccountsDataSizeLimit : ∃ limit, view.loadedAccountsDataSizeLimit = .ok limit
  requestedHeapSize : ∃ size, view.requestedHeapSize = .ok size
  instructions : ∃ ixs, view.instructions = .ok ixs ∧ ixs.length = view.numInstructions
  addressTableLookups : ∃ ls, view.addressTableLookups = .ok ls

/-- The accessors of a view never read outside of the bytes and never panic. -/
theorem View.accessors_safe (b : Slice) (view : View) (h : tryNewUnsanitized b = .ok view) :
    view.Safe := by
  obtain ⟨tx, f, hf, rfl⟩ := tryNewUnsanitized_ok.1 h
  obtain ⟨hp, hq, hr, hs⟩ := hf.config
  exact ⟨hf.signatures_safe, ⟨_, hf.staticAccountKeys⟩, ⟨_, hf.recentBlockhash⟩, ⟨_, hp⟩, ⟨_, hq⟩,
    ⟨_, hr⟩, ⟨_, hs⟩, ⟨_, hf.instructions, hf.numInstructions.symm⟩, hf.lookups_safe⟩

def smallV1 : Transaction where
  signatures := [⟨List.replicate 64 0, List.length_replicate⟩]
  numRequiredSignatures := 1
  numReadonlySignedAccounts := 0
  numReadonlyUnsignedAccounts := 1
  accountKeys := [⟨List.replicate 32 3, List.length_replicate⟩,
    ⟨List.replicate 32 1, List.length_replicate⟩]
  recentBlockhash := ⟨List.replicate 32 2, List.length_replicate⟩
  instructions := [⟨1, [0], [7, 7]⟩]
  body := .v1 ⟨some 5, none, none, some (32 * 1024)⟩

def smallV1Bytes : Slice := ⟨smallV1.encode, by decide +kernel⟩

lemma framed_smallV1 :
    Framed smallV1Bytes smallV1 (smallV1.frameV1 ⟨some 5, none, none, some (32 * 1024)⟩) := by
  refine .v1 rfl ⟨rfl, by decide, by decide, ?_⟩ ((Transaction.standsV1_iff rfl).2 rfl)
  intro ix hix
  cases mem_singleton.1 hix
  exact ⟨by decide, by decide⟩

theorem View.accessors_safe_smallV1 : ∃ view, tryNewUnsanitized smallV1Bytes = .ok view
    ∧ view.numInstructions = 1 ∧ view.Safe := by
  have h := tryNewUnsanitized_ok.2 ⟨smallV1, _, framed_smallV1, rfl⟩
  exact ⟨_, h, rfl, View.accessors_safe smallV1Bytes _ h⟩

end BlackBull.TransactionView
