import BlackBull.Lib.Run
import BlackBull.TransactionView.Encoding

/-!
# What the readers accept

Each reader of a view's frame returns exactly where what it reads stands at its offset: the lemmas
are equivalences, so that they serve for what is accepted and for what must be.
-/

namespace BlackBull.TransactionView

open SvmInstruction List InstructionsFrame AddressTableLookupFrame V1InstructionHeader ByteBlock

variable {b : Slice} {o o' n k a c : ℕ} {v : UInt8}

/-! ### Readers -/

section ReadM

variable {α β : Type} {x : ReadM α} {f : α → ReadM β}

lemma bind_ok {c : β × ℕ} : (x >>= f) o = .ok c ↔ ∃ a o1, x o = .ok (a, o1) ∧ f a o1 = .ok c := by
  show (x o >>= fun r => f r.1 r.2) = .ok c ↔ _
  rw [Except.bind_eq_ok]
  exact Prod.exists

lemma get_ok : (get : ReadM ℕ) o = .ok (a, o') ↔ o = a ∧ o = o' := by
  show Except.ok (o, o) = Except.ok (a, o') ↔ _
  rw [Except.ok.injEq, Prod.mk.injEq]

lemma pure_ok {a a' : α} : (pure a : ReadM α) o = .ok (a', o') ↔ a = a' ∧ o = o' := by
  show Except.ok (a, o) = Except.ok (a', o') ↔ _
  rw [Except.ok.injEq, Prod.mk.injEq]

lemma lift_ok {x : Result α} {a : α} :
    (liftM x : ReadM α) o = .ok (a, o') ↔ x = .ok a ∧ o = o' := by
  show (x >>= fun a => pure (a, o)) = Except.ok (a, o') ↔ _
  rw [Except.bind_eq_ok]
  constructor
  · rintro ⟨a, rfl, h⟩
    cases h
    exact ⟨rfl, rfl⟩
  · rintro ⟨rfl, rfl⟩
    exact ⟨a, rfl, rfl⟩

lemma ite_throw_ok {c : Prop} [Decidable c] {e : ViewStop} {r : α × ℕ} :
    (if c then throw e else x : ReadM α) o = .ok r ↔ ¬ c ∧ x o = .ok r := by
  split_ifs with hc
  · exact ⟨nofun, fun h => absurd hc h.1⟩
  · exact ⟨fun h => ⟨hc, h⟩, fun h => h.2⟩

end ReadM

/-! ### Offsets -/

lemma wrappingAdd_eq (h : o + n ≤ b.length) : wrappingAdd o n = o + n := by
  have := b.length_lt
  exact Nat.mod_eq_of_lt (by unfold Slice.length at h; omega)

lemma wrappingSub_eq (h : c ≤ a) (ha : a < 2 ^ 64) : wrappingSub a c = a - c := by
  unfold wrappingSub
  omega

lemma checkRemaining_eq (ho : o ≤ b.length) :
    checkRemaining b o n = if o + n ≤ b.length then .ok () else parseError := by
  have := b.length_lt
  unfold checkRemaining
  rw [wrappingSub_eq ho (by unfold Slice.length; omega)]
  split_ifs <;> first | rfl | omega

lemma checkRemaining_ok (ho : o ≤ b.length) : checkRemaining b o n = .ok () ↔ o + n ≤ b.length := by
  rw [checkRemaining_eq ho]
  split_ifs with h
  · exact iff_of_true rfl h
  · exact iff_of_false nofun h

lemma advanceOffsetForType_ok {size : ℕ} (ho : o ≤ b.length) {u : Unit} :
    advanceOffsetForType b size o = .ok (u, o') ↔ o + size ≤ b.length ∧ o' = o + size := by
  unfold advanceOffsetForType
  rw [Except.bind_eq_ok]
  constructor
  · rintro ⟨_, hcheck, h⟩
    have hle := (checkRemaining_ok ho).1 hcheck
    rw [wrappingAdd_eq hle] at h
    cases h
    exact ⟨hle, rfl⟩
  · rintro ⟨hle, rfl⟩
    refine ⟨(), (checkRemaining_ok ho).2 hle, ?_⟩
    rw [wrappingAdd_eq hle]
    rfl

lemma advanceOffsetForArray_ok {size : ℕ} (ho : o ≤ b.length) (hsize : n * size < 2 ^ 64)
    {u : Unit} : advanceOffsetForArray b size n o = .ok (u, o') ↔
      o + n * size ≤ b.length ∧ o' = o + n * size := by
  have hmul : wrappingMul n size = n * size := Nat.mod_eq_of_lt hsize
  unfold advanceOffsetForArray
  rw [hmul]
  exact advanceOffsetForType_ok ho

/-! ### Bytes -/

lemma nextByte_ok {e : ViewStop} :
    (match b.bytes[o]? with
      | some value => Except.ok (value, wrappingAdd o 1)
      | none => .error e) = .ok (v, o') ↔ b.bytes[o]? = some v ∧ o' = o + 1 := by
  rcases hb : b.bytes[o]? with _ | v'
  · exact ⟨nofun, fun h => nomatch h.1⟩
  · have hle : o + 1 ≤ b.length := (List.getElem?_eq_some_iff.1 hb).1
    rw [wrappingAdd_eq hle, Except.ok.injEq, Prod.mk.injEq, Option.some.injEq]
    exact and_congr_right fun _ => eq_comm

lemma readByte_ok : readByte b o = .ok (v, o') ↔ b.bytes[o]? = some v ∧ o' = o + 1 := nextByte_ok

lemma uncheckedReadByte_ok :
    uncheckedReadByte b o = .ok (v, o') ↔ b.bytes[o]? = some v ∧ o' = o + 1 := nextByte_ok

lemma toNat_and_low (v : UInt8) : (v &&& 0x7F).toNat = v.toNat % 2 ^ 7 := by
  exact Nat.and_two_pow_sub_one_eq_mod v.toNat 7

lemma and_high_eq_zero (v : UInt8) : v &&& 0x80 = 0 ↔ v.toNat < 2 ^ 7 := by
  rw [← UInt8.toNat_inj, UInt8.toNat_and]
  have hall : ∀ n < 256, n &&& 128 = 0 ↔ n < 2 ^ 7 := by decide +kernel
  exact hall v.toNat v.toNat_lt

lemma low_or_high (ha : a < 2 ^ 7) : a ||| c <<< 7 = c * 2 ^ 7 + a := by
  rw [Nat.shiftLeft_eq, Nat.or_comm, Nat.mul_comm]
  exact (Nat.two_pow_add_eq_or_of_lt ha c).symm

/-! ### Lengths -/

lemma toNat_ofNat (h : k < 2 ^ 8) : (UInt8.ofNat k).toNat = k :=
  UInt8.toNat_ofNat_of_lt h

lemma compactU16_one (h : n < 2 ^ 7) : compactU16 n = [.ofNat n] := if_pos h

lemma compactU16_two (h : ¬ n < 2 ^ 7) (h' : n < 2 ^ 14) :
    compactU16 n = [.ofNat (n % 2 ^ 7 + 2 ^ 7), .ofNat (n / 2 ^ 7)] := by
  rw [compactU16, if_neg h, if_pos h']

lemma length_compactU16_le (h : n < 2 ^ 14) :
    1 ≤ (compactU16 n).length ∧ (compactU16 n).length ≤ 2 := by
  by_cases h' : n < 2 ^ 7
  · rw [compactU16_one h']
    exact ⟨Nat.le_refl _, Nat.le_succ _⟩
  · rw [compactU16_two h' h]
    exact ⟨Nat.le_succ _, Nat.le_refl _⟩

lemma optimizedReadCompressedU16_ok :
    optimizedReadCompressedU16 b o = .ok (n, o') ↔
      n < 2 ^ 14 ∧ At b.bytes o (compactU16 n) ∧ o' = o + (compactU16 n).length := by
  constructor
  · intro h
    unfold optimizedReadCompressedU16 at h
    rcases h1 : b.bytes[o]? with _ | v
    · rw [h1] at h
      cases h
    have hle : o + 1 ≤ b.length := (List.getElem?_eq_some_iff.1 h1).1
    rw [h1] at h
    dsimp only at h
    rw [wrappingAdd_eq hle, toNat_and_low] at h
    split_ifs at h with hv
    · rw [and_high_eq_zero] at hv
      rw [Nat.mod_eq_of_lt hv] at h
      cases h
      rw [compactU16_one hv, UInt8.ofNat_toNat]
      exact ⟨by omega, at_singleton.2 h1, rfl⟩
    · rw [and_high_eq_zero] at hv
      rcases h2 : b.bytes[o + 1]? with _ | v'
      · rw [h2] at h
        cases h
      have hle2 : o + 2 ≤ b.length := (List.getElem?_eq_some_iff.1 h2).1
      rw [h2] at h
      dsimp only at h
      split_ifs at h with hv'
      · cases h
      obtain ⟨hne, hhigh⟩ := not_or.1 hv'
      rw [not_not, and_high_eq_zero] at hhigh
      have hpos : v'.toNat ≠ 0 := fun h0 => hne (UInt8.toNat_inj.1 h0)
      have hvlt := v.toNat_lt
      rw [toNat_and_low, low_or_high (Nat.mod_lt _ (by decide)), Nat.mod_eq_of_lt hhigh,
        wrappingAdd_eq hle2] at h
      cases h
      have hlow : (v'.toNat * 2 ^ 7 + v.toNat % 2 ^ 7) % 2 ^ 7 + 2 ^ 7 = v.toNat := by omega
      have hdiv : (v'.toNat * 2 ^ 7 + v.toNat % 2 ^ 7) / 2 ^ 7 = v'.toNat := by omega
      rw [compactU16_two (by omega) (by omega), hlow, hdiv, UInt8.ofNat_toNat, UInt8.ofNat_toNat]
      exact ⟨by omega, at_cons.2 ⟨h1, at_singleton.2 h2⟩, rfl⟩
  · rintro ⟨hn, hat, rfl⟩
    unfold optimizedReadCompressedU16
    by_cases hsmall : n < 2 ^ 7
    · rw [compactU16_one hsmall] at hat ⊢
      have hle : o + 1 ≤ b.length := hat.le
      have hnat : (UInt8.ofNat n).toNat = n := toNat_ofNat (by omega)
      rw [at_singleton.1 hat]
      dsimp only
      rw [if_pos ((and_high_eq_zero _).2 (by rw [hnat]; exact hsmall)), toNat_and_low, hnat,
        Nat.mod_eq_of_lt hsmall, wrappingAdd_eq hle]
      rfl
    · rw [compactU16_two hsmall hn] at hat ⊢
      have hle : o + 2 ≤ b.length := hat.le
      obtain ⟨h1, h2⟩ := at_cons.1 hat
      rw [at_singleton] at h2
      have hnat : (UInt8.ofNat (n % 2 ^ 7 + 2 ^ 7)).toNat = n % 2 ^ 7 + 2 ^ 7 :=
        toNat_ofNat (by omega)
      have hnat' : (UInt8.ofNat (n / 2 ^ 7)).toNat = n / 2 ^ 7 := toNat_ofNat (by omega)
      have hhigh : ¬ UInt8.ofNat (n % 2 ^ 7 + 2 ^ 7) &&& 0x80 = 0 := by
        rw [and_high_eq_zero, hnat]
        omega
      have hsecond : ¬ (UInt8.ofNat (n / 2 ^ 7) = 0 ∨ UInt8.ofNat (n / 2 ^ 7) &&& 0x80 ≠ 0) := by
        rw [not_or, not_not, and_high_eq_zero, ← UInt8.toNat_inj, hnat']
        exact ⟨fun h0 => hsmall (by have : n / 2 ^ 7 = 0 := h0; omega), by omega⟩
      have hsum : n / 2 ^ 7 * 2 ^ 7 + n % 2 ^ 7 = n := by omega
      rw [h1]
      dsimp only
      rw [if_neg hhigh, wrappingAdd_eq (show o + 1 ≤ b.length by omega), h2]
      dsimp only
      rw [if_neg hsecond, toNat_and_low, toNat_and_low, hnat, hnat', Nat.add_mod_right, Nat.mod_mod,
        low_or_high (Nat.mod_lt _ (by decide)), Nat.mod_eq_of_lt (by omega : n / 2 ^ 7 < 2 ^ 7), hsum,
        wrappingAdd_eq hle]
      rfl

lemma readLength_ok : readLength b o = .ok ((n, k), o') ↔ n < 2 ^ 14
    ∧ At b.bytes o (compactU16 n) ∧ k = (compactU16 n).length
    ∧ o' = o + (compactU16 n).length := by
  have hsub (hn : n < 2 ^ 14) (hat : At b.bytes o (compactU16 n)) :
      wrappingSub (o + (compactU16 n).length) o % 2 ^ 8 = (compactU16 n).length := by
    have hle := hat.le
    have hlt := b.length_lt
    obtain ⟨-, hlen⟩ := length_compactU16_le hn
    rw [wrappingSub_eq (Nat.le_add_right _ _) (by omega)]
    omega
  unfold readLength
  simp only [get_ok, bind_ok, pure_ok, optimizedReadCompressedU16_ok, Prod.mk.injEq, existsAndEq,
    and_assoc, true_and]
  constructor
  · rintro ⟨hn, hat, rfl, rfl⟩
    exact ⟨hn, hat, hsub hn hat, rfl⟩
  · rintro ⟨hn, hat, rfl, rfl⟩
    exact ⟨hn, hat, hsub hn hat, rfl⟩

/-! ### Values behind raw pointers -/

lemma rawSlice_of_at {w : List UInt8} (h : At b.bytes o w) : rawSlice b o w.length = .ok w := by
  rw [rawSlice, if_pos (show o + w.length ≤ b.length from h.le), h.1]

lemma uncheckedCopyValue_ok {a : ByteBlock k} :
    uncheckedCopyValue b k o = .ok a ↔ At b.bytes o a.bytes := by
  constructor
  · intro h
    unfold uncheckedCopyValue at h
    split_ifs at h with hle
    cases h
    have hlen : ((b.bytes.drop o).take k).length = k := by
      rw [length_take, length_drop]
      unfold Slice.length at hle
      omega
    exact ⟨by rw [hlen], by rw [hlen]; exact hle⟩
  · intro h
    have hle : o + a.bytes.length ≤ b.length := h.le
    have htake := h.1
    rw [a.length_eq] at hle htake
    rw [uncheckedCopyValue, dif_pos hle]
    exact congrArg Except.ok (ext htake)

lemma rawBlocks_of_at {as : List (ByteBlock k)} (h : At b.bytes o (ByteBlock.flatten as)) :
    rawBlocks b k o as.length = .ok as := by
  have hle : o + (ByteBlock.flatten as).length ≤ b.length := h.le
  have htake := h.1
  rw [ByteBlock.length_flatten] at hle htake
  rw [rawBlocks, dif_pos hle]
  simp only [htake, ByteBlock.cut_flatten]

lemma exists_blocks (h : o + n * k ≤ b.length) :
    ∃ as : List (ByteBlock k), as.length = n ∧ At b.bytes o (flatten as) := by
  obtain ⟨w, hlen, hat⟩ := exists_at h
  exact ⟨cut k n w hlen, length_cut hlen,
    by rw [flatten_cut]; exact hat⟩

lemma exists_block (h : o + k ≤ b.length) : ∃ a : ByteBlock k, At b.bytes o a.bytes := by
  obtain ⟨w, hlen, hat⟩ := exists_at h
  exact ⟨⟨w, hlen⟩, hat⟩

/-! ### Short vectors -/

lemma length_shortVec (w : List UInt8) :
    (shortVec w).length = (compactU16 w.length).length + w.length := length_append

lemma add_length_shortVec (w : List UInt8) :
    o + (compactU16 w.length).length + w.length = o + (shortVec w).length := by
  rw [length_shortVec, Nat.add_assoc]

lemma skipShortVec_ok (hn : n < 2 ^ 14) (hat : At b.bytes o (compactU16 n)) {u : Unit} :
    advanceOffsetForArray b 1 n (o + (compactU16 n).length) = .ok (u, o') ↔
      ∃ w, w.length = n ∧ At b.bytes o (shortVec w) ∧ o' = o + (shortVec w).length := by
  rw [advanceOffsetForArray_ok hat.le (by omega), Nat.mul_one]
  constructor
  · rintro ⟨hle, rfl⟩
    obtain ⟨w, rfl, hw⟩ := exists_at hle
    exact ⟨w, rfl, at_append.2 ⟨hat, hw⟩, add_length_shortVec w⟩
  · rintro ⟨w, rfl, hw, rfl⟩
    rw [← add_length_shortVec]
    exact ⟨(at_append.1 hw).2.le, rfl⟩

/-! ### Instructions of the legacy and v0 layouts -/

def SvmInstruction.Short (ix : SvmInstruction) : Prop :=
  ix.accounts.length < 2 ^ 14 ∧ ix.data.length < 2 ^ 14

def SvmInstruction.frame (ix : SvmInstruction) : LegacyAndV0InstructionFrame where
  numAccounts := ix.accounts.length
  dataLen := ix.data.length
  numAccountsLen := (compactU16 ix.accounts.length).length
  dataLenLen := (compactU16 ix.data.length).length

lemma SvmInstruction.at_encode {ix : SvmInstruction} : At b.bytes o ix.encode ↔
    b.bytes[o]? = some ix.programIdIndex ∧ At b.bytes (o + 1) (shortVec ix.accounts)
    ∧ At b.bytes (o + 1 + (shortVec ix.accounts).length) (shortVec ix.data) := by
  rw [encode, at_append, at_append, at_singleton, and_assoc, length_append, ← Nat.add_assoc]
  rfl

lemma SvmInstruction.length_encode (ix : SvmInstruction) :
    ix.encode.length = 1 + (shortVec ix.accounts).length + (shortVec ix.data).length := by
  rw [encode, length_append, length_append]
  rfl

lemma readInstruction_ok {f : LegacyAndV0InstructionFrame} :
    readInstruction b o = .ok (f, o') ↔
      ∃ ix : SvmInstruction, ix.Short ∧ At b.bytes o ix.encode ∧ f = ix.frame
        ∧ o' = o + ix.encode.length := by
  unfold readInstruction
  simp only [bind_ok, readByte_ok, pure_ok, Prod.exists, readLength_ok]
  constructor
  · rintro ⟨p, _, ⟨hp, rfl⟩, n, _, _, ⟨hn, hatn, rfl, rfl⟩, _, _, hskip, m, _, _,
      ⟨hm, hatm, rfl, rfl⟩, _, _, hskip', rfl, rfl⟩
    obtain ⟨accounts, rfl, hacc, rfl⟩ := (skipShortVec_ok hn hatn).1 hskip
    obtain ⟨data, rfl, hdata, rfl⟩ := (skipShortVec_ok hm hatm).1 hskip'
    refine ⟨⟨p, accounts, data⟩, ⟨hn, hm⟩, at_encode.2 ⟨hp, hacc, hdata⟩, rfl, ?_⟩
    rw [length_encode, Nat.add_assoc, Nat.add_assoc, Nat.add_assoc]
  · rintro ⟨ix, ⟨hn, hm⟩, hat, rfl, rfl⟩
    obtain ⟨hp, hacc, hdata⟩ := at_encode.1 hat
    have hatn := (at_append.1 hacc).1
    have hatm := (at_append.1 hdata).1
    refine ⟨_, _, ⟨hp, rfl⟩, _, _, _, ⟨hn, hatn, rfl, rfl⟩, (), _,
      (skipShortVec_ok hn hatn).2 ⟨_, rfl, hacc, rfl⟩, _, _, _, ⟨hm, hatm, rfl, rfl⟩, (), _,
      (skipShortVec_ok hm hatm).2 ⟨_, rfl, hdata, rfl⟩, rfl, ?_⟩
    rw [length_encode, Nat.add_assoc, Nat.add_assoc, Nat.add_assoc]

lemma readInstructions_ok {fs : List LegacyAndV0InstructionFrame} (ho : o ≤ b.length) :
    readInstructions b n o = .ok (fs, o') ↔
      ∃ ixs : List SvmInstruction, ixs.length = n ∧ (∀ ix ∈ ixs, ix.Short)
        ∧ At b.bytes o (ixs.flatMap encode) ∧ fs = ixs.map frame
        ∧ o' = o + (ixs.flatMap encode).length := by
  induction n generalizing o o' fs with
  | zero =>
    simp only [readInstructions, pure_ok]
    constructor
    · rintro ⟨rfl, rfl⟩
      exact ⟨[], rfl, nofun, at_nil.2 ho, rfl, rfl⟩
    · rintro ⟨ixs, hlen, -, -, rfl, rfl⟩
      cases length_eq_zero_iff.1 hlen
      exact ⟨rfl, rfl⟩
  | succ n ih =>
    simp only [readInstructions, bind_ok, pure_ok, readInstruction_ok]
    constructor
    · rintro ⟨_, _, ⟨ix, hshort, hat, rfl, rfl⟩, fs', o2, hrest, rfl, rfl⟩
      obtain ⟨ixs, rfl, hshorts, hats, rfl, rfl⟩ := (ih hat.le).1 hrest
      refine ⟨ix :: ixs, rfl, forall_mem_cons.2 ⟨hshort, hshorts⟩, ?_, rfl, ?_⟩
      · exact at_append.2 ⟨hat, hats⟩
      · rw [flatMap_cons, length_append, Nat.add_assoc]
    · rintro ⟨ixs, hlen, hshorts, hats, rfl, rfl⟩
      obtain ⟨ix, ixs, rfl⟩ : ∃ ix ixs', ixs = ix :: ixs' := exists_cons_of_length_eq_add_one hlen
      rw [flatMap_cons, at_append] at hats
      obtain ⟨hshort, hshorts⟩ := forall_mem_cons.1 hshorts
      rw [flatMap_cons, length_append, ← Nat.add_assoc]
      exact ⟨_, _, ⟨ix, hshort, hats.1, rfl, rfl⟩, _, _,
        (ih hats.1.le).2 ⟨ixs, Nat.succ.inj hlen, hshorts, hats.2, rfl, rfl⟩, rfl, rfl⟩

lemma three_le_length_encode (ixs : List SvmInstruction) (h : ∀ ix ∈ ixs, ix.Short) :
    3 * ixs.length ≤ (ixs.flatMap encode).length := by
  induction ixs with
  | nil => exact Nat.le_refl _
  | cons ix ixs ih =>
    obtain ⟨⟨hn, hm⟩, h⟩ := forall_mem_cons.1 h
    have := ih h
    obtain ⟨hn', -⟩ := length_compactU16_le hn
    obtain ⟨hm', -⟩ := length_compactU16_le hm
    rw [flatMap_cons, length_append, length_encode, length_shortVec,
      length_shortVec, length_cons]
    omega

lemma tryNewForLegacyAndV0_ok {f : InstructionsFrame} :
    tryNewForLegacyAndV0 b o = .ok (f, o') ↔
      ∃ ixs : List SvmInstruction, ixs.length < 2 ^ 14 ∧ (∀ ix ∈ ixs, ix.Short)
        ∧ At b.bytes o (compactU16 ixs.length ++ ixs.flatMap encode)
        ∧ f = .legacyAndV0 ixs.length (asU16 (o + (compactU16 ixs.length).length))
          (ixs.map frame)
        ∧ o' = o + (compactU16 ixs.length ++ ixs.flatMap encode).length := by
  unfold tryNewForLegacyAndV0
  simp only [bind_ok, get_ok, pure_ok, lift_ok, optimizedReadCompressedU16_ok, at_append,
    length_append, ← Nat.add_assoc, existsAndEq, and_assoc, and_true, true_and]
  constructor
  · rintro ⟨_, hn, hat, _, -, _, hread, rfl⟩
    obtain ⟨ixs, rfl, hshort, hats, rfl, rfl⟩ := (readInstructions_ok hat.le).1 hread
    exact ⟨ixs, hn, hshort, hat, hats, rfl, rfl⟩
  · rintro ⟨ixs, hn, hshort, hat, hats, rfl, rfl⟩
    have hthree := three_le_length_encode ixs hshort
    have hmul : wrappingMul 3 ixs.length = 3 * ixs.length := Nat.mod_eq_of_lt (by omega)
    have hle : o + (compactU16 ixs.length).length + _ ≤ b.length := hats.le
    refine ⟨_, hn, hat, (), (checkRemaining_ok hat.le).2 ?_, _,
      (readInstructions_ok hat.le).2 ⟨ixs, rfl, hshort, hats, rfl, rfl⟩, rfl⟩
    omega

/-! ### Address table lookups -/

namespace SvmMessageAddressTableLookup

def Short (l : SvmMessageAddressTableLookup) : Prop :=
  l.writableIndexes.length < 2 ^ 14 ∧ l.readonlyIndexes.length < 2 ^ 14

lemma at_encode {l : SvmMessageAddressTableLookup} : At b.bytes o l.encode ↔
    At b.bytes o l.accountKey.bytes ∧ At b.bytes (o + 32) (shortVec l.writableIndexes)
    ∧ At b.bytes (o + 32 + (shortVec l.writableIndexes).length) (shortVec l.readonlyIndexes) := by
  rw [encode, at_append, at_append, and_assoc, length_append, l.accountKey.length_eq,
    ← Nat.add_assoc]

lemma length_encode (l : SvmMessageAddressTableLookup) : l.encode.length
    = 32 + (shortVec l.writableIndexes).length + (shortVec l.readonlyIndexes).length := by
  rw [encode, length_append, length_append, l.accountKey.length_eq]

end SvmMessageAddressTableLookup

def totalWritable (ls : List SvmMessageAddressTableLookup) : ℕ :=
  (ls.map fun l => l.writableIndexes.length).sum

def totalReadonly (ls : List SvmMessageAddressTableLookup) : ℕ :=
  (ls.map fun l => l.readonlyIndexes.length).sum

lemma totals_cons (l : SvmMessageAddressTableLookup) (ls : List SvmMessageAddressTableLookup) :
    totalWritable (l :: ls) = l.writableIndexes.length + totalWritable ls
      ∧ totalReadonly (l :: ls) = l.readonlyIndexes.length + totalReadonly ls := by
  simp [totalWritable, totalReadonly]

lemma readLookup_ok {nw nr : ℕ} (ho : o ≤ b.length) :
    readLookup b o = .ok ((nw, nr), o') ↔
      ∃ l : SvmMessageAddressTableLookup, l.Short ∧ At b.bytes o l.encode
        ∧ nw = l.writableIndexes.length ∧ nr = l.readonlyIndexes.length
        ∧ o' = o + l.encode.length := by
  unfold readLookup
  simp only [bind_ok, optimizedReadCompressedU16_ok, advanceOffsetForType_ok ho, pure_ok,
    Prod.mk.injEq]
  constructor
  · rintro ⟨_, _, ⟨hle, rfl⟩, _, _, ⟨hn, hatn, rfl⟩, _, _, hskip, _, _, ⟨hm, hatm, rfl⟩, _, _,
      hskip', ⟨rfl, rfl⟩, rfl⟩
    obtain ⟨key, hkey⟩ := exists_block hle
    obtain ⟨w, rfl, hatw, rfl⟩ := (skipShortVec_ok hn hatn).1 hskip
    obtain ⟨r, rfl, hatr, rfl⟩ := (skipShortVec_ok hm hatm).1 hskip'
    refine ⟨⟨key, w, r⟩, ⟨hn, hm⟩, SvmMessageAddressTableLookup.at_encode.2 ⟨hkey, hatw, hatr⟩, rfl,
      rfl, ?_⟩
    rw [SvmMessageAddressTableLookup.length_encode, Nat.add_assoc, Nat.add_assoc, Nat.add_assoc]
    rfl
  · rintro ⟨l, ⟨hn, hm⟩, hat, rfl, rfl, rfl⟩
    obtain ⟨hkey, hatw, hatr⟩ := SvmMessageAddressTableLookup.at_encode.1 hat
    have hle := hkey.le
    rw [l.accountKey.length_eq] at hle
    have hatn := (at_append.1 hatw).1
    have hatm := (at_append.1 hatr).1
    refine ⟨(), _, ⟨hle, rfl⟩, _, _, ⟨hn, hatn, rfl⟩, (), _,
      (skipShortVec_ok hn hatn).2 ⟨_, rfl, hatw, rfl⟩, _, _, ⟨hm, hatm, rfl⟩, (), _,
      (skipShortVec_ok hm hatm).2 ⟨_, rfl, hatr, rfl⟩, ⟨rfl, rfl⟩, ?_⟩
    rw [SvmMessageAddressTableLookup.length_encode, Nat.add_assoc, Nat.add_assoc, Nat.add_assoc]

lemma readLookups_ok {writable readonly tw tr : ℕ} (ho : o ≤ b.length) (hw : writable < 2 ^ 32)
    (hr : readonly < 2 ^ 32) :
    readLookups b n writable readonly o = .ok ((tw, tr), o') ↔
      ∃ ls : List SvmMessageAddressTableLookup, ls.length = n ∧ (∀ l ∈ ls, l.Short)
        ∧ At b.bytes o (ls.flatMap SvmMessageAddressTableLookup.encode)
        ∧ tw = (writable + totalWritable ls) % 2 ^ 32 ∧ tr = (readonly + totalReadonly ls) % 2 ^ 32
        ∧ o' = o + (ls.flatMap SvmMessageAddressTableLookup.encode).length := by
  induction n generalizing o o' writable readonly with
  | zero =>
    simp only [readLookups, pure_ok, Prod.mk.injEq]
    constructor
    · rintro ⟨⟨rfl, rfl⟩, rfl⟩
      exact ⟨[], rfl, nofun, at_nil.2 ho, (Nat.mod_eq_of_lt hw).symm,
        (Nat.mod_eq_of_lt hr).symm, rfl⟩
    · rintro ⟨ls, hlen, -, -, rfl, rfl, rfl⟩
      cases length_eq_zero_iff.1 hlen
      exact ⟨⟨(Nat.mod_eq_of_lt hw).symm, (Nat.mod_eq_of_lt hr).symm⟩, rfl⟩
  | succ n ih =>
    simp only [readLookups, bind_ok, Prod.exists, readLookup_ok ho]
    have hmod {k : ℕ} : k % 2 ^ 32 < 2 ^ 32 := Nat.mod_lt _ (by decide)
    constructor
    · rintro ⟨_, _, _, ⟨l, hshort, hat, rfl, rfl, rfl⟩, hrest⟩
      obtain ⟨ls, rfl, hshorts, hats, rfl, rfl, rfl⟩ := (ih hat.le hmod hmod).1 hrest
      obtain ⟨hw', hr'⟩ := totals_cons l ls
      refine ⟨l :: ls, rfl, forall_mem_cons.2 ⟨hshort, hshorts⟩, ?_, ?_, ?_, ?_⟩
      · exact at_append.2 ⟨hat, hats⟩
      · rw [hw', Nat.mod_add_mod, Nat.add_assoc]
      · rw [hr', Nat.mod_add_mod, Nat.add_assoc]
      · rw [flatMap_cons, length_append, Nat.add_assoc]
    · rintro ⟨ls, hlen, hshorts, hats, rfl, rfl, rfl⟩
      obtain ⟨l, ls, rfl⟩ : ∃ l ls', ls = l :: ls' := exists_cons_of_length_eq_add_one hlen
      obtain ⟨hw', hr'⟩ := totals_cons l ls
      rw [flatMap_cons, at_append] at hats
      obtain ⟨hshort, hshorts⟩ := forall_mem_cons.1 hshorts
      rw [flatMap_cons, length_append, ← Nat.add_assoc]
      refine ⟨_, _, _, ⟨l, hshort, hats.1, rfl, rfl, rfl⟩, (ih hats.1.le hmod hmod).2
        ⟨ls, Nat.succ.inj hlen, hshorts, hats.2, ?_, ?_, rfl⟩⟩
      · rw [hw', Nat.mod_add_mod, Nat.add_assoc]
      · rw [hr', Nat.mod_add_mod, Nat.add_assoc]

lemma totals_lt {ls : List SvmMessageAddressTableLookup} (h : ∀ l ∈ ls, l.Short) :
    totalWritable ls ≤ ls.length * 2 ^ 14 ∧ totalReadonly ls ≤ ls.length * 2 ^ 14 := by
  induction ls with
  | nil => exact ⟨Nat.le_refl _, Nat.le_refl _⟩
  | cons l ls ih =>
    obtain ⟨⟨hw, hr⟩, h⟩ := forall_mem_cons.1 h
    obtain ⟨hw', hr'⟩ := totals_cons l ls
    obtain ⟨ihw, ihr⟩ := ih h
    rw [hw', hr', length_cons]
    omega

lemma toU16_ok {m : ℕ} : toU16 k = .ok m ↔ k < 2 ^ 16 ∧ k = m := by
  unfold toU16
  split_ifs with h
  · rw [Except.ok.injEq]
    exact ⟨fun hk => ⟨h, hk⟩, fun hk => hk.2⟩
  · exact ⟨nofun, fun hk => absurd hk.1 h⟩

lemma lookupFrame_ok {f : AddressTableLookupFrame} :
    AddressTableLookupFrame.tryNew b o = .ok (f, o') ↔
      ∃ ls : List SvmMessageAddressTableLookup, ls.length ≤ 31 ∧ (∀ l ∈ ls, l.Short)
        ∧ o + 1 + 35 * ls.length ≤ b.length ∧ totalWritable ls < 2 ^ 16 ∧ totalReadonly ls < 2 ^ 16
        ∧ At b.bytes o (compactU16 ls.length ++ ls.flatMap SvmMessageAddressTableLookup.encode)
        ∧ f = ⟨.ofNat ls.length, asU16 (o + 1), totalWritable ls, totalReadonly ls⟩
        ∧ o' = o
          + (compactU16 ls.length ++ ls.flatMap SvmMessageAddressTableLookup.encode).length := by
  have hmax : maxAtlsPerPacket = 31 := by decide
  unfold AddressTableLookupFrame.tryNew
  simp only [bind_ok, get_ok, pure_ok, lift_ok, readByte_ok, ite_throw_ok, toU16_ok, Prod.exists,
    hmax, not_lt, existsAndEq, and_assoc, and_true, true_and]
  constructor
  · rintro ⟨v, hv, hv31, _, hcheck, _, _, hread, hw, hr, rfl⟩
    have hle : o + 1 ≤ b.length := (List.getElem?_eq_some_iff.1 hv).1
    obtain ⟨ls, hlen, hshort, hats, rfl, rfl, rfl⟩ :=
      (readLookups_ok hle (by decide) (by decide)).1 hread
    obtain ⟨htw, htr⟩ := totals_lt hshort
    rw [Nat.zero_add, Nat.mod_eq_of_lt (by omega)] at hw hr
    have hcompact : compactU16 ls.length = [v] := by
      rw [hlen, compactU16_one (by omega), UInt8.ofNat_toNat]
    have hmul : wrappingMul minSizedAtl v.toNat = 35 * v.toNat :=
      Nat.mod_eq_of_lt (show 35 * v.toNat < 2 ^ 64 by omega)
    rw [checkRemaining_ok hle, hmul] at hcheck
    refine ⟨ls, by omega, hshort, by omega, hw, hr, ?_, ?_, ?_⟩
    · rw [hcompact]
      exact at_append.2 ⟨at_singleton.2 hv, hats⟩
    · rw [hlen, UInt8.ofNat_toNat, Nat.zero_add, Nat.zero_add, Nat.mod_eq_of_lt (by omega),
        Nat.mod_eq_of_lt (by omega)]
    · rw [hcompact, length_append, length_singleton, Nat.add_assoc]
  · rintro ⟨ls, hlen, hshort, hle, hw, hr, hat, rfl, rfl⟩
    have hcompact : compactU16 ls.length = [.ofNat ls.length] := compactU16_one (by omega)
    have hnat : (UInt8.ofNat ls.length).toNat = ls.length := toNat_ofNat (by omega)
    rw [hcompact, at_append, at_singleton] at hat
    have hmul : wrappingMul minSizedAtl ls.length = 35 * ls.length :=
      Nat.mod_eq_of_lt (show 35 * ls.length < 2 ^ 64 by omega)
    have hzero {k : ℕ} (hk : k < 2 ^ 16) : k = (0 + k) % 2 ^ 32 := by omega
    refine ⟨_, hat.1, by omega, (),
      (checkRemaining_ok (by omega)).2 (by rw [hnat, hmul]; exact hle), _, _,
      (readLookups_ok (by omega) (by decide) (by decide)).2
        ⟨ls, hnat.symm, hshort, hat.2, hzero hw, hzero hr, ?_⟩, hw, hr, rfl⟩
    rw [hcompact, length_append, length_singleton, Nat.add_assoc]

/-! ### Instructions of the v1 layout -/

def V1InstructionHeader.encode (h : V1InstructionHeader) : List UInt8 :=
  [h.programIdIndex, h.numAccounts] ++ leBytes 2 h.dataLen

def SvmInstruction.FitsV1 (ix : SvmInstruction) : Prop :=
  ix.accounts.length < 2 ^ 8 ∧ ix.data.length < 2 ^ 16

def SvmInstruction.v1Header (ix : SvmInstruction) : V1InstructionHeader :=
  ⟨ix.programIdIndex, .ofNat ix.accounts.length, ix.data.length⟩

lemma readV1Header_ok {h : V1InstructionHeader} :
    readV1Header b o = .ok (h, o') ↔
      h.dataLen < 2 ^ 16 ∧ At b.bytes o h.encode ∧ o' = o + 4 := by
  unfold readV1Header
  simp only [Except.bind_eq_ok, uncheckedCopyValue_ok]
  constructor
  · rintro ⟨⟨w, hw⟩, hat, hh⟩
    obtain ⟨p, n, d0, d1, rfl⟩ : ∃ p n d0 d1, w = [p, n, d0, d1] := by
      rcases w with _ | ⟨p, _ | ⟨n, _ | ⟨d0, _ | ⟨d1, _ | ⟨e, w⟩⟩⟩⟩⟩ <;> cases hw
      exact ⟨p, n, d0, d1, rfl⟩
    have hle : o + 4 ≤ b.length := hat.le
    rw [wrappingAdd_eq hle] at hh
    cases hh
    have hlt : leNat [d0, d1] < 256 ^ 2 := leNat_lt [d0, d1]
    refine ⟨show leNat [d0, d1] < 2 ^ 16 by omega, ?_, rfl⟩
    show At b.bytes o ([p, n] ++ leBytes 2 (leNat [d0, d1]))
    rw [show leBytes 2 (leNat [d0, d1]) = [d0, d1] from leBytes_leNat [d0, d1]]
    exact hat
  · rintro ⟨hlt, hat, rfl⟩
    have hle : o + 4 ≤ b.length := hat.le
    have hlen : leNat (leBytes 2 h.dataLen) = h.dataLen := leNat_leBytes hlt
    refine ⟨⟨h.encode, rfl⟩, hat, ?_⟩
    rw [wrappingAdd_eq hle]
    show Except.ok ((⟨h.programIdIndex, h.numAccounts, leNat (leBytes 2 h.dataLen)⟩ :
      V1InstructionHeader), o + 4) = _
    rw [hlen]

def V1InstructionHeader.payloadLen (h : V1InstructionHeader) : ℕ := h.numAccounts.toNat + h.dataLen

lemma checkedAdd_eq (h : a + c < 2 ^ 64) : checkedAdd a c = .ok (a + c) := if_pos h

lemma readPayloadLens_ok {total t : ℕ} (ho : o ≤ b.length) (htotal : total + n * 2 ^ 17 < 2 ^ 63) :
    readPayloadLens b n total o = .ok (t, o') ↔
      ∃ hs : List V1InstructionHeader, hs.length = n ∧ (∀ h ∈ hs, h.dataLen < 2 ^ 16)
        ∧ At b.bytes o (hs.flatMap V1InstructionHeader.encode)
        ∧ t = total + (hs.map payloadLen).sum ∧ o' = o + 4 * n := by
  induction n generalizing o o' total with
  | zero =>
    simp only [readPayloadLens, pure_ok]
    constructor
    · rintro ⟨rfl, rfl⟩
      exact ⟨[], rfl, nofun, at_nil.2 ho, rfl, rfl⟩
    · rintro ⟨hs, hlen, -, -, rfl, rfl⟩
      cases length_eq_zero_iff.1 hlen
      exact ⟨rfl, rfl⟩
  | succ n ih =>
    simp only [readPayloadLens, bind_ok, lift_ok, readV1Header_ok]
    constructor
    · rintro ⟨h, _, ⟨hlt, hat, rfl⟩, _, _, ⟨hlen, rfl⟩, _, _, ⟨hsum, rfl⟩, hrest⟩
      have hacc := h.numAccounts.toNat_lt
      rw [checkedAdd_eq (by omega)] at hlen
      cases hlen
      rw [checkedAdd_eq (by omega)] at hsum
      cases hsum
      obtain ⟨hs, rfl, hlts, hats, rfl, rfl⟩ := (ih hat.le (by omega)).1 hrest
      refine ⟨h :: hs, rfl, forall_mem_cons.2 ⟨hlt, hlts⟩, ?_, ?_, ?_⟩
      · exact at_append.2 ⟨hat, hats⟩
      · rw [map_cons, sum_cons, Nat.add_assoc]
        rfl
      · show o + 4 + _ = _
        omega
    · rintro ⟨hs, hlen, hlts, hats, rfl, rfl⟩
      obtain ⟨h, hs, rfl⟩ : ∃ h hs', hs = h :: hs' := exists_cons_of_length_eq_add_one hlen
      rw [flatMap_cons, at_append] at hats
      obtain ⟨hlt, hlts⟩ := forall_mem_cons.1 hlts
      have hacc := h.numAccounts.toNat_lt
      refine ⟨h, _, ⟨hlt, hats.1, rfl⟩, _, _, ⟨checkedAdd_eq (by omega), rfl⟩, _, _,
        ⟨checkedAdd_eq (by omega), rfl⟩, (ih hats.1.le (by omega)).2
          ⟨hs, Nat.succ.inj hlen, hlts, hats.2, ?_, by
            show _ = o + 4 + 4 * n
            omega⟩⟩
      rw [map_cons, sum_cons, Nat.add_assoc]
      rfl

lemma exists_instructions {hs : List V1InstructionHeader} (hlt : ∀ h ∈ hs, h.dataLen < 2 ^ 16)
    (hle : o + (hs.map payloadLen).sum ≤ b.length) :
    ∃ ixs : List SvmInstruction, ixs.map v1Header = hs ∧ (∀ ix ∈ ixs, ix.FitsV1)
      ∧ At b.bytes o (ixs.flatMap encodePayload)
      ∧ (ixs.flatMap encodePayload).length
        = (hs.map payloadLen).sum := by
  induction hs generalizing o with
  | nil => exact ⟨[], rfl, nofun, at_nil.2 hle, rfl⟩
  | cons h hs ih =>
    obtain ⟨hd, hlt⟩ := forall_mem_cons.1 hlt
    rw [map_cons, sum_cons] at hle
    unfold payloadLen at hle
    obtain ⟨accounts, hacc, hata⟩ := @exists_at _ b.bytes o h.numAccounts.toNat
      (by unfold Slice.length at hle; omega)
    obtain ⟨data, hdata, hatd⟩ := @exists_at _ b.bytes (o + accounts.length) h.dataLen
      (by unfold Slice.length at hle; omega)
    obtain ⟨ixs, rfl, hfits, hats, hlen⟩ := @ih (o + accounts.length + data.length) hlt (by
      unfold payloadLen
      omega)
    have hlt8 := h.numAccounts.toNat_lt
    refine ⟨⟨h.programIdIndex, accounts, data⟩ :: ixs, ?_, ?_, ?_, ?_⟩
    · rw [map_cons]
      unfold v1Header
      rw [hacc, hdata, UInt8.ofNat_toNat]
    · exact forall_mem_cons.2 ⟨⟨by dsimp only; omega, by dsimp only; omega⟩, hfits⟩
    · rw [flatMap_cons, at_append]
      refine ⟨at_append.2 ⟨hata, hatd⟩, ?_⟩
      rw [encodePayload, length_append, ← Nat.add_assoc]
      exact hats
    · rw [flatMap_cons, length_append, hlen, map_cons, sum_cons]
      unfold encodePayload payloadLen
      rw [length_append, hacc, hdata]

lemma map_v1Header_encode (ixs : List SvmInstruction) :
    (ixs.map v1Header).flatMap V1InstructionHeader.encode
      = ixs.flatMap encodeHeader := by
  rw [flatMap_map]
  rfl

lemma sum_payloadLen {ixs : List SvmInstruction} (h : ∀ ix ∈ ixs, ix.FitsV1) :
    ((ixs.map v1Header).map payloadLen).sum
      = (ixs.flatMap encodePayload).length := by
  induction ixs with
  | nil => rfl
  | cons ix ixs ih =>
    obtain ⟨hix, h⟩ := forall_mem_cons.1 h
    rw [map_cons, map_cons, sum_cons, ih h, flatMap_cons, length_append,
      encodePayload, length_append, payloadLen]
    unfold v1Header
    rw [toNat_ofNat hix.1]

lemma length_encodeHeaders (ixs : List SvmInstruction) :
    (ixs.flatMap encodeHeader).length = 4 * ixs.length := by
  induction ixs with
  | nil => rfl
  | cons ix ixs ih =>
    rw [flatMap_cons, length_append, ih, length_cons]
    show 4 + _ = _
    omega

lemma tryNewForV1_ok {f : InstructionsFrame} {k : UInt8} (ho : o ≤ b.length) :
    tryNewForV1 b k o = .ok (f, o') ↔
      ∃ ixs : List SvmInstruction, ixs.length = k.toNat ∧ (∀ ix ∈ ixs, ix.FitsV1)
        ∧ At b.bytes o (ixs.flatMap encodeHeader
          ++ ixs.flatMap encodePayload)
        ∧ f = .v1 k.toNat (asU16 o) (asU16 (o + 4 * k.toNat))
        ∧ o' = o + (ixs.flatMap encodeHeader
          ++ ixs.flatMap encodePayload).length := by
  have hk := k.toNat_lt
  have hmul : wrappingMul v1HeaderSize k.toNat = 4 * k.toNat :=
    Nat.mod_eq_of_lt (show 4 * k.toNat < 2 ^ 64 by omega)
  unfold tryNewForV1
  simp only [hmul, Except.bind_eq_ok, Prod.exists, checkRemaining_ok ho]
  constructor
  · rintro ⟨_, hle, total, _, hread, _, hcheck, h⟩
    rw [wrappingAdd_eq hle] at h hcheck
    obtain ⟨hs, hlen, hlt, hat, rfl, rfl⟩ := (readPayloadLens_ok ho (by omega)).1 hread
    rw [checkRemaining_ok hle, Nat.zero_add] at hcheck
    obtain ⟨ixs, rfl, hfits, hats, hsum⟩ := exists_instructions hlt hcheck
    rw [length_map] at hlen
    rw [map_v1Header_encode] at hat
    rw [Nat.zero_add, wrappingAdd_eq hcheck, ← hsum] at h
    cases h
    refine ⟨ixs, hlen, hfits, at_append.2 ⟨hat, ?_⟩, rfl, ?_⟩
    · rw [length_encodeHeaders, hlen]
      exact hats
    · rw [length_append, length_encodeHeaders, hlen, Nat.add_assoc]
  · rintro ⟨ixs, hlen, hfits, hat, rfl, rfl⟩
    rw [at_append, length_encodeHeaders, hlen] at hat
    have hle : o + 4 * k.toNat ≤ b.length := by
      have := hat.1.le
      rw [length_encodeHeaders, hlen] at this
      exact this
    have hlt : ∀ h ∈ ixs.map v1Header, h.dataLen < 2 ^ 16 := by
      intro h hmem
      obtain ⟨ix, hix, rfl⟩ := mem_map.1 hmem
      exact (hfits ix hix).2
    have hsum := sum_payloadLen hfits
    have hcheck : o + 4 * k.toNat + (ixs.flatMap encodePayload).length ≤ b.length :=
      hat.2.le
    rw [wrappingAdd_eq hle]
    refine ⟨(), hle, _, _, (readPayloadLens_ok ho (by omega)).2
      ⟨ixs.map v1Header, by rw [length_map, hlen], hlt,
        by rw [map_v1Header_encode]; exact hat.1, rfl, rfl⟩, (), ?_, ?_⟩
    · rw [checkRemaining_ok hle, Nat.zero_add, hsum]
      exact hcheck
    · rw [Nat.zero_add, hsum, wrappingAdd_eq hcheck, length_append, length_encodeHeaders, hlen,
        Nat.add_assoc]
      rfl

end BlackBull.TransactionView
