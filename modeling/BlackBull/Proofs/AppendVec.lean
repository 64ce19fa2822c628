import BlackBull.Lib.Run
import BlackBull.Accounts.AppendVec

/-!
# The layout check of an account storage file

The scan goes from record to record by lengths that it reads in the file.
-/

namespace BlackBull.AppendVec

open List

/-- Rounded up to a multiple of 8. -/
def align (x : ℕ) : ℕ := (x + 7) / 8 * 8

/-- An account as a file holds it. An account without lamports is the default one. -/
structure Record where
  writeVersion : ByteBlock 8
  pubkey : ByteBlock 32
  lamports : ByteBlock 8
  rentEpoch : ByteBlock 8
  owner : ByteBlock 32
  executable : Bool
  flagPadding : ByteBlock 7
  obsoleteHash : ByteBlock 32
  data : List UInt8
  data_lt : data.length < 2 ^ 64
  default_of_zero : leNat lamports.bytes = 0 → data = [] ∧ executable = false
    ∧ leNat rentEpoch.bytes = 0 ∧ owner.bytes = defaultKey

/-- The bytes of a record, as they are in a file. -/
def Record.encode (r : Record) : List UInt8 :=
  r.writeVersion.bytes ++ (leBytes 8 r.data.length ++ (r.pubkey.bytes ++ (r.lamports.bytes
    ++ (r.rentEpoch.bytes ++ (r.owner.bytes ++ ([if r.executable then 1 else 0]
    ++ (r.flagPadding.bytes ++ (r.obsoleteHash.bytes ++ r.data))))))))

/-- The bytes are the records one after another, each but the last one padded to a multiple of 8. -/
def Laid : List UInt8 → List Record → Prop
  | w, [] => w = []
  | w, r :: rs => r.encode <+: w ∧ Laid (w.drop (align r.encode.length)) rs

lemma Record.length_encode (r : Record) : r.encode.length = storeMetaOverhead + r.data.length := by
  simp only [encode, length_append, ByteBlock.length_eq, length_leBytes, length_singleton,
    storeMetaOverhead]
  omega

/-- The two metas at an offset. -/
def metas (w : List UInt8) (o : ℕ) : Option (StoredMeta × AccountMeta) :=
  if o + 104 ≤ w.length then
    some (.ofBytes ((w.drop o).take 48), .ofBytes ((w.drop (o + 48)).take 56))
  else none

/-- A record that the scan measures: it is not the end mark, and its size is a word. -/
def recordAt (w : List UInt8) (o : ℕ) : Option (StoredMeta × AccountMeta) :=
  (metas w o).filter fun ma =>
    ¬ (ma.2.lamports = 0 ∧ ma.1.pubkey = defaultKey) ∧ storeMetaOverhead + ma.1.dataLen < 2 ^ 64

/-- The offsets the scan comes to by records that end in the file. -/
inductive Scanned (w : List UInt8) : ℕ → Prop
  | start : Scanned w 0
  | next {o : ℕ} {m : StoredMeta} {a : AccountMeta} : Scanned w o → recordAt w o = some (m, a) →
      o + (storeMetaOverhead + m.dataLen) ≤ w.length →
      Scanned w (o + align (storeMetaOverhead + m.dataLen))

/-- No record that the scan comes to ends beyond the last word. -/
def EndsInWord (w : List UInt8) : Prop :=
  ∀ o m a, Scanned w o → recordAt w o = some (m, a) →
    o + (storeMetaOverhead + m.dataLen) < 2 ^ 64

variable {w : List UInt8}

lemma Scanned.aligned {o : ℕ} (h : Scanned w o) : o % 8 = 0 ∧ o ≤ align w.length := by
  induction h with
  | start => exact ⟨rfl, Nat.zero_le _⟩
  | next _ _ hle ih =>
    unfold align at ih ⊢
    omega

lemma metas_length {o : ℕ} {m : StoredMeta} {a : AccountMeta} (h : recordAt w o = some (m, a)) :
    o + 104 ≤ w.length ∧ m = .ofBytes ((w.drop o).take 48)
      ∧ a = .ofBytes ((w.drop (o + 48)).take 56) ∧ storeMetaOverhead + m.dataLen < 2 ^ 64 := by
  obtain ⟨hm, hfilter⟩ := Option.filter_eq_some_iff.1 h
  unfold metas at hm
  split_ifs at hm with hle
  cases hm
  exact ⟨hle, rfl, rfl, (of_decide_eq_true hfilter).2⟩

lemma exists_record {o size : ℕ} {m : StoredMeta} {a : AccountMeta}
    (h : recordAt w o = some (m, a)) (hle : o + (storeMetaOverhead + m.dataLen) ≤ w.length)
    (hs : (⟨m, a, o, size⟩ : StoredAccountNoData).sanitize = true) :
    ∃ r : Record, r.data.length = m.dataLen ∧ r.encode <+: w.drop o := by
  obtain ⟨-, hm, ha, hlt⟩ := metas_length h
  obtain ⟨u, hu⟩ : ∃ u, u = w.drop o := ⟨_, rfl⟩
  have hlen : storeMetaOverhead + m.dataLen ≤ u.length := by
    rw [hu, length_drop]
    omega
  unfold storeMetaOverhead at hlen hlt
  rw [← drop_drop, ← hu] at ha
  rw [← hu] at hm ⊢
  have hdata : m.dataLen = leNat ((u.drop 8).take 8) := by
    rw [hm, StoredMeta.ofBytes]
    simp [drop_take, take_take]
  have hpiece : ∀ k n, k + n ≤ u.length → ((u.drop k).take n).length = n := fun k n hkn => by
    rw [length_take, length_drop]
    omega
  have hat : ∀ k n, k + n ≤ u.length → At u k ((u.drop k).take n) := fun k n hkn => by
    rw [At, hpiece k n hkn]
    exact ⟨rfl, hkn⟩
  let piece (k n : ℕ) (hkn : k + n ≤ u.length) : ByteBlock n := ⟨_, hpiece k n hkn⟩
  have hlam : a.lamports = leNat ((u.drop 48).take 8) := by
    rw [ha, AccountMeta.ofBytes]
    simp [take_take]
  have hrent : a.rentEpoch = leNat ((u.drop 56).take 8) := by
    rw [ha, AccountMeta.ofBytes]
    simp [drop_take, take_take]
  have howner : a.owner = (u.drop 64).take 32 := by
    rw [ha, AccountMeta.ofBytes]
    simp [drop_take, take_take]
  obtain ⟨b, hb⟩ : ∃ b, u[96]? = some b := ⟨_, getElem?_eq_getElem (by omega)⟩
  have hexec : a.executable = b := by
    rw [ha, AccountMeta.ofBytes]
    simp [drop_take, headD_eq_head?_getD, head?_take, head?_drop, hb]
  simp only [StoredAccountNoData.sanitize, StoredAccountNoData.isDefaultAccount, hexec,
    Bool.and_eq_true, Bool.or_eq_true, beq_iff_eq, bne_iff_ne] at hs
  obtain ⟨hflag, hzero⟩ := hs
  refine ⟨⟨piece 0 8 (by omega), piece 16 32 (by omega), piece 48 8 (by omega),
    piece 56 8 (by omega), piece 64 32 (by omega), b == 1, piece 97 7 (by omega),
    piece 104 32 (by omega), (u.drop 136).take m.dataLen, ?_, fun h0 => ?_⟩, hpiece _ _ hlen, ?_⟩
  · rw [hpiece _ _ hlen]
    omega
  · obtain ⟨⟨⟨⟨-, hd⟩, hb0⟩, hr⟩, ho⟩ := hzero.resolve_left (not_not.2 (hlam.trans h0))
    refine ⟨by rw [hd, take_zero], by rw [hb0]; rfl, hrent.symm.trans hr, howner.symm.trans ho⟩
  · have hbit : (if (b == 1) = true then (1 : UInt8) else 0) = b := by
      have hcases : b = 0 ∨ b = 1 := by
        rcases (by omega : b.toNat = 0 ∨ b.toNat = 1) with h0 | h1
        · exact .inl (UInt8.toNat_inj.1 h0)
        · exact .inr (UInt8.toNat_inj.1 h1)
      rcases hcases with rfl | rfl <;> rfl
    have h8 : leBytes 8 m.dataLen = (u.drop 8).take 8 := by
      have hback := leBytes_leNat ((u.drop 8).take 8)
      rwa [hpiece 8 8 (by omega), ← hdata] at hback
    have hpre : ∀ z, At u 0 z → z <+: u := fun z hz => prefix_iff_eq_take.2 hz.1.symm
    refine hpre _ ?_
    simp only [Record.encode, at_append, ByteBlock.length_eq, length_singleton,
      hpiece _ _ hlen, h8, hpiece 8 8 (by omega), hbit, at_singleton, Nat.zero_add]
    exact ⟨hat 0 8 (by omega), hat 8 8 (by omega), hat 16 32 (by omega), hat 48 8 (by omega),
      hat 56 8 (by omega), hat 64 32 (by omega), hb, hat 97 7 (by omega), hat 104 32 (by omega),
      hat 136 _ hlen⟩

variable {v : Overflow} {bytes : List UInt8} {len o : ℕ} {backing : Backing}

def Backing.fails (backing : Backing) (o : ℕ) : Bool :=
  match backing with
  | .mmap => false
  | .file failsAt => failsAt o

lemma Overflow.add_ok {x y : ℕ} (h : x + y < 2 ^ 64) : v.add x y = .ok (x + y) := if_pos h

lemma u64Align_ok {x : ℕ} (h : x + 7 < 2 ^ 64) : u64Align v x = .ok (align x) := by
  rw [u64Align, Overflow.add_ok h]
  rfl

lemma getSlice_eq {slice : List UInt8} {size : ℕ} (hslice : slice.length ≤ 2 ^ 63)
    (ho : o + size < 2 ^ 64) :
    getSlice v slice o size = .ok (if o + size ≤ slice.length then
      some ((slice.drop o).take size, align (o + size)) else none) := by
  simp only [getSlice, Nat.mod_eq_of_lt ho]
  by_cases hle : o + size ≤ slice.length
  · rw [if_pos ⟨by omega, hle⟩, if_pos hle, u64Align_ok (by omega), Nat.add_sub_cancel_left]
    rfl
  · rw [if_neg (fun h => hle h.2), if_neg hle]
    rfl

lemma nextMetas_eq (hlen : len ≤ bytes.length) (hmax : len ≤ 2 ^ 62) (ho : o % 8 = 0)
    (hword : o < 2 ^ 63) :
    nextMetas v ⟨bytes, len, backing⟩ o
      = if backing.fails o then .error (.error .io) else .ok (metas (bytes.take len) o) := by
  have hl : (bytes.take len).length = len := by
    rw [length_take]
    omega
  have h48 : align (o + 48) = o + 48 := by
    unfold align
    omega
  cases backing with
  | mmap =>
    simp only [nextMetas, Backing.fails, if_neg (Nat.not_lt.2 hlen), metas]
    rw [getSlice_eq (by omega) (by omega)]
    by_cases h1 : o + 48 ≤ (bytes.take len).length
    · simp only [if_pos h1, h48, bind, Except.bind, pure, Except.pure]
      rw [getSlice_eq (by omega) (by omega)]
      by_cases h2 : o + 48 + 56 ≤ (bytes.take len).length
      · rw [if_pos h2, if_pos (by omega)]
        rfl
      · rw [if_neg h2, if_neg (by omega)]
        rfl
    · rw [if_neg h1, if_neg (by omega)]
      rfl
  | file failsAt =>
    simp only [nextMetas, Backing.fails, metas, length_drop, hl]
    by_cases hfail : failsAt o = true
    · rw [if_pos hfail, if_pos hfail]
      rfl
    rw [if_neg hfail, if_neg hfail]
    by_cases hshort : len - o < 48 + 56
    · rw [if_pos hshort, if_neg (by omega)]
      rfl
    rw [if_neg hshort, if_pos (by omega)]
    have hdrop : ((bytes.take len).drop o).length = len - o := by rw [length_drop, hl]
    rw [getSlice_eq (by omega) (by omega), if_pos (by omega)]
    simp only [bind, Except.bind, pure, Except.pure]
    rw [getSlice_eq (by omega) (by decide), if_pos (by rw [hdrop]; unfold align; omega),
      drop_zero, drop_drop]
    rfl

lemma nextAccount_eq (hlen : len ≤ bytes.length) (hmax : len ≤ 2 ^ 62) (ho : o % 8 = 0)
    (hword : o < 2 ^ 63) :
    nextAccount v ⟨bytes, len, backing⟩ o
      = if backing.fails o then .error (.error .io)
        else match recordAt (bytes.take len) o with
          | none => .ok none
          | some (m, a) => (v.add o (storeMetaOverhead + m.dataLen)).bind fun stop =>
            if len < stop then .ok none
            else (u64Align v (storeMetaOverhead + m.dataLen)).bind fun size =>
              .ok (some ⟨m, a, o, size⟩) := by
  unfold nextAccount
  rw [nextMetas_eq hlen hmax ho hword]
  split_ifs with hfail
  · rfl
  · unfold recordAt
    cases metas (bytes.take len) o with
    | none => rfl
    | some ma =>
      obtain ⟨m, a⟩ := ma
      simp only [Option.filter_some, bind, Except.bind, pure, Except.pure]
      by_cases hmark : a.lamports = 0 ∧ m.pubkey = defaultKey
      · rw [if_pos hmark, if_neg (fun h => (of_decide_eq_true h).1 hmark)]
      rw [if_neg hmark, calculateUnalignedStoredSizeChecked]
      by_cases hsize : storeMetaOverhead + m.dataLen < 2 ^ 64
      · rw [if_pos hsize, if_pos (decide_eq_true ⟨hmark, hsize⟩)]
      · rw [if_neg hsize, if_neg (fun h => hsize (of_decide_eq_true h).2)]

section Runs

variable (hlen : len ≤ bytes.length) (hmax : len ≤ maximumAppendVecFileSize)

/-- One step of the scan that checks the accounts. -/
def sanitized (s : Sanitized) (account : StoredAccountNoData) : Sanitized :=
  if !s.isMatch || !account.sanitize then { s with isMatch := false }
  else { s with
    lastOffset := account.offset + account.storedSize
    numAccounts := s.numAccounts + 1 }

include hlen

lemma scanned_lt (h : Scanned (bytes.take len) o) : o % 8 = 0 ∧ o < len + 8 := by
  have hw := h.aligned
  rw [length_take, Nat.min_eq_left hlen] at hw
  unfold align at hw
  omega

include hmax

lemma scanStep_next (h : Scanned (bytes.take len) o) (hfail : backing.fails o = false)
    {m : StoredMeta} {a : AccountMeta} (hr : recordAt (bytes.take len) o = some (m, a))
    (hle : o + (storeMetaOverhead + m.dataLen) ≤ len) (s : Sanitized) :
    scanStep v (sanitizeAccount v) ⟨bytes, len, backing⟩ s o
      = .ok (some (sanitized s ⟨m, a, o, align (storeMetaOverhead + m.dataLen)⟩,
        o + align (storeMetaOverhead + m.dataLen))) := by
  have ho := scanned_lt hlen h
  unfold maximumAppendVecFileSize at hmax
  have hadd : o + align (storeMetaOverhead + m.dataLen) < 2 ^ 64 := by
    unfold align
    omega
  have hstop : o + (storeMetaOverhead + m.dataLen) < 2 ^ 64 := by omega
  have hsize : storeMetaOverhead + m.dataLen + 7 < 2 ^ 64 := by omega
  unfold scanStep
  rw [nextAccount_eq hlen (by omega) ho.1 (by omega), hfail, hr]
  simp only [Bool.false_eq_true, if_false, Overflow.add_ok hstop, u64Align_ok hsize, Except.bind,
    if_neg (Nat.not_lt.2 hle), bind, pure, Except.pure, sanitizeAccount, sanitized,
    Overflow.add_ok hadd]
  split_ifs <;> rfl

/-- Where no record ends beyond the last word, a step stops or goes on to the next record. -/
lemma scanStep_cases (h : Scanned (bytes.take len) o) (hend : EndsInWord (bytes.take len))
    (s : Sanitized) : ∃ r, scanStep v (sanitizeAccount v) ⟨bytes, len, backing⟩ s o = r
      ∧ (r = .error (.error .io) ∨ r = .ok none ∨ ∃ m a, recordAt (bytes.take len) o = some (m, a)
        ∧ o + (storeMetaOverhead + m.dataLen) ≤ len
        ∧ r = .ok (some (sanitized s ⟨m, a, o, align (storeMetaOverhead + m.dataLen)⟩,
          o + align (storeMetaOverhead + m.dataLen)))) := by
  have ho := scanned_lt hlen h
  have hmax' := hmax
  unfold maximumAppendVecFileSize at hmax'
  have hnext := @nextAccount_eq v bytes len o backing hlen (by omega) ho.1 (by omega)
  cases hfail : backing.fails o with
  | true =>
    refine ⟨_, ?_, .inl rfl⟩
    rw [scanStep, hnext, if_pos hfail]
    rfl
  | false =>
    rw [if_neg (by rw [hfail]; decide)] at hnext
    cases hr : recordAt (bytes.take len) o with
    | none =>
      refine ⟨_, ?_, .inr (.inl rfl)⟩
      rw [scanStep, hnext, hr]
      rfl
    | some ma =>
      obtain ⟨m, a⟩ := ma
      by_cases hle : o + (storeMetaOverhead + m.dataLen) ≤ len
      · exact ⟨_, scanStep_next hlen hmax h hfail hr hle s, .inr (.inr ⟨m, a, rfl, hle, rfl⟩)⟩
      · refine ⟨_, ?_, .inr (.inl rfl)⟩
        rw [scanStep, hnext, hr]
        simp only [Overflow.add_ok (hend o m a h hr), Except.bind, if_pos (Nat.lt_of_not_le hle)]
        rfl

/-- The scan ends, without a panic, and what it has counted are records one after another. -/
lemma scan_spec (hend : EndsInWord (bytes.take len)) (h : Scanned (bytes.take len) o)
    (s : Sanitized) :
    ∃ r, (∀ fuel, len + 8 ≤ o + fuel →
        scanStoredAccountsNoData v (sanitizeAccount v) ⟨bytes, len, backing⟩ fuel s o = some r)
      ∧ (∀ p, r ≠ .error (.panic p))
      ∧ ∀ s', r = .ok s' → s'.isMatch = true → s.isMatch = true
        ∧ (s.lastOffset = o → s'.lastOffset = align len →
          ∃ rs, s'.numAccounts = s.numAccounts + rs.length
            ∧ Laid ((bytes.take len).drop o) rs) := by
  obtain ⟨k, hk⟩ : ∃ k, k = len + 8 - o := ⟨_, rfl⟩
  induction k using Nat.strong_induction_on generalizing o s with
  | _ k ih =>
    have ho := scanned_lt hlen h
    have hfuel : ∀ fuel, len + 8 ≤ o + fuel → ∃ fuel', fuel = fuel' + 1 := fun fuel hf =>
      ⟨fuel - 1, by omega⟩
    have hw : (bytes.take len).length = len := by
      rw [length_take]
      omega
    obtain ⟨_, hs, rfl | rfl | ⟨m, a, hr, hle, rfl⟩⟩ := scanStep_cases hlen hmax h hend s
    · refine ⟨.error (.error .io), fun fuel hf => ?_, nofun, nofun⟩
      obtain ⟨fuel, rfl⟩ := hfuel fuel hf
      rw [scanStoredAccountsNoData, hs]
    · refine ⟨.ok s, fun fuel hf => ?_, nofun, fun s' hs' hmatch => ?_⟩
      · obtain ⟨fuel, rfl⟩ := hfuel fuel hf
        rw [scanStoredAccountsNoData, hs]
      cases hs'
      refine ⟨hmatch, fun hlast hall => ⟨[], rfl, ?_⟩⟩
      -- the last record ends where the aligned length is
      refine drop_eq_nil_iff.2 ?_
      rw [hw, ← hlast, hall]
      unfold align
      omega
    · have hgrow : o < o + align (storeMetaOverhead + m.dataLen) := by
        unfold align storeMetaOverhead
        omega
      obtain ⟨r, hrun, hpanic, hok⟩ := ih _ (by omega)
        (h.next hr (by rwa [hw])) (sanitized s ⟨m, a, o, align (storeMetaOverhead + m.dataLen)⟩) rfl
      refine ⟨r, fun fuel hf => ?_, hpanic, fun s' hs' hmatch => ?_⟩
      · obtain ⟨fuel, rfl⟩ := hfuel fuel hf
        rw [scanStoredAccountsNoData, hs]
        exact hrun fuel (by omega)
      obtain ⟨hm, hrs⟩ := hok s' hs' hmatch
      unfold sanitized at hm hrs
      split_ifs at hm hrs with hbad
      simp only [Bool.or_eq_true, Bool.not_eq_true', not_or, Bool.not_eq_false] at hbad
      refine ⟨hbad.1, fun _ hall => ?_⟩
      obtain ⟨rs, hnum, hlaid⟩ := hrs rfl hall
      obtain ⟨r, hdata, hpre⟩ := exists_record hr (by rwa [hw]) hbad.2
      refine ⟨r :: rs, ?_, hpre, ?_⟩
      · rw [hnum, length_cons]
        show s.numAccounts + 1 + _ = _
        omega
      · rwa [drop_drop, r.length_encode, hdata]

lemma scan_scanned (h : Scanned (bytes.take len) o) :
    ∃ k s, ∀ fuel, scanStoredAccountsNoData v (sanitizeAccount v) ⟨bytes, len, .mmap⟩ (fuel + k)
        ⟨0, true, 0⟩ 0
      = scanStoredAccountsNoData v (sanitizeAccount v) ⟨bytes, len, .mmap⟩ fuel s o := by
  induction h with
  | start => exact ⟨0, _, fun _ => rfl⟩
  | @next o m a h hr hle ih =>
    obtain ⟨k, s, hk⟩ := ih
    rw [length_take, Nat.min_eq_left hlen] at hle
    have hs := @scanStep_next v _ _ _ .mmap hlen hmax h rfl _ _ hr hle s
    refine ⟨k + 1, sanitized s ⟨m, a, o, align (storeMetaOverhead + m.dataLen)⟩, fun fuel => ?_⟩
    rw [← Nat.add_assoc, Nat.add_right_comm, hk, scanStoredAccountsNoData, hs]

omit hlen hmax in
lemma scan_congr {bytes' : List UInt8} (hlen : len ≤ bytes.length) (hlen' : len ≤ bytes'.length)
    (htake : bytes'.take len = bytes.take len) (fuel : ℕ) (s : Sanitized) (o : ℕ) :
    scanStoredAccountsNoData v (sanitizeAccount v) ⟨bytes', len, backing⟩ fuel s o
      = scanStoredAccountsNoData v (sanitizeAccount v) ⟨bytes, len, backing⟩ fuel s o := by
  have hmetas : ∀ o, nextMetas v ⟨bytes', len, backing⟩ o = nextMetas v ⟨bytes, len, backing⟩ o :=
    fun o => by
      simp only [nextMetas, htake, if_neg (Nat.not_lt.2 hlen), if_neg (Nat.not_lt.2 hlen')]
  have hstep : ∀ s o, scanStep v (sanitizeAccount v) ⟨bytes', len, backing⟩ s o
      = scanStep v (sanitizeAccount v) ⟨bytes, len, backing⟩ s o := fun s o => by
    simp only [scanStep, nextAccount, hmetas]
  induction fuel generalizing s o with
  | zero => rfl
  | succ fuel ih =>
    rw [scanStoredAccountsNoData, scanStoredAccountsNoData, hstep]
    rcases scanStep v (sanitizeAccount v) ⟨bytes, len, backing⟩ s o with e | _ | ⟨s', o'⟩
    · rfl
    · rfl
    · exact ih s' o'

end Runs

/-- The check ends without a panic, depends on no byte beyond the length and accepts nothing but
records one after another, in each build and however the file is read, just if no record that it
comes to ends beyond the last word. -/
theorem sanitizeLayoutAndLength_iff (bytes : List UInt8) (len : ℕ)
    (h : sanitizeLenAndSize len bytes.length = .ok ()) :
    (∀ v backing, ∃ r fuel₀,
      (∀ fuel ≥ fuel₀, sanitizeLayoutAndLength v ⟨bytes, len, backing⟩ fuel = some r)
      ∧ (∀ p, r ≠ .error (.panic p))
      ∧ (∀ n, r = .ok n → ∃ rs, rs.length = n ∧ Laid (bytes.take len) rs)
      ∧ ∀ bytes', len ≤ bytes'.length → bytes'.take len = bytes.take len → ∀ fuel,
        sanitizeLayoutAndLength v ⟨bytes', len, backing⟩ fuel
          = sanitizeLayoutAndLength v ⟨bytes, len, backing⟩ fuel)
    ↔ EndsInWord (bytes.take len) := by
  unfold sanitizeLenAndSize at h
  split_ifs at h with hzero hbig hsmall
  have hlen := Nat.le_of_not_lt hsmall
  have hmax : len ≤ maximumAppendVecFileSize := hlen.trans (Nat.le_of_not_lt hbig)
  have halign : ∀ v, u64Align v len = .ok (align len) := fun v =>
    u64Align_ok (by unfold maximumAppendVecFileSize at hmax; omega)
  constructor
  · intro hall o m a ho hr
    by_contra hover
    obtain ⟨r, fuel₀, hrun, hpanic, -⟩ := hall .panics .mmap
    obtain ⟨k, s, hk⟩ := @scan_scanned .panics _ _ _ hlen hmax ho
    have hpos := scanned_lt hlen ho
    have hstep : scanStep .panics (sanitizeAccount .panics) ⟨bytes, len, .mmap⟩ s o
        = .error (.panic .overflow) := by
      unfold maximumAppendVecFileSize at hmax
      rw [scanStep, nextAccount_eq hlen (by omega) hpos.1 (by omega), hr]
      simp only [Overflow.add, if_neg hover]
      rfl
    have hr' := hrun (fuel₀ + 1 + k) (by omega)
    rw [sanitizeLayoutAndLength, hk, scanStoredAccountsNoData, hstep] at hr'
    exact hpanic _ (Option.some.inj hr').symm
  · intro hend v backing
    obtain ⟨r, hrun, hpanic, hok⟩ := @scan_spec v _ _ _ backing hlen hmax hend .start ⟨0, true, 0⟩
    have hcongr : ∀ bytes', len ≤ bytes'.length → bytes'.take len = bytes.take len → ∀ fuel,
        sanitizeLayoutAndLength v ⟨bytes', len, backing⟩ fuel
          = sanitizeLayoutAndLength v ⟨bytes, len, backing⟩ fuel :=
      fun bytes' hlen' htake fuel => by
        simp only [sanitizeLayoutAndLength, scan_congr hlen hlen' htake]
    cases r with
    | error e =>
      refine ⟨.error e, len + 8, fun fuel hfuel => ?_, fun p hp => ?_, nofun, hcongr⟩
      · rw [sanitizeLayoutAndLength, hrun fuel (by omega)]
        rfl
      · cases hp
        exact hpanic p rfl
    | ok s =>
      have hres : ∀ fuel ≥ len + 8, sanitizeLayoutAndLength v ⟨bytes, len, backing⟩ fuel
          = some (if !s.isMatch || s.lastOffset != align len then .error (.error .incorrectLayout)
            else .ok s.numAccounts) := fun fuel hfuel => by
        rw [sanitizeLayoutAndLength, hrun fuel (by omega), Option.map_some]
        simp only [bind, Except.bind, halign]
        split_ifs <;> rfl
      refine ⟨_, len + 8, hres, fun p => ?_, fun n hn => ?_, hcongr⟩
      · split_ifs <;> nofun
      · split_ifs at hn with hbad
        cases hn
        simp only [Bool.or_eq_true, Bool.not_eq_true', bne_iff_ne, not_or, Bool.not_eq_false,
          not_not] at hbad
        obtain ⟨rs, hnum, hlaid⟩ := (hok s rfl hbad.1).2 rfl hbad.2
        exact ⟨rs, (hnum.trans (Nat.zero_add _)).symm, hlaid⟩

def oneLamport (dataLen : ℕ) : List UInt8 :=
  leBytes 8 0 ++ leBytes 8 dataLen ++ defaultKey ++ leBytes 8 1 ++ leBytes 8 0 ++ defaultKey
    ++ leBytes 8 0

def oneAccount : List UInt8 := oneLamport 0 ++ List.replicate 32 0

theorem oneAccount_checked :
    ∃ r fuel₀,
      (∀ fuel ≥ fuel₀, sanitizeLayoutAndLength .wraps ⟨oneAccount, 136, .mmap⟩ fuel = some r)
      ∧ ∀ p, r ≠ .error (.panic p) := by
  have hend : EndsInWord (oneAccount.take 136) := by
    intro o m a ho hr
    have hle := (metas_length hr).1
    cases ho with
    | start =>
      have h0 : recordAt (oneAccount.take 136) 0
          = some (⟨0, 0, defaultKey⟩, ⟨1, 0, defaultKey, 0⟩) := by decide +kernel
      cases hr.symm.trans h0
      decide
    | next _ _ _ =>
      have hlen : (oneAccount.take 136).length = 136 := by decide +kernel
      unfold align storeMetaOverhead at hle
      omega
  obtain ⟨r, fuel₀, hrun, hpanic, -⟩ :=
    (sanitizeLayoutAndLength_iff oneAccount 136 (by decide +kernel)).2 hend .wraps .mmap
  exact ⟨r, fuel₀, hrun, hpanic⟩

/-- The second account ends at `2 ^ 64`, which is offset 0 again. -/
def loopingAccounts : List UInt8 := oneAccount ++ oneLamport (2 ^ 64 - 272)

lemma sanitizeAccount_wraps (s : Sanitized) (account : StoredAccountNoData) :
    ∃ s', sanitizeAccount .wraps s account = .ok s' := by
  have hadd : ∀ x y, ∃ z, Overflow.wraps.add x y = .ok z := fun x y => by
    unfold Overflow.add
    split_ifs <;> exact ⟨_, rfl⟩
  obtain ⟨z, hz⟩ := hadd account.offset account.storedSize
  unfold sanitizeAccount
  rw [hz]
  split_ifs <;> exact ⟨_, rfl⟩

/-- The release build scans the two accounts for ever, and overflow checks stop it with a panic. -/
theorem loopingAccounts_unchecked :
    sanitizeLenAndSize 240 loopingAccounts.length = .ok ()
    ∧ (∀ fuel, sanitizeLayoutAndLength .wraps ⟨loopingAccounts, 240, .mmap⟩ fuel = none)
    ∧ sanitizeLayoutAndLength .panics ⟨loopingAccounts, 240, .mmap⟩ 2
      = some (.error (.panic .overflow)) := by
  refine ⟨by decide +kernel, fun fuel => ?_, by decide +kernel⟩
  have h0 : nextAccount .wraps ⟨loopingAccounts, 240, .mmap⟩ 0
      = .ok (some ⟨⟨0, 0, defaultKey⟩, ⟨1, 0, defaultKey, 0⟩, 0, 136⟩) := by decide +kernel
  have h136 : nextAccount .wraps ⟨loopingAccounts, 240, .mmap⟩ 136
      = .ok (some ⟨⟨0, 2 ^ 64 - 272, defaultKey⟩, ⟨1, 0, defaultKey, 0⟩, 136, 2 ^ 64 - 136⟩) := by
    decide +kernel
  have hloop : ∀ fuel s, ∀ o ∈ [0, 136], scanStoredAccountsNoData .wraps (sanitizeAccount .wraps)
      ⟨loopingAccounts, 240, .mmap⟩ fuel s o = none := by
    intro fuel
    induction fuel with
    | zero => exact fun _ _ _ => rfl
    | succ fuel ih =>
      intro s o ho
      rw [scanStoredAccountsNoData, scanStep]
      simp only [mem_cons, not_mem_nil, or_false] at ho
      rcases ho with rfl | rfl
      · obtain ⟨s', hs'⟩ := sanitizeAccount_wraps s
          ⟨⟨0, 0, defaultKey⟩, ⟨1, 0, defaultKey, 0⟩, 0, 136⟩
        rw [h0]
        simp only [bind, Except.bind, hs']
        exact ih s' 136 (by decide)
      · obtain ⟨s', hs'⟩ := sanitizeAccount_wraps s
          ⟨⟨0, 2 ^ 64 - 272, defaultKey⟩, ⟨1, 0, defaultKey, 0⟩, 136, 2 ^ 64 - 136⟩
        rw [h136]
        simp only [bind, Except.bind, hs']
        exact ih s' 0 (by decide)
  rw [sanitizeLayoutAndLength, hloop fuel _ 0 (by decide), Option.map_none]

end BlackBull.AppendVec
