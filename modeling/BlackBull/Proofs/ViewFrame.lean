import BlackBull.Proofs.ViewReaders

/-!
# What the frames accept

The parser accepts a byte string exactly if it is the encoding of a transaction whose parts fit the
layout of its version (`TransactionFrame.tryNew_ok`), and then the frame is determined by the lengths
of the parts.
-/

namespace BlackBull.TransactionView

open TransactionFrame TransactionConfigFrame ByteBlock

variable {b : Slice} {o o' n mask : ℕ} {f : TransactionFrame}

lemma set_ok {a : ℕ} {u : PUnit} : (set a : ReadM PUnit) o = .ok (u, o') ↔ o' = a := by
  show Except.ok (PUnit.unit, a) = Except.ok (u, o') ↔ _
  rw [Except.ok.injEq, Prod.mk.injEq]
  exact ⟨fun h => h.2.symm, fun h => ⟨rfl, h.symm⟩⟩

def encodeBlocks {k : ℕ} (as : List (ByteBlock k)) : List UInt8 :=
  compactU16 as.length ++ flatten as

lemma length_encodeBlocks {k : ℕ} {as : List (ByteBlock k)} (h : as.length < 2 ^ 7) :
    (encodeBlocks as).length = 1 + as.length * k := by
  rw [encodeBlocks, List.length_append, compactU16_one h, length_flatten]
  rfl

lemma skipBlocks_ok {α : Type} {g : UInt8 → ℕ → α} {size max : ℕ} (hmax : max < 2 ^ 7)
    (hsize : size ≤ 64) {f : α} :
    (do
      let count ← readByte b
      if count = 0 ∨ max < count.toNat then throw (.error .parseError)
      else
        let offset ← get
        advanceOffsetForArray b size count.toNat
        pure (g count offset) : ReadM α) o = .ok (f, o') ↔
      ∃ as : List (ByteBlock size), 1 ≤ as.length ∧ as.length ≤ max ∧ At b.bytes o (encodeBlocks as)
        ∧ f = g (.ofNat as.length) (o + 1) ∧ o' = o + (encodeBlocks as).length := by
  have hmul {k : ℕ} (hk : k < 2 ^ 8) : k * size < 2 ^ 64 := by nlinarith
  simp only [bind_ok, readByte_ok, ite_throw_ok, get_ok, pure_ok, not_or, not_lt]
  constructor
  · rintro ⟨v, _, ⟨hv, rfl⟩, ⟨hne, hle⟩, _, _, ⟨rfl, rfl⟩, _, _, hskip, rfl, rfl⟩
    have ho : o + 1 ≤ b.length := (List.getElem?_eq_some_iff.1 hv).1
    obtain ⟨hroom, rfl⟩ := (advanceOffsetForArray_ok ho (hmul v.toNat_lt)).1 hskip
    obtain ⟨as, hlen, hat⟩ := exists_blocks hroom
    have hpos : v.toNat ≠ 0 := fun h => hne (UInt8.toNat_inj.1 h)
    have hcompact : compactU16 as.length = [v] := by
      rw [hlen, compactU16_one (by omega), UInt8.ofNat_toNat]
    refine ⟨as, by omega, by omega, ?_, by rw [hlen, UInt8.ofNat_toNat], ?_⟩
    · rw [encodeBlocks, hcompact]
      exact at_append.2 ⟨at_singleton.2 hv, hat⟩
    · rw [length_encodeBlocks (by omega), hlen, Nat.add_assoc]
  · rintro ⟨as, hpos, hle, hat, rfl, rfl⟩
    have hnat : (UInt8.ofNat as.length).toNat = as.length := toNat_ofNat (by omega)
    have hroom : o + (encodeBlocks as).length ≤ b.length := hat.le
    rw [length_encodeBlocks (by omega), ← Nat.add_assoc] at hroom
    rw [encodeBlocks, compactU16_one (by omega), at_append, at_singleton] at hat
    refine ⟨_, _, ⟨hat.1, rfl⟩, ⟨fun h => ?_, by omega⟩, _, _, ⟨rfl, rfl⟩, (), _,
      (advanceOffsetForArray_ok (by omega) (hmul (UInt8.toNat_lt _))).2
        ⟨by rw [hnat]; exact hroom, rfl⟩, rfl, ?_⟩
    · have h0 : (UInt8.ofNat as.length).toNat = 0 := congrArg UInt8.toNat h
      omega
    · rw [hnat, length_encodeBlocks (by omega), Nat.add_assoc]

lemma signatureFrame_ok {f : SignatureFrame} : SignatureFrame.tryNew b o = .ok (f, o') ↔
    ∃ as : List (ByteBlock 64), 1 ≤ as.length ∧ as.length ≤ 12 ∧ At b.bytes o (encodeBlocks as)
      ∧ f = ⟨.ofNat as.length, asU16 (o + 1)⟩ ∧ o' = o + (encodeBlocks as).length :=
  @skipBlocks_ok b o o' _ (fun count offset => (⟨count, asU16 offset⟩ : SignatureFrame)) 64 12
    (by decide) (by decide) f

lemma staticAccountKeysFrame_ok {f : StaticAccountKeysFrame} :
    StaticAccountKeysFrame.tryNew b o = .ok (f, o') ↔
      ∃ as : List (ByteBlock 32), 1 ≤ as.length ∧ as.length ≤ 38 ∧ At b.bytes o (encodeBlocks as)
        ∧ f = ⟨.ofNat as.length, asU16 (o + 1)⟩ ∧ o' = o + (encodeBlocks as).length :=
  @skipBlocks_ok b o o' _ (fun count offset => (⟨count, asU16 offset⟩ : StaticAccountKeysFrame)) 32 38
    (by decide) (by decide) f

def versionBytes : TransactionVersion → List UInt8
  | .legacy => []
  | .v0 => [0x80]
  | .v1 => [0x81]

lemma toNat_of_high {v low : UInt8} (hhigh : v &&& messageVersionPrefixByte ≠ 0)
    (h : v &&& ~~~messageVersionPrefixByte = low) : v.toNat = 128 + low.toNat := by
  have h7 : low.toNat = v.toNat % 2 ^ 7 := by
    rw [← h]
    exact toNat_and_low v
  have h8 : ¬ v.toNat < 2 ^ 7 := fun hlt => hhigh ((and_high_eq_zero v).2 hlt)
  have hlt := v.toNat_lt
  omega

lemma messageHeaderFrame_ok {f : MessageHeaderFrame} :
    MessageHeaderFrame.tryNew b o = .ok (f, o') ↔
      ∃ version r s u, version ≠ .v1 ∧ (version = .legacy → r.toNat < 2 ^ 7)
        ∧ At b.bytes o (versionBytes version ++ [r, s, u]) ∧ f = ⟨asU16 o, version, r, s, u⟩
        ∧ o' = o + (versionBytes version ++ [r, s, u]).length := by
  unfold MessageHeaderFrame.tryNew readVersion
  simp only [bind_ok, get_ok, readByte_ok, pure_ok, Prod.exists, existsAndEq, and_assoc, true_and]
  constructor
  · rintro ⟨v, hv, version, r, _, hversion, s, hs, u, hu, rfl, rfl⟩
    split_ifs at hversion with hhigh hlow
    · simp only [bind_ok, readByte_ok, pure_ok, Prod.mk.injEq] at hversion
      obtain ⟨_, _, ⟨hr, rfl⟩, ⟨rfl, rfl⟩, rfl⟩ := hversion
      have hv80 : v = 0x80 := UInt8.toNat_inj.1 (toNat_of_high hhigh hlow)
      refine ⟨.v0, _, s, u, nofun, nofun, ?_, rfl, rfl⟩
      exact at_cons.2 ⟨by rw [hv, hv80], at_cons.2 ⟨hr, at_cons.2 ⟨hs, at_singleton.2 hu⟩⟩⟩
    · cases hversion
    · simp only [pure_ok, Prod.mk.injEq] at hversion
      obtain ⟨⟨rfl, rfl⟩, rfl⟩ := hversion
      have h8 : v.toNat < 2 ^ 7 := (and_high_eq_zero v).1 (not_not.1 hhigh)
      exact ⟨.legacy, v, s, u, nofun, fun _ => h8,
        at_cons.2 ⟨hv, at_cons.2 ⟨hs, at_singleton.2 hu⟩⟩, rfl, rfl⟩
  · rintro ⟨version, r, s, u, hne, hlegacy, hat, rfl, rfl⟩
    cases version with
    | legacy =>
      obtain ⟨hr, hat⟩ := at_cons.1 hat
      obtain ⟨hs, hu⟩ := at_cons.1 hat
      have hlow : r &&& messageVersionPrefixByte = 0 := (and_high_eq_zero r).2 (hlegacy rfl)
      refine ⟨r, hr, .legacy, r, o + 1, ?_, s, hs, u, at_singleton.1 hu, rfl, rfl⟩
      rw [if_neg (not_not.2 hlow)]
      rfl
    | v0 =>
      obtain ⟨hv, hat⟩ := at_cons.1 hat
      obtain ⟨hr, hat⟩ := at_cons.1 hat
      obtain ⟨hs, hu⟩ := at_cons.1 hat
      refine ⟨0x80, hv, .v0, r, o + 1 + 1, ?_, s, hs, u, at_singleton.1 hu, rfl, rfl⟩
      rw [if_pos (by decide), if_pos (by decide)]
      simp only [bind_ok, readByte_ok, pure_ok]
      exact ⟨r, _, ⟨hr, rfl⟩, rfl, rfl⟩
    | v1 => exact absurd rfl hne

lemma exists_leBytes (h : o + n ≤ b.length) : ∃ v < 256 ^ n, At b.bytes o (leBytes n v) := by
  obtain ⟨w, rfl, hat⟩ := exists_at h
  exact ⟨leNat w, leNat_lt w, by rw [leBytes_leNat]; exact hat⟩

section Value

variable {α : Type} {toNat : α → ℕ}

lemma exists_value {ofNat : ℕ → α} (hof : ∀ v < 256 ^ n, toNat (ofNat v) = v) {p : Bool}
    (h : o + (if p then n else 0) ≤ b.length) :
    ∃ v : Option α, v.isSome = p ∧ At b.bytes o (v.elim [] fun v => leBytes n (toNat v)) := by
  cases p with
  | false => exact ⟨none, rfl, at_nil.2 h⟩
  | true =>
    obtain ⟨v, hlt, hat⟩ := exists_leBytes h
    exact ⟨some (ofNat v), rfl, show At b.bytes o (leBytes n _) by rw [hof v hlt]; exact hat⟩

lemma length_value (v : Option α) :
    (v.elim [] fun v => leBytes n (toNat v)).length = if v.isSome then n else 0 := by
  cases v with
  | none => rfl
  | some v => exact length_leBytes n (toNat v)

end Value

lemma mask_lt_of_and (h32 : mask < 2 ^ 32)
    (h : mask &&& (2 ^ 32 - 1 - allowedTransactionConfigMask) = 0) :
    mask < 2 ^ 5 := by
  have hset : ∀ i < 32, 5 ≤ i →
      (2 ^ 32 - 1 - allowedTransactionConfigMask).testBit i = true := by
    decide +kernel
  apply Nat.lt_pow_two_of_testBit
  intro i hi
  by_cases hlt : i < 32
  · have hbit := congrArg (Nat.testBit · i) h
    simpa only [Nat.testBit_and, hset i hlt hi, Bool.and_true, Nat.zero_testBit] using hbit
  · exact Nat.testBit_lt_two_pow (lt_of_lt_of_le h32 (Nat.pow_le_pow_right (by decide) (by omega)))

/-- An allowed mask is determined by four bits, which tell how long the values are. -/
lemma mask_bits : ∀ mask < 2 ^ 5, mask.testBit 0 = mask.testBit 1 →
    mask = (if mask.testBit 0 then 3 else 0) + (if mask.testBit 2 then 4 else 0)
      + (if mask.testBit 3 then 8 else 0) + (if mask.testBit 4 then 16 else 0)
    ∧ countOnes mask * 4 = (if mask.testBit 0 then 8 else 0) + (if mask.testBit 2 then 4 else 0)
      + (if mask.testBit 3 then 4 else 0) + (if mask.testBit 4 then 4 else 0)
    ∧ countOnes mask % 2 ^ 8 = countOnes mask
    ∧ mask &&& (2 ^ 32 - 1 - allowedTransactionConfigMask) = 0 := by
  decide +kernel

namespace Config

lemma testBit_mask (c : Config) : c.mask < 2 ^ 5 ∧ c.mask.testBit 0 = c.mask.testBit 1
    ∧ c.mask.testBit 0 = c.priorityFeeLamports.isSome
    ∧ c.mask.testBit 2 = c.computeUnitLimit.isSome
    ∧ c.mask.testBit 3 = c.loadedAccountsDataSizeLimit.isSome
    ∧ c.mask.testBit 4 = c.requestedHeapSize.isSome := by
  have hall : ∀ p q r s : Bool, let mask := (if p then 3 else 0) + (if q then 4 else 0)
      + (if r then 8 else 0) + (if s then 16 else 0)
      mask < 2 ^ 5 ∧ mask.testBit 0 = mask.testBit 1 ∧ mask.testBit 0 = p ∧ mask.testBit 2 = q
        ∧ mask.testBit 3 = r ∧ mask.testBit 4 = s := by
    decide +kernel
  exact hall _ _ _ _

lemma length_encodeValues (c : Config) : c.encodeValues.length = countOnes c.mask * 4 := by
  obtain ⟨hlt, h01, h0, h2, h3, h4⟩ := c.testBit_mask
  rw [(mask_bits c.mask hlt h01).2.1, h0, h2, h3, h4]
  simp only [encodeValues, List.length_append, length_value]

end Config

lemma sanitizeMask_ok (h32 : mask < 2 ^ 32) {u : Unit} :
    sanitizeMask mask = .ok u ↔
      mask < 2 ^ 5 ∧ mask.testBit 0 = mask.testBit 1 := by
  unfold sanitizeMask
  constructor
  · intro h
    split_ifs at h with hbits hfee
    · cases h
    · cases h
    · refine ⟨mask_lt_of_and h32 (not_not.1 hbits), ?_⟩
      cases h0 : mask.testBit 0 <;> cases h1 : mask.testBit 1 <;> simp [h0, h1] at hfee ⊢
  · rintro ⟨hlt, h01⟩
    rw [if_neg (not_not.2 (mask_bits mask hlt h01).2.2.2), if_neg (by simp [h01])]

lemma transactionConfigFrame_ok {f : TransactionConfigFrame} (ho : o ≤ b.length)
    (ho16 : o < 2 ^ 16) (h32 : mask < 2 ^ 32) :
    TransactionConfigFrame.tryNew b 4 mask o = .ok (f, o') ↔
      ∃ c : Config, mask = c.mask ∧ At b.bytes o c.encodeValues
        ∧ f = ⟨4, c.mask, o, countOnes c.mask⟩ ∧ o' = o + c.encodeValues.length := by
  unfold TransactionConfigFrame.tryNew
  rw [if_neg (by decide), if_neg (by omega)]
  simp only [Except.bind_eq_ok, Prod.exists, sanitizeMask_ok h32]
  constructor
  · rintro ⟨_, ⟨hlt, h01⟩, _, _, hskip, h⟩
    obtain ⟨hmask, hones, hmod, -⟩ := mask_bits mask hlt h01
    rw [hmod] at hskip h
    obtain ⟨hroom, rfl⟩ := (advanceOffsetForArray_ok ho (show countOnes mask * 4 < 2 ^ 64 by omega)).1
      hskip
    change o + countOnes mask * 4 ≤ b.length at hroom
    cases h
    have h64 (v : ℕ) (h : v < 256 ^ 8) : (UInt64.ofNat v).toNat = v :=
      UInt64.toNat_ofNat_of_lt (lt_of_lt_of_eq h (by decide))
    have h32 (v : ℕ) (h : v < 256 ^ 4) : (UInt32.ofNat v).toNat = v :=
      UInt32.toNat_ofNat_of_lt (lt_of_lt_of_eq h (by decide))
    obtain ⟨p, hp, hatp⟩ := @exists_value b o 8 _ _ _ h64 (mask.testBit 0) (by omega)
    have hlp := @length_value 8 _ UInt64.toNat p
    obtain ⟨q, hq, hatq⟩ := @exists_value b (o + (p.elim [] (leBytes 8 ·.toNat)).length) 4 _ _ _ h32
      (mask.testBit 2) (by rw [hlp, hp]; omega)
    have hlq := @length_value 4 _ UInt32.toNat q
    obtain ⟨r, hr, hatr⟩ := @exists_value b (o + (p.elim [] (leBytes 8 ·.toNat)).length
      + (q.elim [] (leBytes 4 ·.toNat)).length) 4 _ _ _ h32 (mask.testBit 3)
      (by rw [hlp, hlq, hp, hq]; omega)
    have hlr := @length_value 4 _ UInt32.toNat r
    obtain ⟨s, hs, hats⟩ := @exists_value b (o + (p.elim [] (leBytes 8 ·.toNat)).length
      + (q.elim [] (leBytes 4 ·.toNat)).length + (r.elim [] (leBytes 4 ·.toNat)).length) 4 _ _ _ h32
      (mask.testBit 4) (by rw [hlp, hlq, hlr, hp, hq, hr]; omega)
    have hc : mask = Config.mask ⟨p, q, r, s⟩ := by
      rw [Config.mask, hp, hq, hr, hs]
      exact hmask
    refine ⟨⟨p, q, r, s⟩, hc, ?_, by rw [← hc], by rw [Config.length_encodeValues, ← hc]⟩
    simp only [Config.encodeValues, at_append, List.length_append, ← Nat.add_assoc]
    exact ⟨⟨⟨hatp, hatq⟩, hatr⟩, hats⟩
  · rintro ⟨c, rfl, hat, rfl, rfl⟩
    obtain ⟨hlt, h01, -⟩ := c.testBit_mask
    have hmod := (mask_bits c.mask hlt h01).2.2.1
    have hroom : o + c.encodeValues.length ≤ b.length := hat.le
    rw [c.length_encodeValues] at hroom ⊢
    refine ⟨(), ⟨hlt, h01⟩, (), _, (advanceOffsetForArray_ok ho ?_).2 ⟨?_, rfl⟩, ?_⟩
    · show countOnes c.mask % 2 ^ 8 * 4 < 2 ^ 64
      omega
    · rw [hmod]
      exact hroom
    · rw [hmod]
      rfl

namespace Body

def version : Body → TransactionVersion
  | legacy => .legacy
  | v0 _ => .v0
  | v1 _ => .v1

def encodeLookups : Body → List UInt8
  | v0 ls => compactU16 ls.length ++ ls.flatMap SvmMessageAddressTableLookup.encode
  | _ => []

def lookupFrame (o : ℕ) : Body → AddressTableLookupFrame
  | v0 ls => ⟨.ofNat ls.length, asU16 (o + 1), totalWritable ls, totalReadonly ls⟩
  | _ => .empty

def FitsLookups (size o : ℕ) : Body → Prop
  | legacy => True
  | v0 ls => ls.length ≤ 31 ∧ (∀ l ∈ ls, l.Short) ∧ o + 1 + 35 * ls.length ≤ size
    ∧ totalWritable ls < 2 ^ 16 ∧ totalReadonly ls < 2 ^ 16
  | v1 _ => False

end Body

lemma readAddressTableLookup_ok {version : TransactionVersion} {f : AddressTableLookupFrame}
    (ho : o ≤ b.length) (hv : version ≠ .v1) :
    readAddressTableLookup b version o = .ok (f, o') ↔
      ∃ body : Body, body.version = version ∧ body.FitsLookups b.length o
        ∧ At b.bytes o body.encodeLookups ∧ f = body.lookupFrame o
        ∧ o' = o + body.encodeLookups.length := by
  cases version with
  | legacy =>
    simp only [readAddressTableLookup, pure_ok]
    constructor
    · rintro ⟨rfl, rfl⟩
      exact ⟨.legacy, rfl, trivial, at_nil.2 ho, rfl, rfl⟩
    · rintro ⟨body, hbody, -, -, rfl, rfl⟩
      cases body <;> cases hbody
      exact ⟨rfl, rfl⟩
  | v0 =>
    simp only [readAddressTableLookup, lookupFrame_ok]
    constructor
    · rintro ⟨ls, hlen, hshort, hle, hw, hr, hat, rfl, rfl⟩
      exact ⟨.v0 ls, rfl, ⟨hlen, hshort, hle, hw, hr⟩, hat, rfl, rfl⟩
    · rintro ⟨body, hbody, hfits, hat, rfl, rfl⟩
      cases body <;> cases hbody
      obtain ⟨hlen, hshort, hle, hw, hr⟩ := hfits
      exact ⟨_, hlen, hshort, hle, hw, hr, hat, rfl, rfl⟩
  | v1 => exact absurd rfl hv

namespace Transaction

variable (tx : Transaction)

def encodeHeader : List UInt8 := versionBytes tx.body.version ++ tx.header

def encodeInstructions : List UInt8 :=
  compactU16 tx.instructions.length ++ tx.instructions.flatMap SvmInstruction.encode

def headerOffset : ℕ := (encodeBlocks tx.signatures).length

def keysOffset : ℕ := tx.headerOffset + tx.encodeHeader.length

def hashOffset : ℕ := tx.keysOffset + (encodeBlocks tx.accountKeys).length

def instructionsOffset : ℕ := tx.hashOffset + 32

def lookupsOffset : ℕ := tx.instructionsOffset + tx.encodeInstructions.length

structure FitsLegacyOrV0 (size : ℕ) : Prop where
  one_le_signatures : 1 ≤ tx.signatures.length
  signatures_le : tx.signatures.length ≤ 12
  required_lt : tx.body.version = .legacy → tx.numRequiredSignatures.toNat < 2 ^ 7
  one_le_keys : 1 ≤ tx.accountKeys.length
  keys_le : tx.accountKeys.length ≤ 38
  instructions_lt : tx.instructions.length < 2 ^ 14
  instructions_short : ∀ ix ∈ tx.instructions, ix.Short
  lookups : tx.body.FitsLookups size tx.lookupsOffset

structure StandsLegacyOrV0 (b : Slice) : Prop where
  signatures : At b.bytes 0 (encodeBlocks tx.signatures)
  header : At b.bytes tx.headerOffset tx.encodeHeader
  keys : At b.bytes tx.keysOffset (encodeBlocks tx.accountKeys)
  hash : At b.bytes tx.hashOffset tx.recentBlockhash.bytes
  instructions : At b.bytes tx.instructionsOffset tx.encodeInstructions
  lookups : At b.bytes tx.lookupsOffset tx.body.encodeLookups
  stop : tx.lookupsOffset + tx.body.encodeLookups.length = b.length

def frameLegacyOrV0 : TransactionFrame where
  signature := ⟨.ofNat tx.signatures.length, asU16 1⟩
  messageHeader := ⟨asU16 tx.headerOffset, tx.body.version, tx.numRequiredSignatures,
    tx.numReadonlySignedAccounts, tx.numReadonlyUnsignedAccounts⟩
  staticAccountKeys := ⟨.ofNat tx.accountKeys.length, asU16 (tx.keysOffset + 1)⟩
  recentBlockhashOffset := asU16 tx.hashOffset
  instructions := .legacyAndV0 tx.instructions.length
    (asU16 (tx.instructionsOffset + (compactU16 tx.instructions.length).length))
    (tx.instructions.map SvmInstruction.frame)
  addressTableLookup := tx.body.lookupFrame tx.lookupsOffset
  transactionConfigFrame := .notApplicable
  dataLen := asU16 (tx.lookupsOffset + tx.body.encodeLookups.length)

variable {tx}

lemma encode_legacyOrV0 (h : tx.body.version ≠ .v1) : tx.encode =
    encodeBlocks tx.signatures ++ tx.encodeHeader ++ encodeBlocks tx.accountKeys
      ++ tx.recentBlockhash.bytes ++ tx.encodeInstructions ++ tx.body.encodeLookups := by
  unfold encode encodeMessage encodeCommon encodeBlocks encodeHeader encodeInstructions
  cases hbody : tx.body with
  | legacy | v0 ls => simp [versionBytes, Body.version, Body.encodeLookups]
  | v1 c =>
    rw [hbody] at h
    exact absurd rfl h

lemma standsLegacyOrV0_iff (h : tx.body.version ≠ .v1) :
    tx.StandsLegacyOrV0 b ↔ tx.encode = b.bytes := by
  rw [encode_legacyOrV0 h, ← at_zero_iff]
  simp only [at_append, List.length_append, Nat.zero_add, tx.recentBlockhash.length_eq]
  constructor
  · rintro ⟨hsig, hhead, hkeys, hhash, hixs, hls, hstop⟩
    exact ⟨⟨⟨⟨⟨⟨hsig, hhead⟩, hkeys⟩, hhash⟩, hixs⟩, hls⟩, hstop⟩
  · rintro ⟨⟨⟨⟨⟨⟨hsig, hhead⟩, hkeys⟩, hhash⟩, hixs⟩, hls⟩, hstop⟩
    exact ⟨hsig, hhead, hkeys, hhash, hixs, hls, hstop⟩

lemma FitsLegacyOrV0.version_ne {size : ℕ} (h : tx.FitsLegacyOrV0 size) :
    tx.body.version ≠ .v1 := by
  intro hv
  have hfits := h.lookups
  cases hbody : tx.body <;> rw [hbody] at hv hfits <;> cases hv
  exact hfits

end Transaction

lemma run'_ok {α : Type} {x : ReadM α} {a : α} : x.run' o = .ok a ↔ ∃ o', x o = .ok (a, o') := by
  show (x o).map Prod.fst = .ok a ↔ _
  simp [Except.map_eq_ok]

lemma tryNewAsLegacyOrV0_ok :
    tryNewAsLegacyOrV0 b = .ok f ↔ ∃ tx : Transaction,
      tx.FitsLegacyOrV0 b.length ∧ tx.StandsLegacyOrV0 b ∧ f = tx.frameLegacyOrV0 := by
  unfold tryNewAsLegacyOrV0
  simp only [run'_ok, bind_ok, signatureFrame_ok, messageHeaderFrame_ok, staticAccountKeysFrame_ok,
    get_ok, ite_throw_ok, pure_ok, tryNewForLegacyAndV0_ok, not_not, existsAndEq, and_assoc, and_true,
    true_and, Nat.zero_add]
  constructor
  · rintro ⟨sigs, version, r, s, u, keys, _, _, ixs, _, hs1, hs12, hsig, hne, hlegacy, hhead, hk1, hk38,
      hkeys, hskip, hlt, hshort, hixs, hread, rfl⟩
    obtain ⟨hroom, rfl⟩ := (advanceOffsetForType_ok hkeys.le).1 hskip
    obtain ⟨hash, hhash⟩ := exists_block hroom
    obtain ⟨body, rfl, hfits, hls, rfl, hstop⟩ := (readAddressTableLookup_ok hixs.le hne).1 hread
    refine ⟨⟨sigs, r, s, u, keys, hash, ixs, body⟩, ⟨hs1, hs12, hlegacy, hk1, hk38, hlt, hshort, hfits⟩,
      ⟨hsig, hhead, hkeys, hhash, hixs, hls, hstop.symm⟩, ?_⟩
    rw [hstop]
    rfl
  · rintro ⟨tx, hfits, hstands, rfl⟩
    have hroom : tx.hashOffset + hashSize ≤ b.length := by
      have := hstands.hash.le
      rwa [tx.recentBlockhash.length_eq] at this
    refine ⟨tx.signatures, tx.body.version, tx.numRequiredSignatures, tx.numReadonlySignedAccounts,
      tx.numReadonlyUnsignedAccounts, tx.accountKeys, (), _, tx.instructions, _,
      hfits.one_le_signatures, hfits.signatures_le, hstands.signatures, hfits.version_ne,
      hfits.required_lt, hstands.header, hfits.one_le_keys, hfits.keys_le, hstands.keys,
      (advanceOffsetForType_ok hstands.keys.le).2 ⟨hroom, rfl⟩, hfits.instructions_lt,
      hfits.instructions_short, hstands.instructions,
      (readAddressTableLookup_ok hstands.instructions.le hfits.version_ne).2
        ⟨tx.body, rfl, hfits.lookups, hstands.lookups, rfl, hstands.stop.symm⟩, ?_⟩
    rw [← hstands.stop]
    rfl

namespace Transaction

variable (tx : Transaction) (config : Config)

def encodeV1Instructions : List UInt8 :=
  tx.instructions.flatMap SvmInstruction.encodeHeader
    ++ tx.instructions.flatMap SvmInstruction.encodePayload

def configOffset : ℕ := 42 + (flatten tx.accountKeys).length

def headersOffset : ℕ := tx.configOffset + config.encodeValues.length

def signaturesOffset : ℕ := tx.headersOffset config + tx.encodeV1Instructions.length

structure FitsV1 : Prop where
  signatures_eq : tx.signatures.length = tx.numRequiredSignatures.toNat
  keys_lt : tx.accountKeys.length < 2 ^ 8
  instructions_lt : tx.instructions.length < 2 ^ 8
  instructions_fit : ∀ ix ∈ tx.instructions, ix.FitsV1

structure StandsV1 (b : Slice) : Prop where
  header : At b.bytes 0 (0x81 :: tx.header)
  mask : At b.bytes 4 (leBytes 4 config.mask)
  hash : At b.bytes 8 tx.recentBlockhash.bytes
  counts : At b.bytes 40 [.ofNat tx.instructions.length, .ofNat tx.accountKeys.length]
  keys : At b.bytes 42 (flatten tx.accountKeys)
  values : At b.bytes tx.configOffset config.encodeValues
  instructions : At b.bytes (tx.headersOffset config) tx.encodeV1Instructions
  signatures : At b.bytes (tx.signaturesOffset config) (flatten tx.signatures)
  stop : tx.signaturesOffset config + (flatten tx.signatures).length = b.length

def frameV1 : TransactionFrame where
  signature := ⟨tx.numRequiredSignatures, asU16 (tx.signaturesOffset config)⟩
  messageHeader := ⟨0, .v1, tx.numRequiredSignatures, tx.numReadonlySignedAccounts,
    tx.numReadonlyUnsignedAccounts⟩
  staticAccountKeys := ⟨.ofNat tx.accountKeys.length, asU16 42⟩
  recentBlockhashOffset := asU16 8
  instructions := .v1 tx.instructions.length (asU16 (tx.headersOffset config))
    (asU16 (tx.headersOffset config + 4 * tx.instructions.length))
  addressTableLookup := .empty
  transactionConfigFrame := ⟨4, config.mask, tx.configOffset, countOnes config.mask⟩
  dataLen := asU16 (tx.signaturesOffset config + (flatten tx.signatures).length)

variable {tx config}

lemma encode_v1 (h : tx.body = .v1 config) : tx.encode =
    (0x81 :: tx.header) ++ leBytes 4 config.mask ++ tx.recentBlockhash.bytes
      ++ [.ofNat tx.instructions.length, .ofNat tx.accountKeys.length]
      ++ flatten tx.accountKeys ++ config.encodeValues ++ tx.encodeV1Instructions
      ++ flatten tx.signatures := by
  simp [encode, encodeMessage, encodeV1Instructions, h]

lemma standsV1_iff (h : tx.body = .v1 config) : tx.StandsV1 config b ↔ tx.encode = b.bytes := by
  rw [encode_v1 h, ← at_zero_iff]
  simp only [at_append, List.length_append, Nat.zero_add, tx.recentBlockhash.length_eq,
    length_leBytes]
  constructor
  · rintro ⟨hhead, hmask, hhash, hcounts, hkeys, hvals, hixs, hsigs, hstop⟩
    exact ⟨⟨⟨⟨⟨⟨⟨⟨hhead, hmask⟩, hhash⟩, hcounts⟩, hkeys⟩, hvals⟩, hixs⟩, hsigs⟩, hstop⟩
  · rintro ⟨⟨⟨⟨⟨⟨⟨⟨hhead, hmask⟩, hhash⟩, hcounts⟩, hkeys⟩, hvals⟩, hixs⟩, hsigs⟩, hstop⟩
    exact ⟨hhead, hmask, hhash, hcounts, hkeys, hvals, hixs, hsigs, hstop⟩

end Transaction

lemma skipKeys_ok {size : ℕ} {v : UInt8} (ho : o ≤ b.length) (hsize : size ≤ 64) {u : Unit} :
    advanceOffsetForArray b size v.toNat o = .ok (u, o') ↔
      ∃ as : List (ByteBlock size), as.length = v.toNat ∧ At b.bytes o (flatten as)
        ∧ o' = o + (flatten as).length := by
  have hlt := v.toNat_lt
  rw [advanceOffsetForArray_ok ho (by nlinarith)]
  constructor
  · rintro ⟨hroom, rfl⟩
    obtain ⟨as, hlen, hat⟩ := exists_blocks hroom
    exact ⟨as, hlen, hat, by rw [length_flatten, hlen]⟩
  · rintro ⟨as, hlen, hat, rfl⟩
    have hle := hat.le
    rw [length_flatten, hlen] at hle ⊢
    exact ⟨hle, rfl⟩

lemma tryNewAsV1_ok {version : UInt8} (hversion : b.bytes[0]? = some version)
    (hhigh : version &&& 0x80 ≠ 0) :
    tryNewAsV1 b = .ok f ↔ ∃ (tx : Transaction) (config : Config),
      tx.body = .v1 config ∧ tx.FitsV1 ∧ tx.StandsV1 config b ∧ f = tx.frameV1 config := by
  unfold tryNewAsV1
  simp only [run'_ok, bind_ok, get_ok, ite_throw_ok, pure_ok, lift_ok, set_ok, uncheckedReadByte_ok,
    uncheckedCopyValue_ok, not_not, checkRemaining_ok (Nat.zero_le _), existsAndEq, exists_const,
    and_assoc, and_true, true_and]
  constructor
  · rintro ⟨v, r, s, u, mask, k, m, _, _, cf, _, is, _, _, hfix, hv, hone, hr, hs, hu, hmask, hk, hm,
      hkeys, hconfig, hixs, hsigs, rfl⟩
    cases hversion.symm.trans hv
    obtain rfl : version = 0x81 := UInt8.toNat_inj.1 (toNat_of_high hhigh hone)
    have hlt := m.toNat_lt
    change 42 ≤ b.length at hfix
    change At b.bytes 4 mask.bytes at hmask
    change b.bytes[40]? = some k at hk
    change b.bytes[41]? = some m at hm
    obtain ⟨keys, hklen, hatk, rfl⟩ := (@skipKeys_ok b 42 _ 32 m hfix (by decide) _).1 hkeys
    have hbound : 42 + (flatten keys).length < 2 ^ 16 := by
      rw [length_flatten, hklen]
      omega
    have hmask32 : leNat mask.bytes < 2 ^ 32 := by
      have := leNat_lt mask.bytes
      rw [mask.length_eq] at this
      exact this
    obtain ⟨c, hc, hatc, rfl, rfl⟩ := (transactionConfigFrame_ok hatk.le hbound hmask32).1 hconfig
    obtain ⟨ixs, hilen, hfits, hati, rfl, rfl⟩ := (tryNewForV1_ok hatc.le).1 hixs
    obtain ⟨sigs, hslen, hats, hstop⟩ := (skipKeys_ok hati.le (by decide)).1 hsigs
    obtain ⟨hash, hhash⟩ := @exists_block b 8 32 (by omega)
    have hmaskbytes : leBytes 4 c.mask = mask.bytes := by
      have := leBytes_leNat mask.bytes
      rwa [mask.length_eq, hc] at this
    have hkn : (UInt8.ofNat ixs.length) = k := by rw [hilen, UInt8.ofNat_toNat]
    have hmn : (UInt8.ofNat keys.length) = m := by rw [hklen, UInt8.ofNat_toNat]
    refine ⟨⟨sigs, r, s, u, keys, hash, ixs, .v1 c⟩, c, rfl,
      ⟨hslen, hklen ▸ hlt, hilen ▸ k.toNat_lt, hfits⟩,
      ⟨at_cons.2 ⟨hv, at_cons.2 ⟨hr, at_cons.2 ⟨hs, at_singleton.2 hu⟩⟩⟩, by rw [hmaskbytes]; exact hmask,
        hhash, ?_, hatk, hatc, hati, hats, hstop.symm⟩, ?_⟩
    · dsimp only
      rw [hkn, hmn]
      exact at_cons.2 ⟨hk, at_singleton.2 hm⟩
    · unfold Transaction.frameV1
      dsimp only
      rw [hmn, hilen, hstop]
      rfl
  · rintro ⟨tx, config, hbody, hfits, hstands, rfl⟩
    obtain ⟨hv, hhead⟩ := at_cons.1 hstands.header
    obtain ⟨hr, hhead⟩ := at_cons.1 hhead
    obtain ⟨hs, hu⟩ := at_cons.1 hhead
    obtain ⟨hk, hm⟩ := at_cons.1 hstands.counts
    have hkn : (UInt8.ofNat tx.instructions.length).toNat = tx.instructions.length :=
      toNat_ofNat hfits.instructions_lt
    have hmn : (UInt8.ofNat tx.accountKeys.length).toNat = tx.accountKeys.length :=
      toNat_ofNat hfits.keys_lt
    have hfix : 42 ≤ b.length := hstands.counts.le
    have hlt := hfits.keys_lt
    have hbound : tx.configOffset < 2 ^ 16 := by
      rw [Transaction.configOffset, length_flatten]
      omega
    have hmask : leNat (leBytes 4 config.mask) = config.mask :=
      leNat_leBytes (by have := config.testBit_mask.1; omega)
    refine ⟨0x81, _, _, _, ⟨leBytes 4 config.mask, length_leBytes _ _⟩, _, _, (), _, _, _, _, _, (),
      hfix, hv, by decide, hr, hs, at_singleton.1 hu, hstands.mask, hk, at_singleton.1 hm,
      (@skipKeys_ok b 42 _ 32 _ hfix (by decide) ()).2 ⟨tx.accountKeys, hmn.symm, hstands.keys, rfl⟩,
      (transactionConfigFrame_ok hstands.keys.le hbound ?_).2
        ⟨config, hmask, hstands.values, rfl, rfl⟩,
      (tryNewForV1_ok hstands.values.le).2
        ⟨tx.instructions, hkn.symm, hfits.instructions_fit, hstands.instructions, rfl, rfl⟩,
      (skipKeys_ok hstands.instructions.le (by decide)).2
        ⟨tx.signatures, hfits.signatures_eq, hstands.signatures, hstands.stop.symm⟩, ?_⟩
    · rw [hmask]
      have := config.testBit_mask.1
      omega
    · rw [hkn, ← hstands.stop]
      rfl

/-- The bytes hold a transaction, and the frame tells where its parts stand. -/
inductive Framed (b : Slice) (tx : Transaction) : TransactionFrame → Prop
  | legacyOrV0 (hfits : tx.FitsLegacyOrV0 b.length) (hstands : tx.StandsLegacyOrV0 b) :
      Framed b tx tx.frameLegacyOrV0
  | v1 {config : Config} (hbody : tx.body = .v1 config) (hfits : tx.FitsV1)
      (hstands : tx.StandsV1 config b) : Framed b tx (tx.frameV1 config)

lemma Framed.encode_eq {tx : Transaction} (h : Framed b tx f) : tx.encode = b.bytes := by
  cases h with
  | legacyOrV0 hfits hstands => exact (Transaction.standsLegacyOrV0_iff hfits.version_ne).1 hstands
  | v1 hbody hfits hstands => exact (Transaction.standsV1_iff hbody).1 hstands

lemma isLegacyOrV0_ok {r : Bool} : isLegacyOrV0 b = .ok r ↔
    ∃ v, b.bytes[0]? = some v ∧ r = decide (v &&& messageVersionPrefixByte = 0) := by
  unfold isLegacyOrV0
  rcases b.bytes[0]? with _ | v
  · simp [parseError]
  · simp [eq_comm]

theorem tryNew_ok : TransactionFrame.tryNew b = .ok f ↔ ∃ tx : Transaction, Framed b tx f := by
  unfold TransactionFrame.tryNew
  simp only [Except.bind_eq_ok, isLegacyOrV0_ok]
  constructor
  · rintro ⟨_, ⟨v, hv, rfl⟩, h⟩
    by_cases hlow : v &&& messageVersionPrefixByte = 0
    · rw [if_pos (decide_eq_true hlow)] at h
      obtain ⟨tx, hfits, hstands, rfl⟩ := tryNewAsLegacyOrV0_ok.1 h
      exact ⟨tx, .legacyOrV0 hfits hstands⟩
    · rw [if_neg (by simpa using hlow)] at h
      obtain ⟨tx, config, hbody, hfits, hstands, rfl⟩ := (tryNewAsV1_ok hv hlow).1 h
      exact ⟨tx, .v1 hbody hfits hstands⟩
  · rintro ⟨tx, h⟩
    cases h with
    | legacyOrV0 hfits hstands =>
      have hle := hfits.signatures_le
      have hhead := hstands.signatures
      rw [encodeBlocks, compactU16_one (by omega), List.singleton_append, at_cons] at hhead
      have hlow : UInt8.ofNat tx.signatures.length &&& messageVersionPrefixByte = 0 :=
        (and_high_eq_zero _).2 (by rw [toNat_ofNat (by omega)]; omega)
      refine ⟨_, ⟨_, hhead.1, rfl⟩, ?_⟩
      rw [if_pos (decide_eq_true hlow)]
      exact tryNewAsLegacyOrV0_ok.2 ⟨tx, hfits, hstands, rfl⟩
    | v1 hbody hfits hstands =>
      have hv := (at_cons.1 hstands.header).1
      refine ⟨_, ⟨_, hv, rfl⟩, ?_⟩
      rw [if_neg (by decide)]
      exact (tryNewAsV1_ok hv (by decide)).2 ⟨tx, _, hbody, hfits, hstands, rfl⟩

end BlackBull.TransactionView
