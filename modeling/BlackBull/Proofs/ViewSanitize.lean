import BlackBull.Proofs.ViewAccessors

/-!
# Sanitized views are exact

A view is sanitized exactly if its transaction keeps the rules and is not too long.
-/

namespace BlackBull.TransactionView

open List View SvmMessageAddressTableLookup

variable {b : Slice} {o n : ℕ} {tx : Transaction} {f : TransactionFrame} {flag : Bool}

lemma forM_ok {α : Type} {g : α → Result Unit} {as : List α} {u : PUnit} :
    as.forM g = .ok u ↔ ∀ a ∈ as, g a = .ok () := by
  induction as with
  | nil => exact ⟨nofun, fun _ => rfl⟩
  | cons a as ih =>
    show (g a >>= fun _ => as.forM g) = .ok u ↔ _
    rw [Except.bind_eq_ok, forall_mem_cons]
    exact ⟨fun ⟨_, h, h'⟩ => ⟨h, ih.1 h'⟩, fun ⟨h, h'⟩ => ⟨(), h, ih.2 h'⟩⟩

lemma Transaction.version_eq (tx : Transaction) : tx.version = tx.body.version := by
  unfold Transaction.version Body.version
  cases tx.body <;> rfl

namespace Framed

section

variable (h : Framed b tx f)
include h

lemma version : (View.mk b f).version = tx.version := by
  rw [tx.version_eq]
  cases h with
  | legacyOrV0 hfits hstands => rfl
  | v1 hbody hfits hstands =>
    rw [hbody]
    rfl

lemma numSignatures : (View.mk b f).numSignatures.toNat = tx.signatures.length := by
  cases h with
  | legacyOrV0 hfits hstands =>
    have hle := hfits.signatures_le
    exact toNat_ofNat (by omega)
  | v1 hbody hfits hstands => exact hfits.signatures_eq.symm

lemma numStaticAccountKeys : (View.mk b f).numStaticAccountKeys.toNat = tx.accountKeys.length := by
  cases h with
  | legacyOrV0 hfits hstands =>
    have hle := hfits.keys_le
    exact toNat_ofNat (by omega)
  | v1 hbody hfits hstands => exact toNat_ofNat hfits.keys_lt

lemma header :
    (View.mk b f).numRequiredSignatures = tx.numRequiredSignatures
    ∧ (View.mk b f).numReadonlySignedStaticAccounts = tx.numReadonlySignedAccounts
    ∧ (View.mk b f).numReadonlyUnsignedStaticAccounts = tx.numReadonlyUnsignedAccounts := by
  cases h <;> exact ⟨rfl, rfl, rfl⟩

lemma totalNumberOfAccounts :
    (View.mk b f).totalNumberOfAccounts = min tx.totalAccounts (2 ^ 16 - 1) := by
  have hkeys := h.numStaticAccountKeys
  unfold View.totalNumberOfAccounts
  rw [hkeys]
  unfold Transaction.totalAccounts
  cases h with
  | legacyOrV0 hfits hstands =>
    have hlook := hfits.lookups
    show min (min (tx.accountKeys.length
      + (tx.body.lookupFrame tx.lookupsOffset).totalWritableLookupAccounts) _
      + (tx.body.lookupFrame tx.lookupsOffset).totalReadonlyLookupAccounts) _ = _
    cases hbody : tx.body with
    | legacy =>
      show min (min (_ + 0) _ + 0) _ = min tx.accountKeys.length _
      omega
    | v0 ls =>
      show min (min (_ + totalWritable ls) _ + totalReadonly ls) _
        = min (_ + totalWritable ls + totalReadonly ls) _
      omega
    | v1 c =>
      rw [hbody] at hlook
      exact hlook.elim
  | v1 hbody hfits hstands =>
    rw [hbody]
    show min (min (_ + 0) _ + 0) _ = min tx.accountKeys.length _
    omega

variable {u : Unit}

lemma sanitizeMessageHeader :
    (View.mk b f).sanitizeMessageHeader = .ok u ↔ 1 ≤ tx.numRequiredSignatures.toNat
      ∧ tx.numReadonlySignedAccounts.toNat < tx.numRequiredSignatures.toNat
      ∧ tx.numReadonlyUnsignedAccounts.toNat
        ≤ (2 ^ 8 - tx.numRequiredSignatures.toNat + tx.accountKeys.length) % 2 ^ 8 := by
  obtain ⟨hreq, hsig, huns⟩ := h.header
  simp only [View.sanitizeMessageHeader, sanitizeError, ite_error_eq_ok, hreq, hsig, huns, and_true,
    UInt8.lt_iff_toNat_lt, UInt8.le_iff_toNat_le, UInt8.toNat_sub, h.numStaticAccountKeys, not_lt,
    not_le]
  exact Iff.rfl

lemma sanitizeSignatures :
    (View.mk b f).sanitizeSignatures = .ok u ↔
      tx.signatures.length = tx.numRequiredSignatures.toNat ∧ tx.signatures.length ≤ 12
      ∧ tx.signatures.length ≤ tx.accountKeys.length := by
  have hmax : maxSignaturesPerPacket = 12 := by decide
  simp only [View.sanitizeSignatures, sanitizeError, ite_error_eq_ok, h.header.1, and_true,
    UInt8.lt_iff_toNat_lt, h.numStaticAccountKeys, h.numSignatures, hmax, not_lt, not_not,
    ← UInt8.toNat_inj]

lemma sanitizeConfig :
    (View.mk b f).sanitizeConfig = .ok u ↔
      ∀ heapSize, (bodyConfig tx.body).requestedHeapSize = some heapSize →
        32 * 1024 ≤ heapSize.toNat ∧ heapSize.toNat ≤ 256 * 1024 ∧ heapSize.toNat % 1024 = 0 := by
  unfold View.sanitizeConfig
  rw [h.config.2.2.2]
  rcases (bodyConfig tx.body).requestedHeapSize with _ | heapSize
  · exact ⟨nofun, fun _ => rfl⟩
  · show (if _ then sanitizeError else pure ()) = Except.ok u ↔ _
    rw [sanitizeError, ite_error_eq_ok, not_or, not_not, not_not, UInt32.le_iff_toNat_le,
      UInt32.le_iff_toNat_le, ← UInt32.toNat_inj, UInt32.toNat_mod]
    constructor
    · rintro ⟨⟨⟨hmin, hmax⟩, hmod⟩, -⟩ _ ⟨⟩
      exact ⟨hmin, hmax, hmod⟩
    · intro hx
      obtain ⟨hmin, hmax, hmod⟩ := hx heapSize rfl
      exact ⟨⟨⟨hmin, hmax⟩, hmod⟩, rfl⟩

lemma sanitizeAccountAccess :
    (View.mk b f).sanitizeAccountAccess = .ok u ↔
      tx.totalAccounts ≤ addressesLimit tx.version := by
  have hlimit : addressesLimit tx.version ≤ 256 := by
    rcases tx.version <;> decide
  rw [View.sanitizeAccountAccess, sanitizeError, ite_error_eq_ok, h.version, h.totalNumberOfAccounts]
  exact ⟨fun hx => by omega, fun hx => ⟨by omega, rfl⟩⟩

lemma sanitizeInstruction (hpos : 1 ≤ tx.accountKeys.length) (htotal : tx.totalAccounts ≤ 256)
    {ix : SvmInstruction} :
    (View.mk b f).sanitizeInstruction flag ix = .ok u ↔
      (0 < ix.programIdIndex.toNat ∧ ix.programIdIndex.toNat < tx.accountKeys.length)
      ∧ (∀ i ∈ ix.accounts, i.toNat < tx.totalAccounts)
      ∧ (flag → ix.accounts.length ≤ 255) := by
  have hkeys : tx.accountKeys.length ≤ tx.totalAccounts := by
    unfold Transaction.totalAccounts
    split <;> omega
  have hlast : (UInt8.ofNat ((min tx.totalAccounts (2 ^ 16 - 1) + 2 ^ 16 - 1) % 2 ^ 16)).toNat
      = tx.totalAccounts - 1 := by
    rw [show (min tx.totalAccounts (2 ^ 16 - 1) + 2 ^ 16 - 1) % 2 ^ 16 = tx.totalAccounts - 1 by omega]
    exact toNat_ofNat (by omega)
  have hprogram : ((View.mk b f).numStaticAccountKeys - 1).toNat = tx.accountKeys.length - 1 := by
    have hlt := (View.mk b f).numStaticAccountKeys.toNat_lt
    rw [h.numStaticAccountKeys] at hlt
    rw [UInt8.toNat_sub, h.numStaticAccountKeys]
    show (2 ^ 8 - 1 + tx.accountKeys.length) % 2 ^ 8 = _
    omega
  have hzero : ix.programIdIndex = 0 ↔ ix.programIdIndex.toNat = 0 := UInt8.toNat_inj.symm
  have hany : ix.accounts.any (fun i => decide (UInt8.ofNat
      ((min tx.totalAccounts (2 ^ 16 - 1) + 2 ^ 16 - 1) % 2 ^ 16) < i)) = true
      ↔ ¬ ∀ i ∈ ix.accounts, i.toNat < tx.totalAccounts := by
    simp only [any_eq_true, decide_eq_true_eq, UInt8.lt_iff_toNat_lt, hlast, not_forall, exists_prop]
    refine exists_congr fun i => and_congr_right fun hi => ?_
    omega
  unfold View.sanitizeInstruction
  rw [h.totalNumberOfAccounts]
  simp only [sanitizeError, ite_error_eq_ok, UInt8.lt_iff_toNat_lt, hprogram, hzero] at hany ⊢
  rw [hany, not_not, not_and, not_lt]
  constructor
  · rintro ⟨hle, hne, hacc, hflag, -⟩
    exact ⟨⟨by omega, by omega⟩, hacc, fun h => Nat.le_of_not_lt (hflag h)⟩
  · rintro ⟨⟨hp, hlt⟩, hacc, hflag⟩
    exact ⟨by omega, by omega, hacc, fun h => Nat.not_lt_of_le (hflag h), trivial⟩

lemma sanitizeInstructions (hpos : 1 ≤ tx.accountKeys.length) (htotal : tx.totalAccounts ≤ 256) :
    (View.mk b f).sanitizeInstructions flag = .ok u ↔ tx.instructions.length ≤ 64
      ∧ ∀ ix ∈ tx.instructions,
        (0 < ix.programIdIndex.toNat ∧ ix.programIdIndex.toNat < tx.accountKeys.length)
        ∧ (∀ i ∈ ix.accounts, i.toNat < tx.totalAccounts) ∧ (flag → ix.accounts.length ≤ 255) := by
  unfold View.sanitizeInstructions
  rw [sanitizeError, ite_error_eq_ok, h.numInstructions, h.instructions, not_lt]
  refine and_congr Iff.rfl ?_
  show tx.instructions.forM _ = Except.ok u ↔ _
  rw [forM_ok]
  exact forall₂_congr fun ix _ => h.sanitizeInstruction hpos htotal

lemma sanitizeAddressTableLookups (hb : b.length < 2 ^ 16) :
    (View.mk b f).sanitizeAddressTableLookups = .ok u ↔
      ∀ l ∈ bodyLookups tx.body, l.writableIndexes ≠ [] ∨ l.readonlyIndexes ≠ [] := by
  unfold View.sanitizeAddressTableLookups
  rw [h.addressTableLookups hb]
  show (bodyLookups tx.body).forM _ = Except.ok u ↔ _
  rw [forM_ok]
  refine forall₂_congr fun l _ => ?_
  rw [sanitizeError, ite_error_eq_ok, not_and_or, List.isEmpty_iff, List.isEmpty_iff]
  exact and_iff_left rfl

lemma sanitize (hb : b.length < 2 ^ 16) :
    (View.mk b f).sanitize flag = .ok u ↔
      b.length ≤ View.maxTransactionSize tx.version ∧ tx.Sanitary flag := by
  have hlimit : View.addressesLimit tx.version ≤ 256 := by
    rcases tx.version <;> decide
  have hkeys8 := (View.mk b f).numStaticAccountKeys.toNat_lt
  rw [h.numStaticAccountKeys] at hkeys8
  unfold View.sanitize
  simp only [Except.bind_eq_ok, View.sanitizeTransactionSize, sanitizeError, ite_error_eq_ok,
    h.version, not_lt, and_true, h.sanitizeMessageHeader, h.sanitizeConfig, h.sanitizeSignatures,
    h.sanitizeAccountAccess, h.sanitizeAddressTableLookups hb, exists_const]
  constructor
  · rintro ⟨hsize, ⟨hreq, hpayer, huns⟩, hheap, ⟨hsigs, hsigs12, hsigsk⟩, htotal, _, hixs, hls⟩
    obtain ⟨hlen, hixs⟩ := (h.sanitizeInstructions (by omega) (by omega)).1 hixs
    exact ⟨hsize,
      { required_pos := hreq
        payer_writable := hpayer
        unsigned_le := by omega
        signatures_eq := hsigs
        signatures_le := hsigs12
        accounts_le := htotal
        instructions_le := hlen
        programs := fun ix hix => (hixs ix hix).1
        accounts := fun ix hix => (hixs ix hix).2.1
        accounts_limit := fun hflag ix hix => (hixs ix hix).2.2 hflag
        heap_size := fun config heapSize hbody => by
          rw [hbody] at hheap
          exact hheap heapSize
        lookups := fun ls hbody => by
          rw [hbody] at hls
          exact hls }⟩
  · rintro ⟨hsize, hs⟩
    have hreq := hs.required_pos
    have huns := hs.unsigned_le
    have hsigs := hs.signatures_eq
    have htotal := hs.accounts_le
    refine ⟨hsize, ⟨hreq, hs.payer_writable, by omega⟩, ?_, ⟨hsigs, hs.signatures_le, by omega⟩, htotal,
      (), (h.sanitizeInstructions (by omega) (by omega)).2 ⟨hs.instructions_le, fun ix hix =>
        ⟨hs.programs ix hix, hs.accounts ix hix, fun hflag => hs.accounts_limit hflag ix hix⟩⟩, ?_⟩
    · intro heapSize hheap
      cases hbody : tx.body with
      | v1 config =>
        rw [hbody] at hheap
        exact hs.heap_size config heapSize hbody hheap
      | legacy | v0 ls =>
        rw [hbody] at hheap
        cases hheap
    · cases hbody : tx.body with
      | v0 ls => exact hs.lookups ls hbody
      | legacy | v1 c => exact nofun

lemma transaction (hb : b.length < 2 ^ 16) : (View.mk b f).transaction = .ok tx := by
  obtain ⟨hp, hq, hr, hs⟩ := h.config
  obtain ⟨hreq, hsig, huns⟩ := h.header
  unfold View.transaction
  rw [h.signatures hb, h.staticAccountKeys, h.recentBlockhash, h.instructions, h.version, hreq, hsig,
    huns]
  rw [tx.version_eq, hp, hq, hr, hs, h.addressTableLookups hb]
  rcases tx with ⟨sigs, req, sig, uns, keys, hash, ixs, body⟩
  cases body <;> rfl

end

lemma messageData_of {v : View} {start stop : ℕ} (hstart : v.frame.messageHeader.offset = start)
    (hstop : (match v.version with
      | .v1 => v.frame.signature.offset
      | _ => v.frame.dataLen) = stop) (hle : start ≤ stop) (hle' : stop ≤ v.data.length) :
    v.messageData = .ok ((v.data.bytes.drop start).take (stop - start)) := by
  subst hstart hstop
  exact if_pos ⟨hle, hle'⟩

lemma messageData (h : Framed b tx f) (hb : b.length < 2 ^ 16) :
    (View.mk b f).messageData = .ok tx.encodeMessage := by
  have hencode := h.encode_eq
  cases h with
  | legacyOrV0 hfits hstands =>
    have hstop := hstands.stop
    have happend : encodeBlocks tx.signatures ++ tx.encodeMessage = b.bytes := by
      rw [← hencode]
      have hne := hfits.version_ne
      unfold Transaction.encode encodeBlocks
      cases hbody : tx.body with
      | legacy | v0 ls => rfl
      | v1 c =>
        rw [hbody] at hne
        exact absurd rfl hne
    have hlen : tx.headerOffset ≤ b.length := by
      show (encodeBlocks tx.signatures).length ≤ b.bytes.length
      rw [← happend, length_append]
      omega
    have hrange : (match (View.mk b tx.frameLegacyOrV0).version with
        | .v1 => (View.mk b tx.frameLegacyOrV0).frame.signature.offset
        | _ => (View.mk b tx.frameLegacyOrV0).frame.dataLen) = b.length := by
      split
      · next hversion => exact absurd hversion hfits.version_ne
      · show asU16 (tx.lookupsOffset + tx.body.encodeLookups.length) = b.length
        rw [hstop, asU16_eq hb]
    rw [messageData_of (asU16_eq (by omega)) hrange hlen (Nat.le_refl _)]
    refine congrArg Except.ok ?_
    rw [take_of_length_le (by rw [length_drop]; exact Nat.le_refl _), ← happend]
    exact drop_left
  | @v1 config hbody hfits hstands =>
    have hstop := hstands.stop
    have happend : tx.encodeMessage ++ ByteBlock.flatten tx.signatures = b.bytes := by
      rw [← hencode, Transaction.encode, hbody]
    have hlen : tx.encodeMessage.length = tx.signaturesOffset config := by
      have hbytes : tx.encodeMessage.length + (ByteBlock.flatten tx.signatures).length = b.length := by
        rw [← length_append, happend]
        rfl
      omega
    have hrange : asU16 (tx.signaturesOffset config) = tx.signaturesOffset config :=
      asU16_eq (by omega)
    rw [@messageData_of (View.mk b (tx.frameV1 config)) 0 _ rfl hrange (Nat.zero_le _)
      (show tx.signaturesOffset config ≤ b.length by omega)]
    refine congrArg Except.ok ?_
    rw [drop_zero, Nat.sub_zero, ← hlen, ← happend]
    exact take_left

end Framed

lemma one_le_length_compactU16 (n : ℕ) : 1 ≤ (compactU16 n).length := by
  unfold compactU16
  split_ifs <;> exact Nat.succ_le_succ (Nat.zero_le _)

lemma length_le_flatMap {α : Type} {g : α → List UInt8} {as : List α} {a : α} (h : a ∈ as) :
    (g a).length ≤ (as.flatMap g).length := by
  obtain ⟨s, t, rfl⟩ := append_of_mem h
  rw [flatMap_append, flatMap_cons, length_append, length_append]
  omega

lemma length_le_encodeBlocks {k : ℕ} (as : List (ByteBlock k)) :
    1 + as.length * k ≤ (encodeBlocks as).length := by
  have := one_le_length_compactU16 as.length
  rw [encodeBlocks, length_append, ByteBlock.length_flatten]
  omega

lemma length_encode_lookups {ls : List SvmMessageAddressTableLookup}
    (h : ∀ l ∈ ls, l.writableIndexes ≠ [] ∨ l.readonlyIndexes ≠ []) :
    35 * ls.length ≤ (ls.flatMap encode).length
    ∧ totalWritable ls + totalReadonly ls
      ≤ (ls.flatMap encode).length := by
  induction ls with
  | nil => exact ⟨Nat.le_refl _, Nat.le_refl _⟩
  | cons l ls ih =>
    obtain ⟨hl, h⟩ := forall_mem_cons.1 h
    obtain ⟨ih35, ihtotal⟩ := ih h
    obtain ⟨hw, hr⟩ := totals_cons l ls
    have hcw := one_le_length_compactU16 l.writableIndexes.length
    have hcr := one_le_length_compactU16 l.readonlyIndexes.length
    have hpos : 1 ≤ l.writableIndexes.length + l.readonlyIndexes.length := by
      rcases hl with hl | hl
      · have := length_pos_of_ne_nil hl
        omega
      · have := length_pos_of_ne_nil hl
        omega
    rw [flatMap_cons, length_append, length_encode,
      length_shortVec, length_shortVec, hw, hr, length_cons]
    exact ⟨by omega, by omega⟩

lemma short_of_length {ix : SvmInstruction} (h : ix.encode.length < 2 ^ 14) : ix.Short := by
  rw [SvmInstruction.length_encode, length_shortVec, length_shortVec] at h
  exact ⟨by omega, by omega⟩

lemma short_lookup_of_length {l : SvmMessageAddressTableLookup} (h : l.encode.length < 2 ^ 14) :
    l.Short := by
  rw [length_encode, length_shortVec, length_shortVec] at h
  exact ⟨by omega, by omega⟩

lemma Transaction.Sanitary.fitsLegacyOrV0 (hs : tx.Sanitary flag) (hv : tx.body.version ≠ .v1)
    (hlen : tx.encode.length ≤ 1232) (hb : tx.encode = b.bytes) : tx.FitsLegacyOrV0 b.length := by
  have hstop := ((Transaction.standsLegacyOrV0_iff hv).2 hb).stop
  have hheader : tx.header.length = 3 := rfl
  have hsigs := length_le_encodeBlocks tx.signatures
  have hkeys := length_le_encodeBlocks tx.accountKeys
  have hreq := hs.required_pos
  have hsig := hs.signatures_eq
  have huns := hs.unsigned_le
  have hix64 := hs.instructions_le
  have hcount := one_le_length_compactU16 tx.instructions.length
  have hixs : tx.encodeInstructions.length = (compactU16 tx.instructions.length).length
      + (tx.instructions.flatMap SvmInstruction.encode).length := length_append
  have hhead : tx.encodeHeader.length = (versionBytes tx.body.version).length + tx.header.length :=
    length_append
  have htotal := hlen
  rw [Transaction.encode_legacyOrV0 hv] at htotal
  simp only [length_append, tx.recentBlockhash.length_eq] at htotal
  refine
    { one_le_signatures := by omega
      signatures_le := hs.signatures_le
      required_lt := fun _ => by have := hs.signatures_le; omega
      one_le_keys := by omega
      keys_le := by omega
      instructions_lt := by omega
      instructions_short := fun ix hix => short_of_length (by
        have := @length_le_flatMap _ SvmInstruction.encode _ _ hix
        omega)
      lookups := ?_ }
  cases hbody : tx.body with
  | legacy => trivial
  | v1 c =>
    rw [hbody] at hv
    exact absurd rfl hv
  | v0 ls =>
    rw [hbody] at hstop htotal hhead
    have hversion : (versionBytes (Body.v0 ls).version).length = 1 := rfl
    have hlook : (Body.v0 ls).encodeLookups.length = (compactU16 ls.length).length
        + (ls.flatMap SvmMessageAddressTableLookup.encode).length := length_append
    have hlcount := one_le_length_compactU16 ls.length
    obtain ⟨h35, hsum⟩ := length_encode_lookups (hs.lookups ls hbody)
    refine ⟨by omega, fun l hl => short_lookup_of_length ?_, by omega, by omega, by omega⟩
    have := @length_le_flatMap _ SvmMessageAddressTableLookup.encode _ _ hl
    omega

lemma Transaction.Sanitary.fitsV1 {config : Config} (hs : tx.Sanitary flag)
    (hbody : tx.body = .v1 config) (hfits : tx.FitsLayout) (hlen : tx.encode.length ≤ 4096) :
    tx.FitsV1 := by
  have hix64 := hs.instructions_le
  have hkeys : tx.accountKeys.length ≤ 64 := by
    have htotal := hs.accounts_le
    rw [Transaction.totalAccounts, tx.version_eq, hbody] at htotal
    exact htotal
  refine ⟨hs.signatures_eq, by omega, by omega, fun ix hix => ⟨hfits config hbody ix hix, ?_⟩⟩
  have hpayload := @length_le_flatMap _ SvmInstruction.encodePayload _ _ hix
  have hdata : ix.data.length ≤ ix.encodePayload.length := by
    rw [SvmInstruction.encodePayload, length_append]
    omega
  have hixs : tx.encodeV1Instructions.length
      = (tx.instructions.flatMap SvmInstruction.encodeHeader).length
        + (tx.instructions.flatMap SvmInstruction.encodePayload).length := length_append
  rw [Transaction.encode_v1 hbody] at hlen
  simp only [length_append] at hlen
  omega

lemma Transaction.Sanitary.framed (hs : tx.Sanitary flag) (hfits : tx.FitsLayout)
    (hlen : tx.encode.length ≤ maxTransactionSize tx.version) (hb : tx.encode = b.bytes) :
    ∃ f, Framed b tx f := by
  rw [tx.version_eq] at hlen
  cases hbody : tx.body with
  | legacy | v0 ls =>
    have hv : tx.body.version ≠ .v1 := by
      rw [hbody]
      exact nofun
    rw [hbody] at hlen
    exact ⟨_, .legacyOrV0 (hs.fitsLegacyOrV0 hv hlen hb) ((standsLegacyOrV0_iff hv).2 hb)⟩
  | v1 config =>
    rw [hbody] at hlen
    exact ⟨_, .v1 hbody (hs.fitsV1 hbody hfits hlen) ((standsV1_iff hbody).2 hb)⟩

lemma maxTransactionSize_lt (version : TransactionVersion) :
    maxTransactionSize version < 2 ^ 16 := by
  rcases version <;> decide

lemma tryNewSanitized_ok {view : View} : tryNewSanitized b flag = .ok view ↔
    ∃ tx f, Framed b tx f ∧ view = ⟨b, f⟩ ∧ b.length ≤ maxTransactionSize tx.version
      ∧ tx.Sanitary flag := by
  unfold tryNewSanitized
  simp only [Except.bind_eq_ok, tryNewUnsanitized_ok]
  constructor
  · rintro ⟨_, ⟨tx, f, h, rfl⟩, _, hsanitize, hview⟩
    cases hview
    have hsize : b.length ≤ maxTransactionSize tx.version := by
      have hs := hsanitize
      simp only [sanitize, Except.bind_eq_ok, sanitizeTransactionSize, sanitizeError,
        ite_error_eq_ok, h.version, not_lt] at hs
      exact hs.choose_spec.1.1
    have hb := lt_of_le_of_lt hsize (maxTransactionSize_lt _)
    exact ⟨tx, f, h, rfl, hsize, ((h.sanitize hb).1 hsanitize).2⟩
  · rintro ⟨tx, f, h, rfl, hsize, hs⟩
    have hb := lt_of_le_of_lt hsize (maxTransactionSize_lt _)
    exact ⟨_, ⟨tx, f, h, rfl⟩, (), (h.sanitize hb).2 ⟨hsize, hs⟩, rfl⟩

/-- Parsing is exact and canonical. What is accepted is the encoding of the transaction that is read
from it, and what keeps the rules and is not too long is accepted. -/
theorem View.tryNewSanitized_exact (flag : Bool) :
    (∀ b view, tryNewSanitized b flag = .ok view → ∃ tx, view.transaction = .ok tx
      ∧ tx.encode = b.bytes ∧ view.messageData = .ok tx.encodeMessage ∧ tx.Sanitary flag)
    ∧ (∀ (tx : Transaction) (b : Slice), tx.Sanitary flag → tx.FitsLayout → tx.encode = b.bytes →
      tx.encode.length ≤ maxTransactionSize tx.version →
      ∃ view, tryNewSanitized b flag = .ok view ∧ view.transaction = .ok tx)
    ∧ ∀ b b' view view' tx, tryNewSanitized b flag = .ok view →
      tryNewSanitized b' flag = .ok view' → view.transaction = .ok tx →
      view'.transaction = .ok tx → b.bytes = b'.bytes := by
  have hread : ∀ b view, tryNewSanitized b flag = .ok view → ∃ tx, view.transaction = .ok tx
      ∧ tx.encode = b.bytes ∧ view.messageData = .ok tx.encodeMessage ∧ tx.Sanitary flag := by
    intro b view h
    obtain ⟨tx, f, hf, rfl, hsize, hs⟩ := tryNewSanitized_ok.1 h
    have hb := lt_of_le_of_lt hsize (maxTransactionSize_lt _)
    exact ⟨tx, hf.transaction hb, hf.encode_eq, hf.messageData hb, hs⟩
  refine ⟨hread, ?_, ?_⟩
  · intro tx b hs hfits hb hlen
    obtain ⟨f, hf⟩ := hs.framed hfits hlen hb
    have hsize : b.length ≤ maxTransactionSize tx.version := by
      rw [hb] at hlen
      exact hlen
    exact ⟨_, tryNewSanitized_ok.2 ⟨tx, f, hf, rfl, hsize, hs⟩,
      hf.transaction (lt_of_le_of_lt hsize (maxTransactionSize_lt _))⟩
  · intro b b' view view' tx h h' htx htx'
    obtain ⟨tx1, htx1, hb, -⟩ := hread b view h
    obtain ⟨tx2, htx2, hb', -⟩ := hread b' view' h'
    rw [htx] at htx1
    rw [htx'] at htx2
    cases htx1
    cases htx2
    rw [← hb, ← hb']

lemma sanitary_smallV1 : smallV1.Sanitary true where
  required_pos := by decide
  payer_writable := by decide
  unsigned_le := by decide
  signatures_eq := rfl
  signatures_le := by decide
  accounts_le := by decide
  instructions_le := by decide
  programs := by decide
  accounts := by decide +kernel
  accounts_limit := by decide
  heap_size := by
    rintro _ _ ⟨⟩ ⟨⟩
    decide
  lookups := nofun

theorem View.tryNewSanitized_exact_smallV1 :
    ∃ view, tryNewSanitized smallV1Bytes true = .ok view ∧ view.transaction = .ok smallV1
      ∧ ∃ tx, view.transaction = .ok tx ∧ tx.encode = smallV1Bytes.bytes
        ∧ view.messageData = .ok tx.encodeMessage ∧ tx.Sanitary true := by
  obtain ⟨hread, haccept, -⟩ := View.tryNewSanitized_exact true
  have hfits : smallV1.FitsLayout := by
    intro config _ ix hix
    cases mem_singleton.1 hix
    decide
  obtain ⟨view, hview, htx⟩ :=
    haccept smallV1 smallV1Bytes sanitary_smallV1 hfits rfl (by decide +kernel)
  exact ⟨view, hview, htx, hread _ _ hview⟩

end BlackBull.TransactionView
