import BlackBull.Svm.InvokeContext
import BlackBull.Proofs.TransactionContext

/-!
# The accounts of an instruction

The two passes over the accounts of a callee leave every entry equal to the first entry of its
account (`Normal`), so a check of the first entries against the first entries of the caller is one
of all entries (`Derived`).
-/

namespace BlackBull.Svm

open TransactionContext List

section Dedup

/-- The map sends the indices to their first positions, and all others beyond the list. -/
structure Dedup (map indices : List ℕ) : Prop where
  length_eq : map.length = maxAccountsPerTransaction
  bounded : ∀ i ∈ indices, i < map.length
  first : ∀ i p, map[i]? = some p → p = if i ∈ indices then indices.idxOf i else u16Max

lemma Dedup.empty : Dedup emptyCallee.1 [] where
  length_eq := length_replicate
  bounded := nofun
  first i p h := by
    exact eq_of_mem_replicate (mem_of_getElem? h)

variable {map indices : List ℕ} {i p : ℕ}

lemma Dedup.getElem? (h : Dedup map indices) (hi : i ∈ indices) :
    map[i]? = some (indices.idxOf i) := by
  have hlt := h.bounded i hi
  have hfirst := h.first i _ (getElem?_eq_getElem hlt)
  rw [if_pos hi] at hfirst
  rw [getElem?_eq_getElem hlt, hfirst]

lemma Dedup.repeated (h : Dedup map indices) (hi : i ∈ indices) : Dedup map (indices ++ [i]) where
  length_eq := h.length_eq
  bounded := forall_mem_append.2 ⟨h.bounded, forall_mem_singleton.2 (h.bounded i hi)⟩
  first j q hq := by
    have hmem : j ∈ indices ++ [i] ↔ j ∈ indices := by
      rw [mem_append, mem_singleton]
      exact ⟨fun hj => hj.elim id fun hj => hj ▸ hi, .inl⟩
    rw [h.first j q hq]
    simp only [hmem]
    split_ifs with hj
    · rw [idxOf_append_of_mem hj]
    · rfl

lemma Dedup.added (h : Dedup map indices) (hi : i ∉ indices) (hlt : i < map.length) :
    Dedup (map.set i indices.length) (indices ++ [i]) where
  length_eq := length_set.trans h.length_eq
  bounded := by
    rw [length_set]
    exact forall_mem_append.2 ⟨h.bounded, forall_mem_singleton.2 hlt⟩
  first j q hq := by
    rw [getElem?_set] at hq
    split_ifs at hq with hij
    · subst hij
      rw [if_pos mem_concat_self, idxOf_append_of_notMem hi, idxOf_cons_self]
      exact (Option.some.inj hq).symm
    · have hmem : j ∈ indices ++ [i] ↔ j ∈ indices := by
        rw [mem_append, mem_singleton]
        exact or_iff_left (Ne.symm hij)
      rw [h.first j q hq]
      simp only [hmem]
      split_ifs with hj
      · rw [idxOf_append_of_mem hj]
      · rfl

end Dedup

section Callee

variable {s : TransactionContext} {message : SvmMessage} {callee : CalleeAccounts}
  {accounts : List InstructionAccount} {e : InstructionAccount} {k : ℕ}

def indicesOf (accounts : List InstructionAccount) : List ℕ := accounts.map (·.indexInTransaction)

/-- The map sends an account to its first place, and its entries are the same. -/
structure Normal (map : List ℕ) (accounts : List InstructionAccount) : Prop where
  dedup : Dedup map (indicesOf accounts)
  same : ∀ e ∈ accounts, ∀ e' ∈ accounts, e.indexInTransaction = e'.indexInTransaction → e = e'

lemma Normal.of_getIndex {c : InstructionContext} (h : Normal c.dedupMap c.instructionAccounts)
    {i p : ℕ} (hp : c.getIndexOfAccountInInstruction i = .ok p)
    (hlen : c.instructionAccounts.length ≤ u16Max) :
    ∃ e, c.instructionAccounts[p]? = some e ∧ e.indexInTransaction = i := by
  unfold InstructionContext.getIndexOfAccountInInstruction at hp
  split at hp
  · cases hp
  · rename_i index hindex
    rw [ite_error_eq_ok] at hp
    obtain ⟨hlt, hp⟩ := hp
    cases hp
    have hfirst := h.dedup.first i p hindex
    split_ifs at hfirst with hmem
    · have hget := getElem?_idxOf hmem
      rw [← hfirst, indicesOf, getElem?_map, Option.map_eq_some_iff] at hget
      exact hget
    · omega

/-- The flags of the entry are those of the message. -/
def FromMessage (message : SvmMessage) (e : InstructionAccount) : Prop :=
  e.isSigner = message.isSigner e.indexInTransaction
    ∧ e.isWritable = message.isWritable e.indexInTransaction

/-- What holds after `k` accounts of a top-level instruction. -/
structure TopLevel (message : SvmMessage) (k : ℕ) (callee : CalleeAccounts) : Prop where
  dedup : Dedup callee.1 (indicesOf callee.2)
  fromMessage : ∀ e ∈ callee.2, FromMessage message e
  length_eq : callee.2.length = k

lemma indicesOf_append (accounts : List InstructionAccount) (e : InstructionAccount) :
    indicesOf (accounts ++ [e]) = indicesOf accounts ++ [e.indexInTransaction] := by
  rw [indicesOf, map_append]
  rfl

lemma addTopLevelAccount_spec (h : TopLevel message k callee) (hlen : k < u16Max) (index : UInt8) :
    ∃ callee', addTopLevelAccount message callee index = .ok callee'
      ∧ TopLevel message (k + 1) callee' := by
  have hlt : index.toNat < callee.1.length := by
    rw [h.dedup.length_eq]
    exact index.toNat_lt
  obtain ⟨p, hp⟩ : ∃ p, callee.1[index.toNat]? = some p := ⟨_, getElem?_eq_getElem hlt⟩
  have hfirst := h.dedup.first _ p hp
  have hlength : (indicesOf callee.2).length = k := (length_map _).trans h.length_eq
  refine ⟨_, by rw [addTopLevelAccount, hp], ?_,
    forall_mem_append.2 ⟨h.fromMessage, forall_mem_singleton.2 ⟨rfl, rfl⟩⟩, ?_⟩
  · rw [indicesOf_append]
    by_cases hmem : index.toNat ∈ indicesOf callee.2
    · rw [if_pos hmem] at hfirst
      have hidx := idxOf_lt_length_of_mem hmem
      rw [h.length_eq, if_neg (by omega)]
      exact h.dedup.repeated hmem
    · rw [if_neg hmem] at hfirst
      have hmod : k % 2 ^ 16 = (indicesOf callee.2).length := by
        unfold u16Max at hlen
        omega
      rw [h.length_eq, if_pos (by omega), hmod]
      exact h.dedup.added hmem hlt
  · rw [length_append, h.length_eq]
    rfl

lemma TopLevel.normal (h : TopLevel message k callee) : Normal callee.1 callee.2 := by
  refine ⟨h.dedup, fun e he e' he' heq => ?_⟩
  obtain ⟨i, signer, writable⟩ := e
  cases heq
  obtain ⟨h1, h2⟩ := h.fromMessage _ he
  obtain ⟨h3, h4⟩ := h.fromMessage _ he'
  exact (InstructionAccount.mk.injEq ..).mpr ⟨rfl, h1.trans h3.symm, h2.trans h4.symm⟩

lemma topLevelAccounts_spec (message : SvmMessage) {accounts : List UInt8}
    (hlen : accounts.length ≤ u16Max) :
    ∃ callee, accounts.foldlM (addTopLevelAccount message) emptyCallee = .ok callee
      ∧ TopLevel message accounts.length callee := by
  suffices h : ∀ (accounts : List UInt8) (k : ℕ) (callee : CalleeAccounts),
      k + accounts.length ≤ u16Max → TopLevel message k callee →
      ∃ callee', accounts.foldlM (addTopLevelAccount message) callee = .ok callee'
        ∧ TopLevel message (k + accounts.length) callee' by
    have := h accounts 0 emptyCallee (by omega) ⟨.empty, nofun, rfl⟩
    rwa [Nat.zero_add] at this
  intro accounts
  induction accounts with
  | nil => exact fun k callee _ h => ⟨callee, rfl, h⟩
  | cons index accounts ih =>
    intro k callee hk h
    rw [length_cons] at hk ⊢
    obtain ⟨callee1, hadd, h1⟩ := addTopLevelAccount_spec h (by omega) index
    obtain ⟨callee', hfold, h'⟩ := ih (k + 1) callee1 (by omega) h1
    refine ⟨callee', ?_, ?_⟩
    · rw [foldlM_cons, hadd]
      exact hfold
    · rwa [Nat.add_right_comm] at h'

/-- The flags of `f` are at least those of `e`. -/
def FlagsLe (e f : InstructionAccount) : Prop :=
  (e.isSigner = true → f.isSigner = true) ∧ (e.isWritable = true → f.isWritable = true)

/-- The first entry of an account has all flags of the others. -/
def Merged (accounts : List InstructionAccount) : Prop :=
  ∀ e ∈ accounts, ∃ f,
    accounts[(indicesOf accounts).idxOf e.indexInTransaction]? = some f ∧ FlagsLe e f

/-- What holds after `k` accounts of the first pass: the metas merged by account. -/
structure FirstPass (s : TransactionContext) (metas : List AccountMeta) (k : ℕ)
    (callee : CalleeAccounts) : Prop where
  dedup : Dedup callee.1 (indicesOf callee.2)
  merged : Merged callee.2
  length_eq : callee.2.length = k
  found : ∀ q m, q < k → metas[q]? = some m →
    s.findIndexOfAccount m.pubkey = (indicesOf callee.2)[q]?

lemma indicesOf_set {p : ℕ} {f : InstructionAccount} (h : accounts[p]? = some f)
    (heq : e.indexInTransaction = f.indexInTransaction) :
    indicesOf (accounts.set p e) = indicesOf accounts :=
  map_set_of_eq h heq

lemma getElem?_indicesOf {p : ℕ} (h : accounts[p]? = some e) :
    (indicesOf accounts)[p]? = some e.indexInTransaction := by
  rw [indicesOf, getElem?_map, h]
  rfl

lemma mem_indicesOf (h : e ∈ accounts) : e.indexInTransaction ∈ indicesOf accounts :=
  mem_map_of_mem h

lemma exists_first {i : ℕ} (h : i ∈ indicesOf accounts) :
    ∃ f, accounts[(indicesOf accounts).idxOf i]? = some f ∧ f.indexInTransaction = i := by
  have hget := getElem?_idxOf h
  rwa [indicesOf, getElem?_map, Option.map_eq_some_iff] at hget

lemma Merged.repeated {i : ℕ} {first merged : InstructionAccount} (h : Merged accounts)
    (hi : i ∈ indicesOf accounts) (hfirst : accounts[(indicesOf accounts).idxOf i]? = some first)
    (hle : FlagsLe first merged) (heq : merged.indexInTransaction = first.indexInTransaction) :
    Merged (accounts.set ((indicesOf accounts).idxOf i) merged ++ [merged]) := by
  have hindex : first.indexInTransaction = i := by
    obtain ⟨f, hf, hfi⟩ := exists_first hi
    cases hfirst.symm.trans hf
    exact hfi
  have hlt : (indicesOf accounts).idxOf i < accounts.length :=
    (List.getElem?_eq_some_iff.1 hfirst).1
  intro e he
  rw [indicesOf_append, indicesOf_set hfirst heq]
  have he' : e = merged ∨ e ∈ accounts := by
    rcases mem_append.1 he with he | he
    · exact (mem_or_eq_of_mem_set he).symm
    · exact .inl (mem_singleton.1 he)
  have hmem : e.indexInTransaction ∈ indicesOf accounts := by
    rcases he' with rfl | he'
    · rwa [heq, hindex]
    · exact mem_indicesOf he'
  rw [idxOf_append_of_mem hmem]
  by_cases hei : e.indexInTransaction = i
  · refine ⟨merged, ?_, ?_⟩
    · rw [hei, getElem?_append_left (by rwa [length_set]), getElem?_set_self hlt]
    · rcases he' with rfl | he'
      · exact ⟨id, id⟩
      · obtain ⟨f, hf, hef⟩ := h e he'
        rw [hei, hfirst] at hf
        cases hf
        exact ⟨fun hs => hle.1 (hef.1 hs), fun hw => hle.2 (hef.2 hw)⟩
  · obtain ⟨f, hf, hef⟩ := h e (he'.resolve_left fun heq' => hei (heq' ▸ heq.trans hindex))
    have hne : (indicesOf accounts).idxOf i ≠ (indicesOf accounts).idxOf e.indexInTransaction :=
      fun hidx => hei ((idxOf_inj hi).1 hidx).symm
    refine ⟨f, ?_, hef⟩
    rw [getElem?_append_left, getElem?_set_ne hne, hf]
    rw [length_set]
    exact (List.getElem?_eq_some_iff.1 hf).1

lemma Merged.added {new : InstructionAccount} (h : Merged accounts)
    (hnew : new.indexInTransaction ∉ indicesOf accounts) :
    Merged (accounts ++ [new]) := by
  intro e he
  rw [indicesOf_append]
  rcases mem_append.1 he with he | he
  · obtain ⟨f, hf, hef⟩ := h e he
    refine ⟨f, ?_, hef⟩
    rw [idxOf_append_of_mem (mem_indicesOf he),
      getElem?_append_left (List.getElem?_eq_some_iff.1 hf).1, hf]
  · rw [mem_singleton.1 he]
    refine ⟨new, ?_, id, id⟩
    rw [idxOf_append_of_notMem hnew]
    simp [indicesOf]

lemma FirstPass.found_append {metas : List AccountMeta} {i : ℕ} {m : AccountMeta}
    (h : FirstPass s metas k callee) (hm : metas[k]? = some m)
    (hi : s.findIndexOfAccount m.pubkey = some i) :
    ∀ q m', q < k + 1 → metas[q]? = some m' →
      s.findIndexOfAccount m'.pubkey = (indicesOf callee.2 ++ [i])[q]? := by
  intro q m' hq hm'
  have hlength : (indicesOf callee.2).length = k := (length_map _).trans h.length_eq
  rcases Nat.lt_succ_iff_lt_or_eq.1 hq with hq | rfl
  · rw [getElem?_append_left (by omega)]
    exact h.found q m' hq hm'
  · cases hm.symm.trans hm'
    rw [getElem?_append_right (by omega), hi, hlength, Nat.sub_self]
    rfl

lemma addCalleeAccount_spec {metas : List AccountMeta} {m : AccountMeta} {callee' : CalleeAccounts}
    (h : FirstPass s metas k callee) (hm : metas[k]? = some m) (hlen : k < u16Max)
    (hadd : addCalleeAccount s callee m = .ok callee') :
    FirstPass s metas (k + 1) callee' := by
  unfold addCalleeAccount at hadd
  split at hadd
  · cases hadd
  rename_i i hi
  split at hadd
  · cases hadd
  rename_i p hp
  have hlength := h.length_eq
  have hp' := h.dedup.first i p hp
  have hfound := h.found_append hm hi
  split at hadd
  · -- the account is there already
    rename_i first hfirst
    have hmem : i ∈ indicesOf callee.2 := by
      by_contra hmem
      rw [if_neg hmem] at hp'
      have := (List.getElem?_eq_some_iff.1 hfirst).1
      omega
    rw [if_pos hmem] at hp'
    subst hp'
    obtain ⟨f, hf, hfi⟩ := exists_first hmem
    cases hfirst.symm.trans hf
    cases hadd
    have hindex : (first.merge m.isSigner m.isWritable).indexInTransaction
        = first.indexInTransaction := rfl
    have hindices : indicesOf (callee.2.set ((indicesOf callee.2).idxOf i)
        (first.merge m.isSigner m.isWritable) ++ [first.merge m.isSigner m.isWritable])
        = indicesOf callee.2 ++ [i] := by
      rw [indicesOf_append, indicesOf_set hfirst hindex, hindex, hfi]
    refine ⟨?_, ?_, ?_, ?_⟩
    · simp only [hindices]
      exact h.dedup.repeated hmem
    · refine h.merged.repeated hmem hfirst ⟨fun hs => ?_, fun hw => ?_⟩ rfl
      · simp [InstructionAccount.merge, hs]
      · simp [InstructionAccount.merge, hw]
    · rw [length_append, length_set, hlength]
      rfl
    · simp only [hindices]
      exact hfound
  · -- it is new
    rename_i hnone
    have hmem : i ∉ indicesOf callee.2 := by
      intro hmem
      rw [if_pos hmem] at hp'
      obtain ⟨f, hf, -⟩ := exists_first hmem
      rw [← hp', hnone] at hf
      cases hf
    cases hadd
    have hmod : callee.2.length % 2 ^ 16 = (indicesOf callee.2).length := by
      have : (indicesOf callee.2).length = callee.2.length := length_map _
      unfold u16Max at hlen
      omega
    refine ⟨?_, h.merged.added hmem, ?_, ?_⟩
    · simp only [hmod, indicesOf_append]
      exact h.dedup.added hmem (List.getElem?_eq_some_iff.1 hp).1
    · rw [length_append, hlength]
      rfl
    · simp only [indicesOf_append]
      exact hfound

/-- The flags of the entry come from the caller or the given signers. -/
def Derived (s : TransactionContext) (caller : InstructionContext) (signers : List Pubkey)
    (e : InstructionAccount) : Prop :=
  ∃ c ∈ caller.instructionAccounts, c.indexInTransaction = e.indexInTransaction
    ∧ (e.isWritable = true → c.isWritable = true)
    ∧ (e.isSigner = true → c.isSigner = true
      ∨ ∃ key ∈ signers, s.findIndexOfAccount key = some e.indexInTransaction)

/-- What holds after `k` accounts of the second pass: flags spread and checked. -/
structure SecondPass (s : TransactionContext) (caller : InstructionContext) (signers : List Pubkey)
    (accounts₀ : List InstructionAccount) (k : ℕ) (accounts : List InstructionAccount) : Prop where
  indices : indicesOf accounts = indicesOf accounts₀
  rest : ∀ q, k ≤ q → accounts[q]? = accounts₀[q]?
  done : ∀ q e, q < k → accounts[q]? = some e →
    accounts₀[(indicesOf accounts₀).idxOf e.indexInTransaction]? = some e
      ∧ Derived s caller signers e

variable {caller : InstructionContext} {signers : List Pubkey} {metas : List AccountMeta}

lemma derived_of_checkPrivileges (hcaller : Normal caller.dedupMap caller.instructionAccounts)
    (hlen : caller.instructionAccounts.length ≤ u16Max) {account : InstructionAccount}
    {key : Pubkey} {u : Unit} (hkey : s.findIndexOfAccount key = some account.indexInTransaction)
    (h : checkPrivileges caller signers account key = .ok u) :
    Derived s caller signers account := by
  unfold checkPrivileges at h
  split at h
  · cases h
  rename_i p hp
  obtain ⟨c, hc, hci⟩ := hcaller.of_getIndex hp hlen
  split at h
  · cases h
  rename_i c' hc'
  cases hc.symm.trans hc'
  rw [ite_error_eq_ok, ite_error_eq_ok] at h
  obtain ⟨hw, hs, -⟩ := h
  refine ⟨c, mem_of_getElem? hc, hci, fun hew => ?_, fun hes => ?_⟩
  · by_contra hcw
    exact hw ⟨hew, hcw⟩
  · by_contra hcs
    refine hs ⟨hes, fun hor => hcs ?_⟩
    exact hor.imp_right fun hmem => ⟨key, hmem, hkey⟩

lemma merge_eq_of_flagsLe {f : InstructionAccount} (h : FlagsLe e f)
    (heq : e.indexInTransaction = f.indexInTransaction) : e.merge f.isSigner f.isWritable = f := by
  obtain ⟨i, signer, writable⟩ := e
  obtain ⟨i', signer', writable'⟩ := f
  obtain ⟨hs, hw⟩ := h
  cases signer <;> cases writable <;> simp_all [InstructionAccount.merge]

lemma idxOf_le {l : List ℕ} {x : ℕ} (h : l[k]? = some x) : l.idxOf x ≤ k := by
  obtain ⟨hlt, rfl⟩ := List.getElem?_eq_some_iff.1 h
  by_contra hk
  have := not_of_lt_findIdx (not_le.1 hk)
  simp at this

lemma finishCalleeAccount_spec {map : List ℕ} {accounts0 accounts' : List InstructionAccount}
    (hfirst : FirstPass s metas accounts0.length (map, accounts0))
    (hcaller : Normal caller.dedupMap caller.instructionAccounts)
    (hlen : caller.instructionAccounts.length ≤ u16Max)
    (h : SecondPass s caller signers accounts0 k accounts) (hk : k < accounts0.length)
    (hfinish : finishCalleeAccount caller signers metas map accounts k = .ok accounts') :
    SecondPass s caller signers accounts0 (k + 1) accounts' := by
  unfold finishCalleeAccount at hfinish
  split at hfinish
  rotate_left
  · cases hfinish
  rename_i account m haccount hm
  split at hfinish
  · cases hfinish
  rename_i p hp
  have haccount0 := (h.rest k le_rfl).symm.trans haccount
  have hindex := getElem?_indicesOf haccount0
  have hmem := mem_indicesOf (mem_of_getElem? haccount0)
  have hp' := hfirst.dedup.first _ p hp
  rw [if_pos hmem] at hp'
  split_ifs at hfinish with hkp
  · -- a repeated account: its first entry is done, and has the flags of this one
    unfold copyFlags at hfinish
    split at hfinish
    · cases hfinish
    rename_i reference hreference
    cases hfinish
    have hpk : p < k := lt_of_le_of_ne (hp' ▸ idxOf_le hindex) (Ne.symm hkp)
    obtain ⟨href0, hderived⟩ := h.done p reference hpk hreference
    have hrefIndex : reference.indexInTransaction = account.indexInTransaction := by
      obtain ⟨f, hf, hfi⟩ := exists_first hmem
      have h1 := getElem?_indicesOf hreference
      have h2 := getElem?_indicesOf hf
      rw [h.indices] at h1
      rw [← hp', h1] at h2
      exact (Option.some.inj h2).trans hfi
    rw [hrefIndex] at href0
    obtain ⟨f, hf, hle⟩ := hfirst.merged account (mem_of_getElem? haccount0)
    cases href0.symm.trans hf
    rw [merge_eq_of_flagsLe hle hrefIndex.symm]
    refine ⟨(indicesOf_set haccount hrefIndex).trans h.indices, fun q hq => ?_, fun q e hq he => ?_⟩
    · rw [getElem?_set_ne (by omega)]
      exact h.rest q (by omega)
    · by_cases hqk : q = k
      · subst hqk
        rw [getElem?_set_self (List.getElem?_eq_some_iff.1 haccount).1] at he
        cases he
        exact ⟨hrefIndex ▸ hf, hderived⟩
      · rw [getElem?_set_ne (Ne.symm hqk)] at he
        exact h.done q e (by omega) he
  · -- the first entry of an account is checked
    rw [Except.bind_eq_ok] at hfinish
    obtain ⟨u, hcheck, hfinish⟩ := hfinish
    cases hfinish
    have hkey := hfirst.found k m hk hm
    refine ⟨h.indices, fun q hq => h.rest q (by omega), fun q e hq he => ?_⟩
    by_cases hqk : q = k
    · subst hqk
      cases haccount.symm.trans he
      refine ⟨?_, derived_of_checkPrivileges hcaller hlen (hkey.trans hindex) hcheck⟩
      rw [← hp', ← not_ne_iff.1 hkp]
      exact haccount0
    · exact h.done q e (by omega) he

theorem calleeAccounts_spec (hmetas : metas.length ≤ u16Max)
    (hcaller : Normal caller.dedupMap caller.instructionAccounts)
    (hlen : caller.instructionAccounts.length ≤ u16Max)
    (h : calleeAccounts s caller signers metas = .ok callee) :
    Normal callee.1 callee.2 ∧ callee.2.length = metas.length
      ∧ ∀ e ∈ callee.2, Derived s caller signers e := by
  unfold calleeAccounts at h
  simp only [Except.bind_eq_ok] at h
  obtain ⟨⟨map, accounts0⟩, hfold, accounts, hfinish, h⟩ := h
  cases h
  have hfirst : FirstPass s metas metas.length (map, accounts0) :=
    foldlM_indexed (P := FirstPass s metas)
      ⟨.empty, nofun, rfl, nofun⟩
      (fun k m callee callee' hk hP hadd => addCalleeAccount_spec hP hk
        ((List.getElem?_eq_some_iff.1 hk).1.trans_le hmetas) hadd) hfold
  have hlength : accounts0.length = metas.length := hfirst.length_eq
  have hpass := foldlM_indexed (P := SecondPass s caller signers accounts0)
    ⟨rfl, fun _ _ => rfl, nofun⟩
    (fun k i accounts accounts' hk hP hstep => by
      obtain ⟨hlt, rfl⟩ := List.getElem?_eq_some_iff.1 hk
      rw [getElem_range] at hstep
      rw [length_range] at hlt
      exact finishCalleeAccount_spec (hlength.symm ▸ hfirst) hcaller hlen hP hlt hstep) hfinish
  rw [length_range] at hpass
  have hlen' : accounts.length = accounts0.length := by
    have := congrArg length hpass.indices
    rwa [indicesOf, length_map, indicesOf, length_map] at this
  have hall : ∀ e ∈ accounts, accounts0[(indicesOf accounts0).idxOf e.indexInTransaction]? = some e
      ∧ Derived s caller signers e := fun e he => by
    obtain ⟨q, hq, rfl⟩ := getElem_of_mem he
    exact hpass.done q _ (hq.trans_eq hlen') (getElem?_eq_getElem hq)
  refine ⟨⟨?_, fun e he e' he' heq => ?_⟩, hlen'.trans hlength, fun e he => (hall e he).2⟩
  · simp only [hpass.indices]
    exact hfirst.dedup
  · have h1 := (hall e he).1
    rw [heq, (hall e' he').1] at h1
    exact (Option.some.inj h1).symm

end Callee

end BlackBull.Svm
