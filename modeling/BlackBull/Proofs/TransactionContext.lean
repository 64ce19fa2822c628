import BlackBull.Svm.BorrowedAccount

/-!
# The counters of a transaction

`Changed` says all that an operation of a borrowed account can do: it replaces the account, and the
two counters follow.
-/

namespace BlackBull.Svm

open TransactionContext BorrowedInstructionAccount List Triple

variable {s s' context : TransactionContext} {α β : Type} {f : Unit → ContextM β} {i : ℕ}
  {Q : β → TransactionContext → Prop} {E : ContextStop → TransactionContext → Prop}
  {b : BorrowedInstructionAccount} {a a' : TransactionAccount} {initial : List TransactionAccount}

section Commands

lemma ensure_bind {c : Prop} [Decidable c] {e : InstructionError}
    (h : c → Triple (· = s) (f ()) Q E) (hE : ¬ c → E (.error e) s) :
    Triple (· = s) (ensure c e >>= f) Q E := by
  rw [ensure]
  split_ifs with hc
  · exact h hc
  · rintro _ rfl
    exact hE hc

lemma ofExcept_bind {x : Except InstructionError α} {f : α → ContextM β}
    (h : ∀ a, x = .ok a → Triple (· = s) (f a) Q E) (hE : ∀ e, x = .error e → E (.error e) s) :
    Triple (· = s) (ofExcept x >>= f) Q E := by
  cases x with
  | ok a => exact h a rfl
  | error e =>
    rintro _ rfl
    exact hE e rfl

lemma get_bind {f : TransactionContext → ContextM β} (h : Triple (· = s) (f s) Q E) :
    Triple (· = s) (get >>= f) Q E := by
  rintro s rfl
  exact h s rfl

lemma modify_bind {g : TransactionContext → TransactionContext} (h : Triple (· = g s) (f ()) Q E) :
    Triple (· = s) (modify g >>= f) Q E := by
  rintro s rfl
  exact h (g s) rfl

end Commands

section Zeroed

lemma isZeroed_iff (buf : List UInt8) : isZeroed buf = true ↔ ∀ byte ∈ buf, byte = 0 := by
  fun_induction isZeroed buf with
  | case1 buf h => rw [beq_iff_eq, eq_replicate_iff, and_iff_right rfl]
  | case2 buf h ih =>
    have hlen : (buf.take 1024).length = 1024 := by
      rw [length_take]
      omega
    rw [Bool.and_eq_true, beq_iff_eq, ih, eq_replicate_iff, and_iff_right hlen]
    conv_rhs => rw [← take_append_drop 1024 buf, forall_mem_append]

end Zeroed

section Changed

/-- A change that the entry of the account allows: it is writable, and the program owns the account
unless only lamports are added; the owner changes while the data is zero. -/
structure Permitted (b : BorrowedInstructionAccount) (s : TransactionContext)
    (a a' : TransactionAccount) : Prop where
  writable : b.isWritable = true
  owned : s.getKeyOfAccountAtIndex b.indexInTransactionOfInstructionProgram = .ok a.owner
    ∨ a' = { a with lamports := a'.lamports } ∧ a.lamports < a'.lamports
  zeroed : a'.owner ≠ a.owner → ∀ byte ∈ a.data, byte = 0

structure Changed (b : BorrowedInstructionAccount) (a a' : TransactionAccount)
    (s s' : TransactionContext) : Prop where
  accounts : s'.accounts.accounts = s.accounts.accounts.set b.index a'
  lamports : s'.accounts.lamportsDelta
    = s.accounts.lamportsDelta + (a'.lamports.toNat - a.lamports.toNat)
  resize : a'.data.length = a.data.length ∧ s'.accounts.resizeDelta = s.accounts.resizeDelta
    ∨ a'.data.length ≤ maxAccountDataLen
      ∧ s'.accounts.resizeDelta = saturateI64 (s.accounts.resizeDelta
        + saturateI64 (asI64 a'.data.length - asI64 a.data.length))
      ∧ s'.accounts.resizeDelta ≤ maxAccountDataGrowthPerTransaction
  counters : s'.accounts.borrowCounters = s.accounts.borrowCounters
  touched : s'.accounts.touchedFlags.length = s.accounts.touchedFlags.length
  frame : s' = { s with accounts := s'.accounts }
  permitted : a' ≠ a → Permitted b s a a'

lemma Changed.refl (ha : s.accounts.accounts[b.index]? = some a) : Changed b a a s s where
  accounts := by
    obtain ⟨hlt, rfl⟩ := List.getElem?_eq_some_iff.1 ha
    exact (set_getElem_self hlt).symm
  lamports := by omega
  resize := .inl ⟨rfl, rfl⟩
  counters := rfl
  touched := rfl
  frame := rfl
  permitted h := absurd rfl h

def touchedAt (b : BorrowedInstructionAccount) (s : TransactionContext) : TransactionContext :=
  { s with accounts.touchedFlags := s.accounts.touchedFlags.set b.index true }

def Changes (b : BorrowedInstructionAccount) (a : TransactionAccount) (s : TransactionContext)
    (x : ContextM Unit) : Prop :=
  Triple (· = s) x (fun _ s' => ∃ a', Changed b a a' s s') fun _ s' => ∃ a', Changed b a a' s s'

section Steps

lemma account_bind {f : TransactionAccount → ContextM β}
    (ha : s.accounts.accounts[b.index]? = some a) (h : Triple (· = s) (f a) Q E) :
    Triple (· = s) (b.account >>= f) Q E := by
  unfold account
  rw [bind_assoc]
  refine get_bind ?_
  rw [ha]
  exact h

lemma touch_bind (ht : b.index < s.accounts.touchedFlags.length)
    (h : Triple (· = touchedAt b s) (f ()) Q E) : Triple (· = s) (b.touch >>= f) Q E := by
  unfold touch
  rw [bind_assoc]
  refine get_bind ?_
  rw [bind_assoc]
  refine ensure_bind (fun _ => ?_) fun hlt => absurd ht hlt
  rintro s rfl
  exact h _ rfl

lemma addLamportsDelta_bind {balance : ℤ} (h : Triple
      (· = { s with accounts.lamportsDelta := s.accounts.lamportsDelta + balance }) (f ()) Q E)
    (hE : ∀ e, E e s) :
    Triple (· = s) (addLamportsDelta balance >>= f) Q E := by
  unfold addLamportsDelta
  rw [bind_assoc]
  refine get_bind ?_
  rw [bind_assoc]
  refine ensure_bind (fun _ => ?_) fun _ => hE _
  rintro s rfl
  exact h _ rfl

lemma canDataBeChanged_bind
    (h : b.isWritable = true → b.isOwnedByCurrentProgram s a = true → Triple (· = s) (f ()) Q E)
    (hE : ∀ e, E e s) : Triple (· = s) (b.canDataBeChanged a >>= f) Q E := by
  unfold canDataBeChanged
  rw [bind_assoc]
  refine get_bind ?_
  rw [bind_assoc]
  refine ensure_bind (fun hw => ?_) fun _ => hE _
  exact ensure_bind (fun ho => h hw ho) fun _ => hE _

lemma canDataBeResized_bind {newLen : ℕ}
    (h : b.isWritable = true → b.isOwnedByCurrentProgram s a = true → newLen ≤ maxAccountDataLen →
      saturateI64 (s.accounts.resizeDelta + saturateI64 (asI64 newLen - asI64 a.data.length))
        ≤ maxAccountDataGrowthPerTransaction → Triple (· = s) (f ()) Q E) (hE : ∀ e, E e s) :
    Triple (· = s) (b.canDataBeResized a newLen >>= f) Q E := by
  unfold canDataBeResized
  rw [bind_assoc]
  refine get_bind ?_
  rw [bind_assoc]
  refine ensure_bind (fun _ => ?_) fun _ => hE _
  rw [bind_assoc]
  refine ofExcept_bind (fun _ hok => ?_) fun _ _ => hE _
  unfold TransactionAccounts.canDataBeResized at hok
  rw [ite_error_eq_ok, ite_error_eq_ok] at hok
  exact canDataBeChanged_bind (fun hw ho => h hw ho (not_lt.1 hok.1) (not_lt.1 hok.2.1)) hE

end Steps

lemma owner_of_isOwned (h : b.isOwnedByCurrentProgram s a = true) :
    s.getKeyOfAccountAtIndex b.indexInTransactionOfInstructionProgram = .ok a.owner := by
  unfold isOwnedByCurrentProgram at h
  split at h
  · rename_i key hkey
    rw [hkey, of_decide_eq_true h]
  · cases h

section Operations

variable (ha : s.accounts.accounts[b.index]? = some a)
  (ht : b.index < s.accounts.touchedFlags.length)

include ha

lemma Changed.of_touched : Changed b a a s (touchedAt b s) where
  accounts := (Changed.refl ha).accounts
  lamports := by simp [touchedAt]
  resize := .inl ⟨rfl, rfl⟩
  counters := rfl
  touched := length_set
  frame := rfl
  permitted h := absurd rfl h

include ht

lemma changes_setOwner (pubkey : List UInt8) : Changes b a s (b.setOwner pubkey) := by
  have hE : ∃ a', Changed b a a' s s := ⟨a, .refl ha⟩
  refine get_bind (account_bind ha (ensure_bind (fun ho => ?_) fun _ => hE))
  refine ensure_bind (fun hw => ?_) fun _ => hE
  refine ensure_bind (fun hz => ?_) fun _ => hE
  refine ite (fun _ => pure fun _ hs => hs ▸ hE) fun _ => touch_bind ht ?_
  split_ifs with hlen
  · rintro _ rfl
    refine ⟨{ a with owner := ⟨pubkey, hlen⟩ }, rfl, by simp [touchedAt], .inl ⟨rfl, rfl⟩, rfl,
      length_set, rfl, fun _ => ⟨hw, .inl (owner_of_isOwned ho), fun _ => ?_⟩⟩
    exact (isZeroed_iff a.data).1 hz
  · exact throw fun _ hs => ⟨a, hs ▸ .of_touched ha⟩

lemma changes_setLamports (lamports : UInt64) : Changes b a s (b.setLamports lamports) := by
  have hE : ∃ a', Changed b a a' s s := ⟨a, .refl ha⟩
  refine get_bind (account_bind ha (ensure_bind (fun ho => ?_) fun _ => hE))
  refine ensure_bind (fun hw => ?_) fun _ => hE
  refine ite (fun _ => pure fun _ hs => hs ▸ hE) fun hne => ?_
  refine addLamportsDelta_bind (touch_bind ht ?_) fun _ => hE
  rintro _ rfl
  refine ⟨{ a with lamports }, rfl, rfl, .inl ⟨rfl, rfl⟩, rfl, length_set, rfl,
    fun _ => ⟨hw, ?_, fun h => absurd rfl h⟩⟩
  rcases ho with ho | hle
  · exact .inl (owner_of_isOwned ho)
  · exact .inr ⟨rfl, UInt64.lt_of_le_of_ne hle hne⟩

lemma changes_checkedAddLamports (lamports : UInt64) :
    Changes b a s (b.checkedAddLamports lamports) := by
  refine account_bind ha (ensure_bind (fun _ => ?_) fun _ => ⟨a, .refl ha⟩)
  exact changes_setLamports ha ht _

lemma changes_checkedSubLamports (lamports : UInt64) :
    Changes b a s (b.checkedSubLamports lamports) := by
  refine account_bind ha (ensure_bind (fun _ => ?_) fun _ => ⟨a, .refl ha⟩)
  exact changes_setLamports ha ht _

lemma changes_writeDataMut (offset : ℕ) (byte : UInt8) :
    Changes b a s (b.writeDataMut offset byte) := by
  refine account_bind ha (canDataBeChanged_bind (fun hw ho => ?_) fun _ => ⟨a, .refl ha⟩)
  refine touch_bind ht (ite (fun _ => ?_) fun _ => ?_)
  · rintro _ rfl
    exact ⟨{ a with data := a.data.set offset byte }, rfl, by simp [touchedAt],
      .inl ⟨length_set, rfl⟩, rfl, length_set, rfl,
      fun _ => ⟨hw, .inl (owner_of_isOwned ho), fun h => absurd rfl h⟩⟩
  · exact throw fun _ hs => ⟨a, hs ▸ .of_touched ha⟩

omit ha in
lemma changes_resize (data : List UInt8) (hw : b.isWritable = true)
    (ho : b.isOwnedByCurrentProgram s a = true) (hlen : data.length ≤ maxAccountDataLen)
    (hlimit :
      saturateI64 (s.accounts.resizeDelta + saturateI64 (asI64 data.length - asI64 a.data.length))
        ≤ maxAccountDataGrowthPerTransaction) :
    Changes b a s (b.touch >>= fun _ =>
      updateAccountsResizeDelta a.data.length data.length >>= fun _ =>
        b.setAccount { a with data }) := by
  refine touch_bind ht ?_
  rintro _ rfl
  exact ⟨{ a with data }, rfl, by simp [touchedAt], .inr ⟨hlen, rfl, hlimit⟩, rfl, length_set,
    rfl, fun _ => ⟨hw, .inl (owner_of_isOwned ho), fun h => absurd rfl h⟩⟩

lemma changes_setDataFromSlice (data : List UInt8) : Changes b a s (b.setDataFromSlice data) := by
  exact account_bind ha (canDataBeResized_bind
    (fun hw ho hlen hlimit => changes_resize ht data hw ho hlen hlimit) fun _ => ⟨a, .refl ha⟩)

lemma changes_setDataLength (newLength : ℕ) : Changes b a s (b.setDataLength newLength) := by
  have hE : ∃ a', Changed b a a' s s := ⟨a, .refl ha⟩
  refine account_bind ha (canDataBeResized_bind (fun hw ho hlen hlimit => ?_) fun _ => hE)
  refine ite (fun _ => pure fun _ hs => hs ▸ hE) fun _ => ?_
  have hresized : newLength = (a.data.take newLength
      ++ replicate (newLength - a.data.length) 0).length := by
    rw [length_append, length_take, length_replicate]
    omega
  have h := changes_resize ht
    (a.data.take newLength ++ replicate (newLength - a.data.length) 0) hw ho (hresized ▸ hlen)
    (hresized ▸ hlimit)
  rwa [← hresized] at h

lemma changes_extendFromSlice (data : List UInt8) : Changes b a s (b.extendFromSlice data) := by
  have hE : ∃ a', Changed b a a' s s := ⟨a, .refl ha⟩
  refine account_bind ha (canDataBeResized_bind (fun hw ho hlen hlimit => ?_) fun _ => hE)
  refine ite (fun _ => pure fun _ hs => hs ▸ hE) fun _ => ?_
  have hextended : min (2 ^ 64 - 1) (a.data.length + data.length) = (a.data ++ data).length := by
    rw [length_append]
    unfold maxAccountDataLen at hlen
    omega
  have h := changes_resize ht (a.data ++ data) hw ho (hextended ▸ hlen) (hextended ▸ hlimit)
  rwa [← hextended] at h

lemma changes_setExecutable (isExecutable : Bool) :
    Changes b a s (b.setExecutable isExecutable) := by
  have hE : ∃ a', Changed b a a' s s := ⟨a, .refl ha⟩
  refine get_bind (account_bind ha (ensure_bind (fun _ => ?_) fun _ => hE))
  refine ensure_bind (fun ho => ?_) fun _ => hE
  refine ensure_bind (fun hw => ?_) fun _ => hE
  refine ite (fun _ => pure fun _ hs => hs ▸ hE) fun _ => touch_bind ht ?_
  rintro _ rfl
  exact ⟨{ a with executable := isExecutable }, rfl, by simp [touchedAt], .inl ⟨rfl, rfl⟩, rfl,
    length_set, rfl, fun _ => ⟨hw, .inl (owner_of_isOwned ho), fun h => absurd rfl h⟩⟩

theorem changes_apply (op : AccountOp) : Changes b a s (b.apply op) := by
  cases op with
  | setLamports lamports => exact changes_setLamports ha ht lamports
  | checkedAddLamports lamports => exact changes_checkedAddLamports ha ht lamports
  | checkedSubLamports lamports => exact changes_checkedSubLamports ha ht lamports
  | setOwner pubkey => exact changes_setOwner ha ht pubkey
  | writeDataMut offset byte => exact changes_writeDataMut ha ht offset byte
  | setDataFromSlice data => exact changes_setDataFromSlice ha ht data
  | setDataLength newLength => exact changes_setDataLength ha ht newLength
  | extendFromSlice data => exact changes_extendFromSlice ha ht data
  | setExecutable isExecutable => exact changes_setExecutable ha ht isExecutable

end Operations

end Changed

section Shrink

/-- The context after an account was emptied. -/
def shrunk (b : BorrowedInstructionAccount) (a : TransactionAccount) (s : TransactionContext) :
    TransactionContext :=
  { s with accounts := { s.accounts with
    accounts := s.accounts.accounts.set b.index { a with data := [] }
    touchedFlags := s.accounts.touchedFlags.set b.index true
    resizeDelta := saturateI64 (s.accounts.resizeDelta
      + saturateI64 (asI64 0 - asI64 a.data.length)) } }

/-- What it takes to empty an account. -/
structure Shrinks (b : BorrowedInstructionAccount) (a : TransactionAccount)
    (s : TransactionContext) : Prop where
  account : s.accounts.accounts[b.index]? = some a
  touched : b.index < s.accounts.touchedFlags.length
  writable : b.isWritable = true
  owned : b.isOwnedByCurrentProgram s a = true
  pos : 0 < a.data.length
  limit : (shrunk b a s).accounts.resizeDelta ≤ maxAccountDataGrowthPerTransaction

lemma Shrinks.setDataLength (h : Shrinks b a s) :
    Triple (· = s) (b.setDataLength 0) (fun _ s' => s' = shrunk b a s) fun _ _ => False := by
  unfold BorrowedInstructionAccount.setDataLength canDataBeResized canDataBeChanged
  refine account_bind h.account ?_
  simp only [bind_assoc]
  refine get_bind (ensure_bind (fun _ => ?_) fun hn => hn (.inr h.owned))
  refine ofExcept_bind (fun _ _ => ?_) fun e he => ?_
  · refine get_bind (ensure_bind (fun _ => ?_) fun hn => hn h.writable)
    refine ensure_bind (fun _ => ?_) fun hn => hn h.owned
    refine ite (fun hn => absurd hn h.pos.ne') fun _ => touch_bind h.touched ?_
    rintro _ rfl
    simp
    rfl
  · cases (if_neg (not_lt.2 h.limit)).symm.trans he

end Shrink

section Totals

def lamportSum (accounts : List TransactionAccount) : ℤ :=
  (accounts.map fun a => (a.lamports.toNat : ℤ)).sum

def dataSum (accounts : List TransactionAccount) : ℤ :=
  (accounts.map fun a => (a.data.length : ℤ)).sum

lemma sum_map_set {f : TransactionAccount → ℤ} {l : List TransactionAccount} (h : l[i]? = some a)
    (a' : TransactionAccount) :
    ((l.set i a').map f).sum = (l.map f).sum + (f a' - f a) := by
  obtain ⟨hlt, rfl⟩ := List.getElem?_eq_some_iff.1 h
  rw [map_set, sum_set', dif_pos (by rwa [length_map]), getElem_map]
  omega

lemma length_nonneg (l : List TransactionAccount) :
    ∀ n ∈ l.map fun a => (a.data.length : ℤ), 0 ≤ n :=
  forall_mem_map.2 fun _ _ => Int.natCast_nonneg _

/-- The counters are what the lamports and the lengths of the data have changed by, the latter within
the limit and where the initial lengths are less than `2 ^ 63` in all. -/
structure Balanced (initial : List TransactionAccount) (t : TransactionAccounts) : Prop where
  counters : t.borrowCounters.length = t.accounts.length
  touched : t.touchedFlags.length = t.accounts.length
  lamports : t.lamportsDelta = lamportSum t.accounts - lamportSum initial
  limit : t.resizeDelta ≤ maxAccountDataGrowthPerTransaction
  resize : dataSum initial < 2 ^ 63 → (∀ a ∈ t.accounts, a.data.length < 2 ^ 63)
    ∧ t.resizeDelta = dataSum t.accounts - dataSum initial

lemma Balanced.new (initial : List TransactionAccount) :
    Balanced initial (TransactionAccounts.new initial) where
  counters := length_replicate
  touched := length_replicate
  lamports := (Int.sub_self _).symm
  limit := by
    change (0 : ℤ) ≤ maxAccountDataGrowthPerTransaction
    decide
  resize h := by
    refine ⟨fun a ha => ?_, (Int.sub_self _).symm⟩
    have : (a.data.length : ℤ) ≤ dataSum initial :=
      single_le_sum (length_nonneg initial) _ (mem_map.2 ⟨a, ha, rfl⟩)
    omega

/-- No sum is saturated: the new length is small, and the counter is above what there was. -/
lemma saturateI64_resize {resizeDelta : ℤ} {oldLen newLen : ℕ} {total : ℤ}
    (hnew : newLen ≤ maxAccountDataLen) (hold : oldLen < 2 ^ 63)
    (htotal : resizeDelta + (newLen - oldLen) = total) (hlow : -2 ^ 63 < total)
    (hlimit : saturateI64 (resizeDelta + saturateI64 (asI64 newLen - asI64 oldLen))
      ≤ maxAccountDataGrowthPerTransaction) :
    saturateI64 (resizeDelta + saturateI64 (asI64 newLen - asI64 oldLen)) = total := by
  unfold maxAccountDataGrowthPerTransaction maxAccountDataLen at *
  have h1 : asI64 newLen = newLen := by
    unfold asI64
    omega
  have h2 : asI64 oldLen = oldLen := by
    unfold asI64
    omega
  unfold saturateI64 at *
  omega

lemma Balanced.changed (h : Balanced initial s.accounts) (ha : s.accounts.accounts[b.index]? = some a)
    (hc : Changed b a a' s s') : Balanced initial s'.accounts where
  counters := by rw [hc.counters, hc.accounts, length_set, h.counters]
  touched := by rw [hc.touched, hc.accounts, length_set, h.touched]
  lamports := by
    rw [hc.lamports, hc.accounts, lamportSum, sum_map_set ha, h.lamports, lamportSum]
    omega
  limit := by
    rcases hc.resize with ⟨-, heq⟩ | ⟨-, -, hlimit⟩
    · rw [heq]
      exact h.limit
    · exact hlimit
  resize hsum := by
    obtain ⟨hsmall, hdelta⟩ := h.resize hsum
    have hold := hsmall a (mem_of_getElem? ha)
    have hset : dataSum s'.accounts.accounts
        = dataSum s.accounts.accounts + (a'.data.length - a.data.length) := by
      rw [hc.accounts, dataSum, sum_map_set ha, dataSum]
    have hnonneg : 0 ≤ dataSum s'.accounts.accounts := sum_nonneg (length_nonneg _)
    refine ⟨fun x hx => ?_, ?_⟩
    · rw [hc.accounts] at hx
      rcases mem_or_eq_of_mem_set hx with hx | rfl
      · exact hsmall x hx
      · rcases hc.resize with ⟨heq, -⟩ | ⟨hlen, -⟩
        · omega
        · unfold maxAccountDataLen at hlen
          omega
    · rcases hc.resize with ⟨heq, hsame⟩ | ⟨hlen, heq, hlimit⟩
      · omega
      · rw [heq] at hlimit ⊢
        refine saturateI64_resize hlen hold ?_ ?_ hlimit
        · omega
        · omega

end Totals

section Stack

structure SameTotals (s s' : TransactionContext) : Prop where
  lamports : s'.accounts.accounts.map (·.lamports) = s.accounts.accounts.map (·.lamports)
  lengths : s'.accounts.accounts.map (·.data.length) = s.accounts.accounts.map (·.data.length)
  lamportsDelta : s'.accounts.lamportsDelta = s.accounts.lamportsDelta
  resizeDelta : s'.accounts.resizeDelta = s.accounts.resizeDelta
  counters : s'.accounts.borrowCounters.length = s.accounts.borrowCounters.length
  touched : s'.accounts.touchedFlags.length = s.accounts.touchedFlags.length

lemma SameTotals.of_eq (h : s'.accounts = s.accounts) : SameTotals s s' := by
  constructor <;> rw [h]

lemma SameTotals.trans {s1 s2 : TransactionContext} (h : SameTotals s s1) (h' : SameTotals s1 s2) :
    SameTotals s s2 where
  lamports := h'.lamports.trans h.lamports
  lengths := h'.lengths.trans h.lengths
  lamportsDelta := h'.lamportsDelta.trans h.lamportsDelta
  resizeDelta := h'.resizeDelta.trans h.resizeDelta
  counters := h'.counters.trans h.counters
  touched := h'.touched.trans h.touched

lemma SameTotals.lamportSum_eq (h : SameTotals s s') :
    lamportSum s'.accounts.accounts = lamportSum s.accounts.accounts := by
  have := congrArg (fun l => (l.map fun x : UInt64 => (x.toNat : ℤ)).sum) h.lamports
  rwa [map_map, map_map] at this

lemma SameTotals.length_eq (h : SameTotals s s') :
    s'.accounts.accounts.length = s.accounts.accounts.length := by
  have := congrArg length h.lamports
  rwa [length_map, length_map] at this

lemma Balanced.same (h : Balanced initial s.accounts) (hs : SameTotals s s') :
    Balanced initial s'.accounts := by
  have hlength := hs.length_eq
  have hdata : dataSum s'.accounts.accounts = dataSum s.accounts.accounts := by
    have := congrArg (fun l => (l.map fun x : ℕ => (x : ℤ)).sum) hs.lengths
    rwa [map_map, map_map] at this
  refine ⟨?_, ?_, ?_, ?_, fun hsum => ?_⟩
  · rw [hs.counters, hlength, h.counters]
  · rw [hs.touched, hlength, h.touched]
  · rw [hs.lamportsDelta, hs.lamportSum_eq, h.lamports]
  · rw [hs.resizeDelta]
    exact h.limit
  · obtain ⟨hsmall, hdelta⟩ := h.resize hsum
    refine ⟨fun a ha => ?_, by rw [hs.resizeDelta, hdata, hdelta]⟩
    have hmem : a.data.length ∈ s.accounts.accounts.map (·.data.length) :=
      hs.lengths ▸ mem_map_of_mem ha
    obtain ⟨x, hx, heq⟩ := mem_map.1 hmem
    exact heq ▸ hsmall x hx

lemma map_set_of_eq {f : α → β} {l : List α} {a a' : α} (h : l[i]? = some a) (hf : f a' = f a) :
    (l.set i a').map f = l.map f := by
  obtain ⟨hlt, rfl⟩ := List.getElem?_eq_some_iff.1 h
  have hset := @set_getElem_self _ (l.map f) i (by rwa [length_map])
  rwa [getElem_map, ← hf, ← map_set] at hset

lemma sameTotals_storeCurrentIndex (t : ℕ) :
    Triple (· = s) (storeCurrentIndex t) (fun _ => SameTotals s) (fun _ => SameTotals s) := by
  have hrefl : SameTotals s s := .of_eq rfl
  refine get_bind ?_
  split
  · exact pure fun _ hs => hs ▸ hrefl
  · refine ofExcept_bind (fun _ _ => ?_) fun _ _ => hrefl
    split
    · exact throw fun _ hs => hs ▸ hrefl
    · rename_i account haccount
      refine ensure_bind (fun _ => ?_) fun _ => hrefl
      refine ofExcept_bind (fun data hdata => ?_) fun _ _ => hrefl
      rintro s rfl
      exact ⟨map_set_of_eq haccount rfl,
        map_set_of_eq haccount (s.sdk.length_stored hdata), rfl, rfl, rfl, rfl⟩

lemma takeNextIndex_bind {f : ℕ × ℕ → ContextM β}
    (htop : s.instructionStack = [] → Triple
      (· = { s with nextTopLevelInstructionIndex := s.nextTopLevelInstructionIndex + 1 })
      (f (s.nextTopLevelInstructionIndex, s.nextTopLevelInstructionIndex)) Q E)
    (hcpi : s.instructionStack ≠ [] → Triple
      (· = { s with
        numberOfCpisInTrace := min u16Max (s.numberOfCpisInTrace + 1)
        instructionTrace := s.instructionTrace ++ [({} : InstructionFrame)] })
      (f (s.getInstructionTraceLength, s.nextTopLevelInstructionIndex - 1)) Q E) :
    Triple (· = s) (takeNextIndex >>= f) Q E := by
  unfold takeNextIndex
  rw [bind_assoc]
  refine get_bind ?_
  split_ifs with hstack
  · rintro s rfl
    exact htop hstack _ rfl
  · rintro s rfl
    exact hcpi hstack _ rfl

lemma sameTotals_push : Triple (· = s) push
    (fun _ s' => SameTotals s s' ∧ (s.instructionStack = [] ∨ s.accounts.lamportsDelta = 0))
    (fun _ => SameTotals s) := by
  refine get_bind (ensure_bind (fun hbalance => ?_) fun _ => .of_eq rfl)
  refine ensure_bind (fun _ => modify_bind ?_) fun _ => .of_eq rfl
  refine ensure_bind (fun _ => ?_) fun _ => .of_eq rfl
  refine takeNextIndex_bind (fun _ => ?_) fun _ => ?_
  all_goals
    refine ensure_bind (fun _ => modify_bind ?_) fun _ => .of_eq rfl
    refine ((sameTotals_storeCurrentIndex _).conseq (fun _ h => h)
      fun _ _ h => ⟨.trans ?_ h, hbalance⟩).conseq_error fun _ _ => .trans ?_
    all_goals exact .of_eq rfl

lemma lamportsDelta_of_detect {unbalanced : Bool}
    (h : s.detectUnbalancedInstruction = .ok unbalanced) :
    unbalanced = decide (s.accounts.lamportsDelta ≠ 0) := by
  unfold detectUnbalancedInstruction at h
  simp only [Except.bind_eq_ok] at h
  obtain ⟨c, -, program, -, h⟩ := h
  split at h
  · exact (Except.ok.inj h).symm
  · cases h
  · cases h

lemma sameTotals_pop : Triple (· = s) pop
    (fun _ s' => SameTotals s s' ∧ s.accounts.lamportsDelta = 0) (fun _ => SameTotals s) := by
  refine get_bind (ensure_bind (fun _ => ?_) fun _ => .of_eq rfl)
  refine modify_bind (ofExcept_bind (fun unbalanced hub => ?_) fun _ _ => .of_eq rfl)
  refine ite (fun hb => ?_) fun _ => ?_
  · refine pure fun _ hs => ⟨hs ▸ .of_eq rfl, ?_⟩
    have := lamportsDelta_of_detect hub
    rw [hb, eq_comm, decide_eq_false_iff_not, not_not] at this
    exact this
  · exact throw fun _ hs => hs ▸ .of_eq rfl

end Stack

section Borrow

def BorrowedUnder (s : TransactionContext) (b : BorrowedInstructionAccount) : Prop :=
  b.index < s.accounts.accounts.length
    ∧ ∃ c, s.getCurrentInstructionContext = .ok c ∧ b.instructionAccount ∈ c.instructionAccounts
      ∧ b.indexInTransactionOfInstructionProgram = c.programAccountIndexInTx

lemma BorrowedUnder.of_frame (h : BorrowedUnder s b)
    (hframe : s' = { s with accounts := s'.accounts })
    (hlength : s'.accounts.accounts.length = s.accounts.accounts.length) : BorrowedUnder s' b := by
  obtain ⟨hlt, c, hc, hmem⟩ := h
  refine ⟨hlength ▸ hlt, c, ?_, hmem⟩
  rw [hframe]
  exact hc

lemma lt_of_tryBorrowMut {t : TransactionAccounts} {u : Unit} (h : t.tryBorrowMut i = .ok u) :
    i < t.borrowCounters.length := by
  unfold TransactionAccounts.tryBorrowMut at h
  split at h
  · cases h
  · rename_i counter hcounter
    exact (List.getElem?_eq_some_iff.1 hcounter).1

lemma borrowedUnder_tryBorrow (h : Balanced initial s.accounts) (i : ℕ) :
    Triple (· = s) (tryBorrowInstructionAccount i)
      (fun b s' => SameTotals s s' ∧ s' = { s with accounts := s'.accounts } ∧ BorrowedUnder s' b)
      (fun _ s' => s' = s) := by
  refine get_bind (ofExcept_bind (fun c hc => ?_) fun _ _ => rfl)
  split
  · exact throw fun _ hs => hs
  · rename_i entry hentry
    refine ofExcept_bind (fun _ hborrow => ?_) fun _ _ => rfl
    rintro s rfl
    refine ⟨⟨rfl, rfl, rfl, rfl, length_modify _ _ _, rfl⟩, rfl, ?_, c, hc,
      mem_of_getElem? hentry, rfl⟩
    exact h.counters ▸ lt_of_tryBorrowMut hborrow

lemma sameTotals_drop (b : BorrowedInstructionAccount) :
    Triple (· = s) b.drop
      (fun _ s' => SameTotals s s' ∧ s' = { s with accounts := s'.accounts }) fun _ _ => False := by
  rintro s rfl
  exact ⟨⟨rfl, rfl, rfl, rfl, length_modify _ _ _, rfl⟩, rfl⟩

end Borrow

namespace ContextSession

/-- The context is not configured, pushed or popped while accounts are borrowed from it. -/
def Allowed (s : ContextSession) : ContextOp → Prop
  | .configure _ _ _ _ _ | .push | .pop => s.borrowed = []
  | _ => True

instance (s : ContextSession) : DecidablePred s.Allowed
  | .configure _ _ _ _ _ | .push | .pop => inferInstanceAs (Decidable (s.borrowed = []))
  | .borrow _ | .drop _ | .mutate _ _ => .isTrue trivial

structure Inv (initial : List TransactionAccount) (s : ContextSession) : Prop where
  balanced : Balanced initial s.context.accounts
  under : ∀ b ∈ s.borrowed, BorrowedUnder s.context b

lemma after_inv {s s' : ContextSession} {x : ContextM α}
    {f : α → List BorrowedInstructionAccount → List BorrowedInstructionAccount} {o : List Empty}
    {Q : α → TransactionContext → Prop} (h : after x s f = .ok (s', o))
    (hx : Triple (· = s.context) x Q E)
    (hQ : ∀ a context, Q a context → Inv initial ⟨context, f a s.borrowed⟩)
    (hE : ∀ e context, E e context → Inv initial ⟨context, s.borrowed⟩) : Inv initial s' := by
  have hx := hx s.context rfl
  unfold after at h
  split at h
  · rename_i a context heq
    rw [heq] at hx
    cases h
    exact hQ _ _ hx
  · rename_i e context heq
    rw [heq] at hx
    cases h
    exact hE _ _ hx
  · cases h

lemma Inv.of_nil {s : ContextSession} (h : Inv initial s) (hnil : s.borrowed = [])
    (hs : SameTotals s.context context) :
    Inv initial ⟨context, s.borrowed⟩ :=
  ⟨h.balanced.same hs, fun _ hb => absurd (hnil ▸ hb) not_mem_nil⟩

lemma Inv.of_frame {s : ContextSession} (h : Inv initial s)
    (hbalanced : Balanced initial context.accounts)
    (hframe : context = { s.context with accounts := context.accounts })
    (hlength : context.accounts.accounts.length = s.context.accounts.accounts.length) :
    Inv initial ⟨context, s.borrowed⟩ :=
  ⟨hbalanced, fun b hb => (h.under b hb).of_frame hframe hlength⟩

lemma Inv.getElem? {s : ContextSession} (h : Inv initial s)
    (hb : b ∈ s.borrowed) : ∃ a, s.context.accounts.accounts[b.index]? = some a
      ∧ b.index < s.context.accounts.touchedFlags.length :=
  ⟨_, getElem?_eq_getElem (h.under b hb).1, h.balanced.touched ▸ (h.under b hb).1⟩

lemma Inv.changed {s : ContextSession} (h : Inv initial s)
    (ha : s.context.accounts.accounts[b.index]? = some a)
    (hc : Changed b a a' s.context context) : Inv initial ⟨context, s.borrowed⟩ :=
  h.of_frame (h.balanced.changed ha hc) hc.frame (by rw [hc.accounts, length_set])

lemma Inv.step {s s' : ContextSession} {op : ContextOp} {o : List Empty} (h : Inv initial s)
    (hop : s.Allowed op) (hs : s.step op = .ok (s', o)) : Inv initial s' := by
  cases op with simp only [ContextSession.step] at hs
  | configure instructionIndex programIndex instructionAccounts deduplicationMap callerIndex =>
    refine after_inv (Q := fun _ => SameTotals s.context) (E := fun _ => SameTotals s.context) hs
      (get_bind (ensure_bind (fun _ => ?_) fun _ => .of_eq rfl)) (fun _ _ hc => h.of_nil hop hc)
      fun _ _ hc => h.of_nil hop hc
    rintro _ rfl
    exact .of_eq rfl
  | push =>
    exact after_inv hs sameTotals_push (fun _ _ hc => h.of_nil hop hc.1)
      fun _ _ hc => h.of_nil hop hc
  | pop =>
    exact after_inv hs sameTotals_pop (fun _ _ hc => h.of_nil hop hc.1)
      fun _ _ hc => h.of_nil hop hc
  | borrow i =>
    refine after_inv hs (borrowedUnder_tryBorrow h.balanced i) ?_ fun _ _ hc => hc ▸ h
    rintro b context ⟨hsame, hframe, hunder⟩
    have hinv := h.of_frame (h.balanced.same hsame) hframe hsame.length_eq
    exact ⟨hinv.balanced, forall_mem_append.2 ⟨hinv.under, forall_mem_singleton.2 hunder⟩⟩
  | drop k =>
    split at hs
    · cases hs
      exact h
    · refine after_inv hs (sameTotals_drop _) (fun _ context hc => ?_) fun _ _ hc => hc.elim
      have hinv := h.of_frame (h.balanced.same hc.1) hc.2 hc.1.length_eq
      exact ⟨hinv.balanced, fun b hb => hinv.under b (mem_of_mem_eraseIdx hb)⟩
  | mutate k op =>
    split at hs
    · cases hs
      exact h
    · rename_i b hb
      obtain ⟨a, ha, ht⟩ := h.getElem? (mem_of_getElem? hb)
      have hinv (context) (hc : ∃ a', Changed b a a' s.context context) :
          Inv initial ⟨context, s.borrowed⟩ := hc.elim fun a' hc => h.changed ha hc
      exact after_inv hs (changes_apply ha ht op) (fun _ => hinv) fun _ => hinv

def contextAfter (x : ContextM α) (s : TransactionContext) : TransactionContext :=
  match x s with
  | .ok _ s' => s'
  | .error _ s' => s'

/-- Along every sequence of operations, pushes and pops, the counters are what the accounts have
changed by, and nested instructions are entered and all instructions left at the initial total. What
changes an account is allowed by the current instruction. -/
theorem transaction_counters_balanced (initial : List TransactionAccount)
    (sdk : ContextSdk) (stackCapacity traceCapacity topLevel : ℕ)
    (ops : List ContextOp) {s : ContextSession} {o : List Empty}
    (hops :
      Guarded step Allowed ⟨.new initial sdk stackCapacity traceCapacity topLevel, []⟩ ops)
    (hrun : run step ⟨.new initial sdk stackCapacity traceCapacity topLevel, []⟩ ops
      = .ok (s, o)) :
    Balanced initial s.context.accounts
      ∧ (∀ context, TransactionContext.pop s.context = .ok () context →
        lamportSum context.accounts.accounts = lamportSum initial)
      ∧ (∀ context, s.context.instructionStack ≠ [] →
        TransactionContext.push s.context = .ok () context →
        lamportSum context.accounts.accounts = lamportSum initial)
      ∧ ∀ b ∈ s.borrowed, ∀ op i a a',
        s.context.accounts.accounts[i]? = some a →
        (contextAfter (b.apply op) s.context).accounts.accounts[i]? = some a' → a' ≠ a →
        ∃ c, s.context.getCurrentInstructionContext = .ok c
          ∧ (∃ entry ∈ c.instructionAccounts,
            entry.indexInTransaction = i ∧ entry.isWritable = true)
          ∧ (s.context.getKeyOfAccountAtIndex c.programAccountIndexInTx = .ok a.owner
            ∨ a' = { a with lamports := a'.lamports } ∧ a.lamports < a'.lamports)
          ∧ (a'.owner ≠ a.owner → ∀ byte ∈ a.data, byte = 0) := by
  have hinv : Inv initial s := run_induction (P := fun _ _ s => Inv initial s)
    ⟨.new initial, fun b hb => absurd hb not_mem_nil⟩
    (fun _ _ s op s' o' h hop hs => h.step hop hs) hops hrun
  have htotal : s.context.accounts.lamportsDelta = 0 →
      lamportSum s.context.accounts.accounts = lamportSum initial := fun hzero => by
    have := hinv.balanced.lamports
    omega
  refine ⟨hinv.balanced, fun context hpop => ?_, fun context hne hpush => ?_,
    fun b hb op i a a' hai hai' hne => ?_⟩
  · have h := @sameTotals_pop s.context s.context rfl
    rw [hpop] at h
    rw [h.1.lamportSum_eq, htotal h.2]
  · have h := @sameTotals_push s.context s.context rfl
    rw [hpush] at h
    rw [h.1.lamportSum_eq, htotal (h.2.resolve_left hne)]
  · obtain ⟨a0, ha0, ht⟩ := hinv.getElem? hb
    obtain ⟨a1, hc⟩ : ∃ a1, Changed b a0 a1 s.context (contextAfter (b.apply op) s.context) := by
      have h := changes_apply ha0 ht op s.context rfl
      unfold contextAfter
      rcases hr : b.apply op s.context with ⟨_, context⟩ | ⟨_, context⟩
      · rw [hr] at h
        exact h
      · rw [hr] at h
        exact h
    rw [hc.accounts, getElem?_set] at hai'
    split_ifs at hai' with hi
    · subst hi
      cases ha0.symm.trans hai
      cases hai'
      obtain ⟨-, c, hcur, hmem, hprogram⟩ := hinv.under b hb
      have hp := hc.permitted hne
      exact ⟨c, hcur, ⟨_, hmem, rfl, hp.writable⟩, hprogram ▸ hp.owned, hp.zeroed⟩
    · exact absurd (Option.some.inj (hai'.symm.trans hai)) hne

def sampleSdk : ContextSdk where
  isExempt _ _ := true
  storeCurrentIndexChecked data _ := .ok data
  length_stored := by
    rintro _ _ _ ⟨⟩
    rfl

def sampleKey (byte : UInt8) : Pubkey := ⟨List.replicate 32 byte, List.length_replicate⟩

def twoOwned (data : List UInt8) : List TransactionAccount :=
  [⟨sampleKey 1, sampleKey 9, 0, [], true⟩, ⟨sampleKey 2, sampleKey 1, 5, data, false⟩,
    ⟨sampleKey 3, sampleKey 1, 5, data, false⟩]

def sampleSession (data : List UInt8) : ContextSession :=
  ⟨.new (twoOwned data) sampleSdk 5 64 1, []⟩

def enterOps : List ContextOp :=
  [.configure 0 0 [⟨1, false, true⟩, ⟨2, false, true⟩] [] none, .push, .borrow 0, .borrow 1]

def moveOps : List ContextOp :=
  enterOps ++ [.mutate 0 (.checkedSubLamports 2), .mutate 1 (.checkedAddLamports 2), .drop 1,
    .drop 0, .pop]

def shrinkOps : List ContextOp :=
  enterOps ++ [.mutate 0 (.setDataLength 0), .mutate 1 (.setDataLength 0)]

/-- Two lamports move from one account to the other. -/
theorem transaction_counters_moved : ∃ s o, run step (sampleSession [0]) moveOps = .ok (s, o)
    ∧ s.context.accounts.lamportsDelta
      = lamportSum s.context.accounts.accounts - lamportSum (twoOwned [0]) := by
  obtain ⟨⟨s, o⟩, hrun, -⟩ := Except.exists_of_any (p := fun _ => True)
    (x := run step (sampleSession [0]) moveOps) (by decide +kernel)
  exact ⟨s, o, hrun, (transaction_counters_balanced _ _ _ _ _ _ (by decide +kernel) hrun).1.lamports⟩

lemma step_shrink {s : ContextSession} {k : ℕ} (hb : s.borrowed[k]? = some b)
    (h : Shrinks b a s.context) : s.step (.mutate k (.setDataLength 0))
      = .ok ({ s with context := shrunk b a s.context }, []) := by
  have h := h.setDataLength s.context rfl
  rw [step, hb]
  simp only [after, apply]
  rcases hr : b.setDataLength 0 s.context with ⟨_, context⟩ | ⟨_, context⟩ <;> rw [hr] at h
  · rw [h]
  · exact h.elim

lemma shrink_twice {data : List UInt8} (hlen : data.length = 2 ^ 62 + 1) : ∃ s,
    run step (sampleSession data) shrinkOps = .ok (s, [])
    ∧ s.context.accounts.accounts = twoOwned []
    ∧ s.context.accounts.resizeDelta = -2 ^ 63 := by
  have hsat : saturateI64 (asI64 0 - asI64 data.length) = -(2 ^ 62 + 1) := by
    rw [hlen]
    decide
  refine ⟨_, run_append_ok.2 ⟨_, [], [], rfl, run_cons_ok.2 ⟨_, [], [],
    step_shrink rfl ⟨rfl, ?_, rfl, ?_, ?_, ?_⟩, run_cons_ok.2 ⟨_, [], [],
      step_shrink rfl ⟨rfl, ?_, rfl, ?_, ?_, ?_⟩, rfl, rfl⟩, rfl⟩, rfl⟩, rfl, ?_⟩
  · exact (by decide : 1 < 3)
  · rfl
  · exact hlen ▸ Nat.succ_pos _
  · change saturateI64 (0 + saturateI64 (asI64 0 - asI64 data.length)) ≤ _
    rw [hsat]
    decide
  · exact (by decide : 2 < 3)
  · rfl
  · exact hlen ▸ Nat.succ_pos _
  · change saturateI64 (saturateI64 (0 + saturateI64 (asI64 0 - asI64 data.length))
      + saturateI64 (asI64 0 - asI64 data.length)) ≤ _
    rw [hsat]
    decide
  · change saturateI64 (saturateI64 (0 + saturateI64 (asI64 0 - asI64 data.length))
      + saturateI64 (asI64 0 - asI64 data.length)) = _
    rw [hsat]
    decide

/-- Two accounts of `2 ^ 62 + 1` bytes are emptied: the counter saturates. -/
theorem resizeDelta_saturates : ∃ (data : List UInt8) (s : ContextSession),
    Guarded step Allowed (sampleSession data) shrinkOps
    ∧ run step (sampleSession data) shrinkOps = .ok (s, [])
    ∧ s.context.accounts.resizeDelta
      ≠ dataSum s.context.accounts.accounts - dataSum (twoOwned data) := by
  obtain ⟨data, hlen⟩ : ∃ data : List UInt8, data.length = 2 ^ 62 + 1 :=
    ⟨replicate _ 0, length_replicate⟩
  obtain ⟨s, hrun, haccounts, hdelta⟩ := shrink_twice hlen
  refine ⟨data, s, ⟨rfl, fun s1 o1 h1 => ⟨?_, fun _ _ _ => ⟨trivial, fun _ _ _ => ⟨trivial,
    fun _ _ _ => ⟨trivial, fun _ _ _ => ⟨trivial, fun _ _ _ => trivial⟩⟩⟩⟩⟩⟩, hrun, ?_⟩
  · cases h1
    rfl
  · rw [hdelta, haccounts]
    simp only [dataSum, twoOwned, map_cons, hlen]
    decide

end ContextSession

end BlackBull.Svm
