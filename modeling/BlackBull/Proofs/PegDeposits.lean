import BlackBull.Proofs.PegRelease

/-!
# Deposits

A deposit is lost where the relayer marks its signature without a transfer (the transaction was not
found, its first memo has no address, the transfer failed, its amount was rounded) or where more
than 25 signatures wait for a poll.
-/

namespace BlackBull

open List

/-- The signatures that the relayer has yet to mark. -/
def RelayerPc.queue : RelayerPc → List ℕ
  | lookingUp signature rest | releasing signature _ rest | sending signature _ rest
  | confirming signature _ rest | marking signature rest => signature :: rest
  | saving rest => rest
  | polling | sleeping => []

variable {signature' : ℕ} {pc : RelayerPc} {processed : List ℕ}

lemma nextSignature_append {l : List ℕ} (h : ∀ signature ∈ l, signature ∈ processed) (l' : List ℕ) :
    nextSignature processed (l ++ l') = nextSignature processed l' := by
  induction l with
  | nil => rfl
  | cons signature l ih =>
    obtain ⟨hmem, h⟩ := forall_mem_cons.1 h
    rw [cons_append, nextSignature, if_pos hmem, ih h]

namespace Peg

variable {cfg : PegConfig} {s s' : Peg} {r : Relayer} {signature : ℕ} {dep : Deposit}

lemma destination_of_memo {tx : ParsedTransaction} {dest : ℕ}
    (h : (PegConfig.memo tx).bind cfg.publicKey = some dest) : destination cfg tx = some dest := by
  rw [PegConfig.memo] at h
  rw [destination]
  generalize tx.instructions = instructions at *
  induction instructions with
  | nil => cases h
  | cons i instructions ih =>
    rw [find?_cons] at h
    rw [findSome?_cons]
    by_cases hmemo : i.program = some "spl-memo"
    · simp only [hmemo] at h
      rw [if_pos hmemo, show (PegConfig.memoText i.parsed).bind cfg.publicKey = some dest from h]
    · simp only [hmemo] at h
      rw [if_neg hmemo]
      exact ih h

/-- `parseDeposit` finds the deposits to be credited whose first memo has the address. -/
lemma parseDeposit_iff {tx : ParsedTransaction} : cfg.parseDeposit (some tx) = .ok (some dep)
    ↔ creditable cfg tx = some dep ∧ ((PegConfig.memo tx).bind cfg.publicKey).isSome := by
  cases hmeta : tx.txMeta with
  | none =>
    simp only [PegConfig.parseDeposit, creditable, treasuryBalance, hmeta]
    cases tx.accountKeys.findIdx? (· = cfg.treasuryAta) <;> simp
  | some txMeta =>
    cases hidx : tx.accountKeys.findIdx? (· = cfg.treasuryAta) with
    | none => simp [PegConfig.parseDeposit, creditable, treasuryBalance, hidx]
    | some idx =>
      cases hpost : (txMeta.postTokenBalances.getD []).find? (·.accountIndex = idx) with
      | none => simp [PegConfig.parseDeposit, creditable, treasuryBalance, hmeta, hidx, hpost]
      | some post =>
        have hreceived : received cfg tx = post.amount - (((txMeta.preTokenBalances.getD []).find?
            (·.accountIndex = idx)).map (·.amount)).getD 0 := by
          simp [received, treasuryBalance, hmeta, hidx, hpost]
        simp only [PegConfig.parseDeposit, creditable, treasuryBalance, hmeta, hidx, hpost, hreceived, Option.bind_eq_bind, Option.bind_some]
        generalize (((txMeta.preTokenBalances.getD []).find? _).map _).getD 0 = before
        by_cases hcredit : ¬ txMeta.err ∧ post.mint = cfg.mint ∧ before < post.amount
        · obtain ⟨herr, hmint, hlt⟩ := hcredit
          cases hmemo : (PegConfig.memo tx).bind cfg.publicKey with
          | none =>
            have hnone : ∀ memo, PegConfig.memo tx = some memo → cfg.publicKey memo = none := by
              simpa using hmemo
            simp +contextual [herr, hmint, Nat.not_le.2 hlt, Option.bind_eq_some_iff, hnone]
          | some dest =>
            obtain ⟨memo, hm, hdest⟩ := Option.bind_eq_some_iff.1 hmemo
            simp [herr, hmint, hlt, Nat.not_le.2 hlt, hm, hdest, destination_of_memo hmemo]
        · refine iff_of_false (fun h => hcredit ?_) fun h => hcredit ?_
          · split_ifs at h with herr hmint hle
            iterate 3 cases h
            exact ⟨herr, not_not.1 hmint, Nat.not_le.1 hle⟩
          · have hok := h.1
            split_ifs at hok with hall
            simpa using hall

lemma creditable_lamports {tx : ParsedTransaction} (h : creditable cfg tx = some dep) :
    0 < received cfg tx ∧ dep.lamports = received cfg tx * cfg.scale := by
  unfold creditable at h
  split_ifs at h with hpos
  obtain ⟨dest, -, rfl⟩ := Option.map_eq_some_iff.1 h
  exact ⟨hpos.2.2, rfl⟩

variable (cfg) in
/-- The first memo of a deposit has the address, its amount is a double, its transaction is found,
no transfer fails, and not more than 25 signatures wait. -/
def DepositsKept (s : Peg) : PegInput → Prop
  | .treasury _ tx => (∀ dep ∈ creditable cfg tx, toNumber dep.lamports = dep.lamports
      ∧ ((PegConfig.memo tx).bind cfg.publicKey).isSome)
    ∧ (s.relayer = none ∨ s.waiting.length < 25)
  | .restart => s.waiting.length ≤ 25
  | .parsedTransaction false =>
    match s.relayer with
    | some ⟨_, .lookingUp signature _⟩ => ∀ tx ∈ s.transaction signature, creditable cfg tx = none
    | _ => True
  | .confirmed true => False
  | _ => True

instance (s : Peg) (input : PegInput) : Decidable (s.DepositsKept cfg input) := by
  cases s
  unfold DepositsKept
  split
  · infer_instance
  · infer_instance
  · dsimp only
    split <;> infer_instance
  · infer_instance
  · infer_instance

variable (cfg) in
/-- What the relayer knows of the signature at hand. -/
def PcKept (s : Peg) : RelayerPc → Prop
  | .releasing signature dep _ | .sending signature dep _ => s.IsDeposit cfg signature dep
  | .confirming signature i _ => ∃ dep, s.IsDeposit cfg signature dep
    ∧ s.submitted[i]? = some ⟨signature, dep.dest, toNumber dep.lamports⟩
  | .marking signature _ => s.Settled cfg signature
  | .lookingUp _ _ | .saving _ | .polling | .sleeping => True

variable (cfg) in
/-- What is processed is settled, in order, and the rest is in the window. -/
structure Kept (s : Peg) (r : Relayer) : Prop where
  order : r.processed ++ r.pc.queue <+: s.signatures
  settled : ∀ signature ∈ r.processed, s.Settled cfg signature
  pc : s.PcKept cfg r.pc
  window : s.signatures.length ≤ r.processed.length + 25

variable (cfg) in
/-- What the file holds is settled, in order. -/
structure FileKept (s : Peg) : Prop where
  nodup : s.signatures.Nodup
  exact : ∀ signature tx dep, s.transaction signature = some tx → creditable cfg tx = some dep →
    toNumber dep.lamports = dep.lamports ∧ ((PegConfig.memo tx).bind cfg.publicKey).isSome
  landed : ∀ i ∈ s.landed, i < s.submitted.length
  order : s.file.loadState <+: s.signatures
  settled : ∀ signature ∈ s.file.loadState, s.Settled cfg signature

variable (cfg) in
/-- The invariant of the bridge. -/
structure DepositInv (s : Peg) : Prop extends FileKept cfg s where
  kept : ∀ r, s.relayer = some r → Kept cfg s r

lemma depositInv_new : DepositInv cfg {} :=
  ⟨⟨nodup_nil, nofun, nofun, prefix_rfl, nofun⟩, nofun⟩

lemma length_waiting (hnodup : s.signatures.Nodup) (h : s.processed <+: s.signatures) :
    s.waiting.length + s.processed.length = s.signatures.length := by
  obtain ⟨l, hl⟩ := h
  rw [waiting, ← hl, filter_append, length_append, length_append]
  rw [← hl] at hnodup
  have hdisj := disjoint_of_nodup_append hnodup
  have h1 : s.processed.filter (· ∉ s.processed) = [] := by
    simp
  have h2 : l.filter (· ∉ s.processed) = l := by
    refine filter_eq_self.2 fun a ha => ?_
    simpa using fun hmem => hdisj hmem ha
  rw [h1, h2, length_nil]
  omega

lemma nextSignature_order {processed l : List ℕ} (hnodup : s.signatures.Nodup)
    (h : processed ++ l <+: s.signatures) :
    (nextSignature processed l).queue = l ∧ ∀ s' : Peg, s'.PcKept cfg (nextSignature processed l) := by
  cases l with
  | nil => exact ⟨rfl, fun _ => trivial⟩
  | cons signature rest =>
    have hdisj := disjoint_of_nodup_append (hnodup.sublist h.sublist)
    rw [nextSignature, if_neg fun hmem => hdisj hmem mem_cons_self]
    exact ⟨rfl, fun _ => trivial⟩

lemma latestSignatures_eq (h : processed <+: s.signatures)
    (hwindow : s.signatures.length ≤ processed.length + 25) :
    ∃ l l', s.latestSignatures = l ++ l' ∧ (∀ signature ∈ l, signature ∈ processed)
      ∧ processed ++ l' = s.signatures := by
  obtain ⟨l', hl'⟩ := h
  refine ⟨processed.drop (s.signatures.length - 25), l', ?_, fun a => mem_of_mem_drop, hl'⟩
  rw [latestSignatures]
  nth_rewrite 2 [← hl']
  rw [drop_append_of_le_length (by omega)]

lemma Settled.land (h : s.Settled cfg signature) (i : ℕ) :
    Settled cfg { s with landed := s.landed ++ [i] } signature := by
  intro dep hdep
  obtain ⟨j, hj, ht⟩ := h dep hdep
  exact ⟨j, mem_append_left _ hj, ht⟩

lemma Settled.submit (h : s.Settled cfg signature) (hlt : ∀ i ∈ s.landed, i < s.submitted.length)
    (signature' : ℕ) (dep' : Deposit) : (s.submit signature' dep').Settled cfg signature := by
  intro dep hdep
  obtain ⟨i, hi, ht⟩ := h dep hdep
  exact ⟨i, hi, (getElem?_append_left (hlt i hi)).trans ht⟩

def treasury (s : Peg) (signature : ℕ) (tx : ParsedTransaction) : Peg :=
  { s with history := s.history ++ [(signature, tx)] }

lemma transaction_treasury (tx : ParsedTransaction) (hmem : signature ∈ s.signatures) :
    (s.treasury signature' tx).transaction signature = s.transaction signature := by
  obtain ⟨p, hp, rfl⟩ := mem_map.1 hmem
  have hsome : (s.history.find? (·.1 = p.1)).isSome := by
    rw [find?_isSome]
    exact ⟨p, hp, decide_eq_true rfl⟩
  rw [transaction, treasury, find?_append, Option.or_of_isSome hsome, transaction]

lemma mem_history {tx : ParsedTransaction} (h : s.transaction signature = some tx) :
    (signature, tx) ∈ s.history := by
  obtain ⟨p, hp, rfl⟩ := Option.map_eq_some_iff.1 h
  have hsig := find?_some hp
  rw [← of_decide_eq_true hsig]
  exact mem_of_find?_eq_some hp

lemma isDeposit_treasury (tx : ParsedTransaction) (hmem : signature ∈ s.signatures) :
    (s.treasury signature' tx).IsDeposit cfg signature dep ↔ s.IsDeposit cfg signature dep := by
  rw [IsDeposit, IsDeposit, transaction_treasury tx hmem]

lemma Settled.treasury (h : s.Settled cfg signature) (tx : ParsedTransaction)
    (hmem : signature ∈ s.signatures) : (s.treasury signature' tx).Settled cfg signature :=
  fun dep hdep => h dep ((isDeposit_treasury tx hmem).1 hdep)

lemma Kept.setPc (h : Kept cfg s r) (horder : r.processed ++ pc.queue <+: s.signatures)
    (hpc : s.PcKept cfg pc) :
    Kept cfg (s.setRelayer { r with pc }) { r with pc } :=
  ⟨horder, h.settled, hpc, h.window⟩

lemma Kept.sleep (h : Kept cfg s r) :
    Kept cfg (s.setRelayer { r with pc := .sleeping }) { r with pc := .sleeping } := by
  refine h.setPc ?_ trivial
  show r.processed ++ [] <+: s.signatures
  rw [append_nil]
  exact (prefix_append _ _).trans h.order

lemma Kept.submit (h : Kept cfg s r) (hlt : ∀ i ∈ s.landed, i < s.submitted.length)
    (horder : r.processed ++ pc.queue <+: s.signatures)
    (hpc : (s.submit signature dep).PcKept cfg pc) :
    Kept cfg ((s.submit signature dep).setRelayer { r with pc }) { r with pc } :=
  ⟨horder, fun signature' hmem => (h.settled signature' hmem).submit hlt signature dep, hpc, h.window⟩

lemma FileKept.submit (h : FileKept cfg s) (signature : ℕ) (dep : Deposit) :
    FileKept cfg (s.submit signature dep) := by
  refine ⟨h.nodup, h.exact, fun i hi => ?_, h.order, fun signature' hmem =>
    (h.settled signature' hmem).submit h.landed signature dep⟩
  rw [Peg.submit, length_append]
  exact Nat.lt_add_right _ (h.landed i hi)

lemma Kept.parsedTransaction {rest : List ℕ} {found : Bool} (hf : FileKept cfg s)
    (h : Kept cfg s ⟨processed, .lookingUp signature rest⟩)
    (hr : s.relayer = some ⟨processed, .lookingUp signature rest⟩)
    (hG : s.DepositsKept cfg (.parsedTransaction found))
    (hs : relayerStep cfg s ⟨processed, .lookingUp signature rest⟩ (.parsedTransaction found)
      = .ok s') : ∃ r', s' = s.setRelayer r' ∧ Kept cfg s' r' := by
  simp only [relayerStep] at hs
  have hfound : ∀ tx, s.transaction signature = some tx → found = true ∨ creditable cfg tx = none := by
    intro tx htx
    cases found with
    | true => exact .inl rfl
    | false =>
      rw [DepositsKept, hr] at hG
      exact .inr (hG tx htx)
  split at hs <;> rename_i hparse <;> cases hs
  · exact ⟨_, rfl, h.sleep⟩
  · -- no deposit, or a lookup without result
    refine ⟨_, rfl, h.setPc h.order ?_⟩
    rintro dep ⟨tx, htx, hdep⟩
    rcases hfound tx htx with rfl | hnone
    · rw [if_pos rfl, htx, parseDeposit_iff.2 ⟨hdep, (hf.exact _ _ _ htx hdep).2⟩] at hparse
      cases hparse
    · rw [hnone] at hdep
      cases hdep
  · refine ⟨_, rfl, h.setPc h.order ?_⟩
    cases found with
    | false => cases hparse
    | true =>
      rcases htx : s.transaction signature with _ | tx
      · rw [htx] at hparse
        cases hparse
      · rw [htx] at hparse
        exact ⟨tx, htx, (parseDeposit_iff.1 hparse).1⟩

lemma kept_relayerStep {input : PegInput} (hf : FileKept cfg s) (h : Kept cfg s r)
    (hr : s.relayer = some r) (hG : s.DepositsKept cfg input)
    (hs : relayerStep cfg s r input = .ok s') :
    FileKept cfg s' ∧ ∃ r', s'.relayer = some r' ∧ Kept cfg s' r' := by
  obtain ⟨processed, pc⟩ := r
  have horder : processed ++ pc.queue <+: s.signatures := h.order
  cases pc with
  | sleeping =>
    cases input <;> cases hs
    exact ⟨{ hf with }, _, rfl, h.setPc h.order trivial⟩
  | polling =>
    cases input <;> cases hs
    · exact ⟨{ hf with }, _, rfl, h.sleep⟩
    · have hprefix : processed <+: s.signatures := (prefix_append _ _).trans horder
      obtain ⟨l, l', hlatest, hl, hl'⟩ := latestSignatures_eq hprefix h.window
      rw [hlatest, nextSignature_append hl]
      have hall : processed ++ l' <+: s.signatures := ⟨[], (append_nil _).trans hl'⟩
      have hnext := @nextSignature_order cfg _ _ _ hf.nodup hall
      refine ⟨{ hf with }, _, rfl, h.setPc ?_ (hnext.2 s)⟩
      rw [hnext.1]
      exact hall
  | lookingUp signature rest =>
    cases input with
    | rpcFailed =>
      cases hs
      exact ⟨{ hf with }, _, rfl, h.sleep⟩
    | parsedTransaction found =>
      obtain ⟨r', rfl, hk⟩ := h.parsedTransaction hf hr hG hs
      exact ⟨{ hf with }, r', rfl, hk⟩
    | _ => cases hs
  | releasing signature dep rest =>
    cases input <;> cases hs
    · exact ⟨{ hf with }, _, rfl, h.sleep⟩
    · exact ⟨{ hf with }, _, rfl, h.setPc h.order h.pc⟩
  | sending signature dep rest =>
    have hsubmit := hf.submit signature dep
    cases input with
    | sendFailed submitted =>
      cases submitted <;> cases hs
      · exact ⟨{ hf with }, _, rfl, h.sleep⟩
      · refine ⟨{ hsubmit with }, _, rfl,
          h.submit hf.landed ?_ trivial⟩
        exact h.sleep.order
    | sent =>
      cases hs
      refine ⟨{ hsubmit with }, _, rfl,
        h.submit hf.landed h.order ⟨dep, h.pc, ?_⟩⟩
      exact getElem?_concat_length
    | _ => cases hs
  | confirming signature i rest =>
    cases input with
    | confirmFailed =>
      cases hs
      exact ⟨{ hf with }, _, rfl, h.sleep⟩
    | confirmed err =>
      cases err with
      | true => exact hG.elim
      | false =>
        simp only [relayerStep] at hs
        rw [if_neg Bool.false_ne_true] at hs
        split_ifs at hs with hlanded
        cases hs
        refine ⟨{ hf with }, _, rfl, h.setPc h.order fun dep hdep => ?_⟩
        obtain ⟨dep', hdep', ht⟩ := h.pc
        obtain ⟨tx, htx, hcred⟩ := hdep
        obtain ⟨tx', htx', hcred'⟩ := hdep'
        cases htx.symm.trans htx'
        cases hcred'.symm.trans hcred
        rw [(hf.exact signature tx dep htx hcred).1] at ht
        exact ⟨i, hlanded, ht⟩
    | _ => cases hs
  | marking signature rest =>
    cases input <;> cases hs
    refine ⟨{ hf with }, _, rfl, ?_, forall_mem_append.2 ⟨h.settled, forall_mem_singleton.2 h.pc⟩,
      trivial, ?_⟩
    · rw [append_assoc]
      exact horder
    · have hwindow : s.signatures.length ≤ processed.length + 25 := h.window
      show s.signatures.length ≤ (processed ++ [signature]).length + 25
      rw [length_append]
      omega
  | saving rest =>
    cases input <;> cases hs
    · refine ⟨⟨hf.nodup, hf.exact, hf.landed, nil_prefix, forall_mem_nil _⟩, _, hr, ?_⟩
      exact ⟨h.order, h.settled, trivial, h.window⟩
    · have hnext := @nextSignature_order cfg s processed rest hf.nodup horder
      have hprefix : processed <+: s.signatures := (prefix_append _ _).trans horder
      refine ⟨⟨hf.nodup, hf.exact, hf.landed, hprefix, h.settled⟩, _, rfl, ?_, h.settled,
        hnext.2 _, h.window⟩
      rw [hnext.1]
      exact horder
    · exact ⟨{ hf with }, _, rfl, h.sleep⟩

lemma PcKept.treasury (h : s.PcKept cfg pc) (tx : ParsedTransaction)
    (hin : ∀ signature ∈ pc.queue, signature ∈ s.signatures) :
    (s.treasury signature' tx).PcKept cfg pc := by
  cases pc with
  | lookingUp | saving | polling | sleeping => trivial
  | releasing | sending => exact (isDeposit_treasury tx (hin _ mem_cons_self)).2 h
  | marking => exact Settled.treasury h tx (hin _ mem_cons_self)
  | confirming =>
    obtain ⟨dep, hdep, ht⟩ := h
    exact ⟨dep, (isDeposit_treasury tx (hin _ mem_cons_self)).2 hdep, ht⟩

lemma PcKept.land (h : s.PcKept cfg pc) (i : ℕ) :
    PcKept cfg { s with landed := s.landed ++ [i] } pc := by
  cases pc with
  | marking => exact Settled.land h i
  | _ => exact h

lemma DepositInv.treasury {tx : ParsedTransaction} (h : DepositInv cfg s)
    (hG : s.DepositsKept cfg (.treasury signature tx)) (hmem : signature ∉ s.signatures) :
    DepositInv cfg (s.treasury signature tx) := by
  have happend : (s.treasury signature tx).signatures = s.signatures ++ [signature] := map_append
  have hgrow : ∀ {l}, l <+: s.signatures → l <+: (s.treasury signature tx).signatures := by
    intro l hl
    rw [happend]
    exact hl.trans (prefix_append _ _)
  refine ⟨⟨?_, fun signature' tx' dep htx' hcred => ?_, h.landed, hgrow h.order, fun signature' hproc => ?_⟩,
    fun r (hr : s.relayer = some r) => ?_⟩
  · rw [happend, ← concat_eq_append]
    exact (nodup_concat _ _).2 ⟨hmem, h.nodup⟩
  · by_cases hold : signature' ∈ s.signatures
    · exact h.exact signature' tx' dep (transaction_treasury tx hold ▸ htx') hcred
    · rcases mem_append.1 (mem_history htx') with hin | hin
      · exact absurd (mem_map_of_mem hin) hold
      · cases mem_singleton.1 hin
        exact hG.1 dep hcred
  · exact (h.settled signature' hproc).treasury tx (h.order.subset hproc)
  · have hk := h.kept r hr
    have hin : ∀ signature' ∈ r.processed ++ r.pc.queue, signature' ∈ s.signatures :=
      fun _ hq => hk.order.subset hq
    refine ⟨hgrow hk.order, fun signature' hproc => ?_, ?_, ?_⟩
    · exact (hk.settled signature' hproc).treasury tx (hin _ (mem_append_left _ hproc))
    · exact hk.pc.treasury tx fun _ hq => hin _ (mem_append_right _ hq)
    · have hprocessed : s.processed = r.processed := by
        rw [processed, hr]
      have hprefix := (prefix_append _ _).trans hk.order
      have hlen := length_waiting h.nodup (hprocessed ▸ hprefix)
      have hwaiting := hG.2.resolve_left (hr ▸ nofun)
      rw [hprocessed] at hlen
      rw [happend, length_append, length_singleton]
      omega

lemma DepositInv.land {i : ℕ} {t : NativeTransfer} (h : DepositInv cfg s)
    (ht : s.submitted[i]? = some t) : DepositInv cfg { s with landed := s.landed ++ [i] } := by
  have hlanded : ∀ j ∈ s.landed ++ [i], j < s.submitted.length :=
    forall_mem_append.2 ⟨h.landed, forall_mem_singleton.2 (List.getElem?_eq_some_iff.1 ht).1⟩
  refine ⟨⟨h.nodup, h.exact, hlanded, h.order, fun signature hmem =>
    (h.settled signature hmem).land i⟩, fun r hr => ?_⟩
  have hk := h.kept r hr
  exact ⟨hk.order, fun signature hmem => (hk.settled signature hmem).land i, hk.pc.land i, hk.window⟩

lemma DepositInv.step {input : PegInput} {o : List NativeTransfer} (h : DepositInv cfg s)
    (hG : s.DepositsKept cfg input) (hs : step cfg s input = .ok (s', o)) : DepositInv cfg s' := by
  obtain ⟨signature, tx, rfl, hmem, rfl, -⟩ | ⟨i, t, rfl, ht, -, rfl, -⟩ | ⟨rfl, hnone, rfl, -⟩
    | ⟨rfl, -, rfl, -⟩ | ⟨r, hr, hstep, -⟩ := step_cases hs
  · exact h.treasury hG hmem
  · exact h.land ht
  · refine ⟨{ h with }, fun r hr => ?_⟩
    cases hr
    have hprocessed : s.processed = s.file.loadState := by
      rw [processed, hnone]
    have hlen := length_waiting h.nodup (hprocessed ▸ h.order)
    have hwaiting : s.waiting.length ≤ 25 := hG
    rw [hprocessed] at hlen
    refine ⟨?_, h.settled, trivial, ?_⟩
    · show s.file.loadState ++ [] <+: s.signatures
      rw [append_nil]
      exact h.order
    · show s.signatures.length ≤ s.file.loadState.length + 25
      omega
  · exact ⟨{ h with }, nofun⟩
  · obtain ⟨hf, r', hr', hk⟩ := kept_relayerStep h.toFileKept (h.kept r hr) hr hG hstep
    refine ⟨hf, fun r'' hr'' => ?_⟩
    cases hr'.symm.trans hr''
    exact hk

/-- In a run where the first memo of a deposit has the address, every deposit is found, no transfer
fails, amounts are doubles and at most 25 signatures wait, what is processed is settled, and the next poll sees every other deposit. -/
theorem deposits_kept {inputs : List PegInput} {out : List NativeTransfer}
    (hG : Guarded (step cfg) (DepositsKept cfg) {} inputs)
    (hrun : run (step cfg) {} inputs = .ok (s, out)) (hr : s.relayer = some r) :
    (∀ signature ∈ r.processed, s.Settled cfg signature)
      ∧ ∀ signature dep, s.IsDeposit cfg signature dep → signature ∉ r.processed →
        signature ∈ s.latestSignatures := by
  have h : DepositInv cfg s := run_induction (P := fun _ _ s => DepositInv cfg s)
    depositInv_new (fun _ _ _ _ _ _ h hG hs => h.step hG hs) hG hrun
  have hk := h.kept r hr
  refine ⟨hk.settled, fun signature dep ⟨tx, htx, _⟩ hmem => ?_⟩
  have hprefix := (prefix_append _ _).trans hk.order
  obtain ⟨l, l', hlatest, -, hl'⟩ := latestSignatures_eq hprefix hk.window
  have hin : signature ∈ s.signatures := mem_map_of_mem (mem_history htx)
  rw [← hl'] at hin
  rw [hlatest]
  exact mem_append_right _ ((mem_append.1 hin).resolve_left hmem)

theorem deposits_kept_restart : ∃ s out r, run (step pegConfig) {} settledInputs = .ok (s, out)
    ∧ s.relayer = some r ∧ r.processed = [1] ∧ s.Settled pegConfig 1 := by
  obtain ⟨⟨s, out⟩, hrun, hproc⟩ := Except.exists_of_any (p := fun res =>
    res.1.relayer.map (·.processed) = some [1]) (x := run (step pegConfig) {} settledInputs)
    (by decide +kernel)
  obtain ⟨r, hr, hproc⟩ := Option.map_eq_some_iff.1 hproc
  have hkept := deposits_kept (by decide +kernel) hrun hr
  exact ⟨s, out, r, hrun, hr, hproc, hkept.1 1 (hproc ▸ mem_cons_self)⟩

/-- A deposit is not found when it is looked up, and is marked as processed. -/
theorem deposit_lost : ∃ s out r dep, run (step pegConfig) {} [.treasury 1 depositTx, .restart,
      .signatures, .parsedTransaction false, .mark, .written] = .ok (s, out)
    ∧ s.relayer = some r ∧ 1 ∈ r.processed ∧ s.IsDeposit pegConfig 1 dep ∧ s.landed = [] := by
  obtain ⟨⟨s, out⟩, hrun, hproc, hdep, hlanded⟩ := Except.exists_of_any (p := fun res =>
    res.1.relayer.map (·.processed) = some [1]
      ∧ (res.1.transaction 1).bind (creditable pegConfig) = some ⟨5000, 7⟩ ∧ res.1.landed = [])
    (x := run (step pegConfig) {} [.treasury 1 depositTx, .restart, .signatures,
      .parsedTransaction false, .mark, .written]) (by decide +kernel)
  obtain ⟨r, hr, hproc⟩ := Option.map_eq_some_iff.1 hproc
  obtain ⟨tx, htx, hcred⟩ := Option.bind_eq_some_iff.1 hdep
  exact ⟨s, out, r, ⟨5000, 7⟩, hrun, hr, hproc ▸ mem_cons_self, ⟨tx, htx, hcred⟩, hlanded⟩

variable {tx : ParsedTransaction}

/-- The significand of a double has 53 bits. -/
lemma toNumber_eq_self_iff (n : ℕ) : toNumber n = n ↔ 2 ^ (n.log2 - 52) ∣ n := by
  unfold toNumber
  split_ifs with hsmall
  · have hlog : n.log2 - 52 = 0 := by
      rcases Nat.eq_zero_or_pos n with rfl | hpos
      · rfl
      · have := (Nat.log2_lt (Nat.ne_of_gt hpos)).2 hsmall
        omega
    simp [hlog]
  · dsimp only
    refine ⟨fun h => ?_, fun h => ?_⟩
    · split_ifs at h <;> exact ⟨_, h.symm.trans (Nat.mul_comm _ _)⟩
    · rw [if_neg (by omega), Nat.div_mul_cancel h]

/-- A transfer has the amount of its deposit just if that amount is a double. -/
theorem transfer_exact_iff (h : cfg.parseDeposit (some tx) = .ok (some dep)) (s : Peg) (signature : ℕ) :
    0 < received cfg tx ∧ ((s.submit signature dep).submitted = s.submitted
        ++ [⟨signature, dep.dest, received cfg tx * 10 ^ (9 - cfg.tokenDecimals)⟩]
      ↔ 2 ^ ((received cfg tx * 10 ^ (9 - cfg.tokenDecimals)).log2 - 52)
        ∣ received cfg tx * 10 ^ (9 - cfg.tokenDecimals)) := by
  obtain ⟨hpos, hlamports⟩ := creditable_lamports (parseDeposit_iff.1 h).1
  rw [PegConfig.scale] at hlamports
  refine ⟨hpos, ?_⟩
  rw [← toNumber_eq_self_iff, ← hlamports]
  simp [submit]

def depositOf (amount : ℕ) : ParsedTransaction :=
  { depositTx with txMeta := some { postTokenBalances := some [⟨0, "M", amount⟩] } }

theorem transfer_exact_small : pegConfig.parseDeposit (some (depositOf 5)) = .ok (some ⟨5000, 7⟩)
    ∧ (submit {} 1 ⟨5000, 7⟩).submitted = [⟨1, 7, 5000⟩] :=
  ⟨rfl, (@transfer_exact_iff pegConfig ⟨5000, 7⟩ (depositOf 5) rfl {} 1).2.2 (by decide)⟩

/-- A transfer of 8 lamports less than was deposited. -/
theorem transfer_rounded :
    pegConfig.parseDeposit (some (depositOf 72057594037929)) = .ok (some ⟨72057594037929000, 7⟩)
    ∧ 72057594037929 ≤ 10 ^ 15
    ∧ (submit {} 1 ⟨72057594037929000, 7⟩).submitted = [⟨1, 7, 72057594037928992⟩] := by
  decide +kernel

end Peg

end BlackBull
