import BlackBull.Peg.Relayer

/-!
# Releases

A deposit is released again where the relayer does not know that it was: an attempt was given up
that lands after all, or the state file does not say so.
-/

namespace BlackBull

open List

/-- The signature at hand. -/
def RelayerPc.current : RelayerPc → Option ℕ
  | lookingUp signature _ | releasing signature _ _ | sending signature _ _
  | confirming signature _ _ | marking signature _ => some signature
  | polling | saving _ | sleeping => none

/-- The transfer for `signature` that may have landed though `signature` is not processed. -/
def RelayerPc.Holds (signature transfer : ℕ) : RelayerPc → Prop
  | confirming signature' transfer' _ => signature' = signature ∧ transfer' = transfer
  | marking signature' _ => signature' = signature
  | _ => False

lemma nextSignature_cases (processed l : List ℕ) :
    nextSignature processed l = .sleeping
      ∨ ∃ signature rest, nextSignature processed l = .lookingUp signature rest
        ∧ signature ∉ processed := by
  induction l with
  | nil => exact .inl rfl
  | cons signature rest ih =>
    unfold nextSignature
    split_ifs with hmem
    · exact ih
    · exact .inr ⟨signature, rest, rfl, hmem⟩

namespace Peg

variable {cfg : PegConfig} {s s' : Peg} {r : Relayer} {out : List NativeTransfer} {pc : RelayerPc}
  {input : PegInput}

/-- A transfer lands only while the relayer awaits it, its confirmation does not fail after it has
landed, and the relayer is started with a state file that has all deposits whose transfers have
landed. -/
def ReleasesSettle (s : Peg) : PegInput → Prop
  | .land transfer => s.Awaits transfer
  | .confirmFailed => ∀ i ∈ s.landed, ¬ s.Awaits i
  | .restart => ∀ i ∈ s.landed, ∀ t ∈ s.submitted[i]?, t.deposit ∈ s.file.loadState
  | _ => True

instance (s : Peg) (input : PegInput) : Decidable (s.ReleasesSettle input) := by
  unfold ReleasesSettle
  split <;> infer_instance

/-- A deposit whose transfer landed is processed or awaited. -/
structure Knows (s : Peg) (r : Relayer) : Prop where
  fresh : ∀ signature, r.pc.current = some signature → signature ∉ r.processed
  awaited : ∀ signature i rest, r.pc = .confirming signature i rest →
    ∃ t, s.submitted[i]? = some t ∧ t.deposit = signature
  landed : ∀ i ∈ s.landed, ∀ t, s.submitted[i]? = some t →
    t.deposit ∈ r.processed ∨ r.pc.Holds t.deposit i

/-- The invariant: `out` are the transfers that landed, one for a deposit. -/
structure ReleaseInv (s : Peg) (out : List NativeTransfer) : Prop where
  landed : ∀ i ∈ s.landed, i < s.submitted.length
  out_mem : ∀ t ∈ out, ∃ i ∈ s.landed, s.submitted[i]? = some t
  nodup : (out.map (·.deposit)).Nodup
  knows : ∀ r, s.relayer = some r → Knows s r

lemma releaseInv_new : ReleaseInv {} [] := ⟨nofun, nofun, nodup_nil, nofun⟩

lemma Knows.setPc (h : Knows s r) (hheld : ∀ i ∈ s.landed, ∀ signature, ¬ r.pc.Holds signature i)
    (hfresh : ∀ signature, pc.current = some signature → signature ∉ r.processed)
    (hawaited : ∀ signature i rest, pc ≠ .confirming signature i rest) :
    Knows (s.setRelayer { r with pc }) { r with pc } :=
  ⟨hfresh, fun signature i rest heq => absurd heq (hawaited signature i rest),
    fun i hi t ht => .inl ((h.landed i hi t ht).resolve_right (hheld i hi _))⟩

lemma Knows.submit {signature : ℕ} {dep : Deposit} (h : Knows s r)
    (hlt : ∀ i ∈ s.landed, i < s.submitted.length)
    (hheld : ∀ i ∈ s.landed, ∀ signature, ¬ r.pc.Holds signature i)
    (hfresh : ∀ signature, pc.current = some signature → signature ∉ r.processed)
    (hawaited : ∀ signature' i rest, pc = .confirming signature' i rest →
      signature' = signature ∧ i = s.submitted.length) :
    Knows ((s.submit signature dep).setRelayer { r with pc }) { r with pc } := by
  refine ⟨hfresh, fun signature' i rest heq => ?_, fun i hi t ht => .inl ?_⟩
  · obtain ⟨rfl, rfl⟩ := hawaited signature' i rest heq
    exact ⟨_, getElem?_concat_length, rfl⟩
  · have hget : s.submitted[i]? = some t := by
      simpa only [setRelayer, Peg.submit, getElem?_append_left (hlt i hi)] using ht
    exact (h.landed i hi t hget).resolve_right (hheld i hi _)

lemma knows_relayerStep (h : Knows s r) (hlt : ∀ i ∈ s.landed, i < s.submitted.length)
    (hr : s.relayer = some r) (hG : s.ReleasesSettle input)
    (hs : relayerStep cfg s r input = .ok s') :
    s'.landed = s.landed ∧ (∃ ts, s'.submitted = s.submitted ++ ts)
      ∧ ∃ r', s'.relayer = some r' ∧ Knows s' r' := by
  have hsame : ∃ ts, s.submitted = s.submitted ++ ts := ⟨[], (append_nil _).symm⟩
  obtain ⟨processed, pc⟩ := r
  have hnext : ∀ l, (∀ signature, (nextSignature processed l).current = some signature →
      signature ∉ processed) ∧ ∀ signature i rest,
      nextSignature processed l ≠ .confirming signature i rest := by
    intro l
    rcases nextSignature_cases processed l with heq | ⟨signature, rest, heq, hmem⟩ <;> rw [heq]
    · exact ⟨nofun, nofun⟩
    · refine ⟨fun signature' h' => ?_, nofun⟩
      cases h'
      exact hmem
  have hcurrent := h.fresh
  cases pc with
  | sleeping =>
    cases input <;> cases hs
    exact ⟨rfl, hsame, _, rfl, h.setPc nofun nofun nofun⟩
  | polling =>
    cases input <;> cases hs
    · exact ⟨rfl, hsame, _, rfl, h.setPc nofun nofun nofun⟩
    · exact ⟨rfl, hsame, _, rfl, h.setPc nofun (hnext _).1 (hnext _).2⟩
  | lookingUp signature rest =>
    cases input with
    | rpcFailed =>
      cases hs
      exact ⟨rfl, hsame, _, rfl, h.setPc nofun nofun nofun⟩
    | parsedTransaction found =>
      simp only [relayerStep] at hs
      split at hs <;> cases hs
      · exact ⟨rfl, hsame, _, rfl, h.setPc nofun nofun nofun⟩
      · exact ⟨rfl, hsame, _, rfl, h.setPc nofun hcurrent nofun⟩
      · exact ⟨rfl, hsame, _, rfl, h.setPc nofun hcurrent nofun⟩
    | _ => cases hs
  | releasing signature dep rest =>
    cases input <;> cases hs
    · exact ⟨rfl, hsame, _, rfl, h.setPc nofun nofun nofun⟩
    · exact ⟨rfl, hsame, _, rfl, h.setPc nofun hcurrent nofun⟩
  | sending signature dep rest =>
    cases input with
    | sendFailed submitted =>
      cases submitted <;> cases hs
      · exact ⟨rfl, hsame, _, rfl, h.setPc nofun nofun nofun⟩
      · exact ⟨rfl, ⟨_, rfl⟩, _, rfl, h.submit hlt nofun nofun nofun⟩
    | sent =>
      cases hs
      refine ⟨rfl, ⟨_, rfl⟩, _, rfl, h.submit hlt nofun hcurrent fun signature' i rest heq => ?_⟩
      cases heq
      exact ⟨rfl, rfl⟩
    | _ => cases hs
  | confirming signature i rest =>
    cases input with
    | confirmFailed =>
      cases hs
      refine ⟨rfl, hsame, _, rfl, h.setPc (fun j hj signature' hheld => hG j hj ?_) nofun nofun⟩
      rw [Awaits, hr]
      exact hheld.2
    | confirmed err =>
      -- what was awaited is held until it is marked
      have hmark : ∀ failed, Knows ({ s with failed }.setRelayer ⟨processed, .marking signature rest⟩)
          ⟨processed, .marking signature rest⟩ := by
        refine fun failed => ⟨hcurrent, nofun, fun j hj t ht => ?_⟩
        exact (h.landed j hj t ht).imp_right fun hheld => hheld.1
      simp only [relayerStep] at hs
      split_ifs at hs <;> cases hs
      · exact ⟨rfl, hsame, _, rfl, hmark _⟩
      · exact ⟨rfl, hsame, _, rfl, hmark s.failed⟩
    | _ => cases hs
  | marking signature rest =>
    cases input <;> cases hs
    refine ⟨rfl, hsame, _, rfl, nofun, nofun, fun j hj t ht => .inl ?_⟩
    rw [mem_append, mem_singleton]
    exact (h.landed j hj t ht).imp_right fun hheld => hheld.symm
  | saving rest =>
    cases input <;> cases hs
    · exact ⟨rfl, hsame, _, hr, h.fresh, h.awaited, h.landed⟩
    · exact ⟨rfl, hsame, _, rfl, { h.setPc nofun (hnext rest).1 (hnext rest).2 with }⟩
    · exact ⟨rfl, hsame, _, rfl, h.setPc nofun nofun nofun⟩

lemma step_cases {o : List NativeTransfer} (hs : step cfg s input = .ok (s', o)) :
    (∃ signature tx, input = .treasury signature tx ∧ signature ∉ s.signatures
        ∧ s' = { s with history := s.history ++ [(signature, tx)] } ∧ o = [])
      ∨ (∃ i t, input = .land i ∧ s.submitted[i]? = some t ∧ i ∉ s.landed
        ∧ s' = { s with landed := s.landed ++ [i] } ∧ o = [t])
      ∨ (input = .restart ∧ s.relayer = none
        ∧ s' = s.setRelayer ⟨s.file.loadState, .polling⟩ ∧ o = [])
      ∨ (input = .crash ∧ s.relayer ≠ none ∧ s' = { s with relayer := none } ∧ o = [])
      ∨ ∃ r, s.relayer = some r ∧ relayerStep cfg s r input = .ok s' ∧ o = [] := by
  cases input with
  | treasury signature tx =>
    simp only [step] at hs
    split_ifs at hs with hmem
    cases hs
    exact .inl ⟨signature, tx, rfl, hmem, rfl, rfl⟩
  | land i =>
    simp only [step] at hs
    split at hs
    · cases hs
    · split_ifs at hs with hmem
      cases hs
      exact .inr (.inl ⟨i, _, rfl, ‹_›, fun h => hmem (.inl h), rfl, rfl⟩)
  | restart =>
    simp only [step] at hs
    split at hs <;> cases hs
    exact .inr (.inr (.inl ⟨rfl, ‹_›, rfl, rfl⟩))
  | crash =>
    simp only [step] at hs
    split at hs <;> cases hs
    have hr : s.relayer = some _ := ‹_›
    exact .inr (.inr (.inr (.inl ⟨rfl, hr ▸ nofun, rfl, rfl⟩)))
  | _ =>
    simp only [step] at hs
    split at hs
    · cases hs
    · obtain ⟨s1, hs1, heq⟩ := Except.map_eq_ok.1 hs
      cases heq
      exact .inr (.inr (.inr (.inr ⟨_, ‹_›, hs1, rfl⟩)))

lemma Awaits.confirming {i : ℕ} (h : s.Awaits i) :
    ∃ r signature rest, s.relayer = some r ∧ r.pc = .confirming signature i rest := by
  unfold Awaits at h
  split at h
  · subst h
    exact ⟨_, _, _, ‹_›, rfl⟩
  · exact h.elim

lemma ReleaseInv.land {i : ℕ} {t : NativeTransfer} (h : ReleaseInv s out) (hawaits : s.Awaits i)
    (ht : s.submitted[i]? = some t) (hi : i ∉ s.landed) :
    ReleaseInv { s with landed := s.landed ++ [i] } (out ++ [t]) := by
  obtain ⟨r, signature, rest, hr, hpc⟩ := hawaits.confirming
  have hk := h.knows r hr
  obtain ⟨t', ht', rfl⟩ := hk.awaited signature i rest hpc
  obtain rfl : t = t' := Option.some.inj (ht.symm.trans ht')
  have hfresh : t.deposit ∉ r.processed := hk.fresh _ (by rw [hpc]; rfl)
  refine ⟨forall_mem_append.2 ⟨h.landed, forall_mem_singleton.2 ?_⟩, forall_mem_append.2
    ⟨fun t' ht' => ?_, forall_mem_singleton.2 ⟨i, mem_concat_self, ht⟩⟩, ?_, fun r' hr' => ?_⟩
  · exact (List.getElem?_eq_some_iff.1 ht).1
  · obtain ⟨j, hj, hjt⟩ := h.out_mem t' ht'
    exact ⟨j, mem_append_left _ hj, hjt⟩
  · rw [map_append, map_singleton, ← concat_eq_append]
    refine (nodup_concat _ _).2 ⟨fun hmem => ?_, h.nodup⟩
    obtain ⟨t', ht', heq⟩ := mem_map.1 hmem
    obtain ⟨j, hj, hjt⟩ := h.out_mem t' ht'
    rcases hk.landed j hj t' hjt with hproc | hheld
    · exact hfresh (heq ▸ hproc)
    · rw [hpc] at hheld
      exact hi (hheld.2 ▸ hj)
  · obtain rfl : r = r' := Option.some.inj (hr.symm.trans hr')
    refine ⟨hk.fresh, hk.awaited,
      forall_mem_append.2 ⟨hk.landed, forall_mem_singleton.2 fun t' ht' => ?_⟩⟩
    obtain rfl : t = t' := Option.some.inj (ht.symm.trans ht')
    rw [hpc]
    exact .inr ⟨rfl, rfl⟩

lemma ReleaseInv.step {o : List NativeTransfer} (h : ReleaseInv s out) (hG : s.ReleasesSettle input)
    (hs : step cfg s input = .ok (s', o)) :
    ReleaseInv s' (out ++ o) := by
  obtain ⟨_, _, rfl, -, rfl, rfl⟩ | ⟨i, t, rfl, ht, hi, rfl, rfl⟩ | ⟨rfl, -, rfl, rfl⟩
    | ⟨rfl, -, rfl, rfl⟩ | ⟨r, hr, hstep, rfl⟩ := step_cases hs
  · rw [append_nil]
    exact ⟨h.landed, h.out_mem, h.nodup, fun r hr => ⟨(h.knows r hr).1, (h.knows r hr).2,
      (h.knows r hr).3⟩⟩
  · exact h.land hG ht hi
  · rw [append_nil]
    refine ⟨h.landed, h.out_mem, h.nodup, fun r hr => ?_⟩
    cases hr
    exact ⟨nofun, nofun, fun i hi t ht => .inl (hG i hi t ht)⟩
  · rw [append_nil]
    exact ⟨h.landed, h.out_mem, h.nodup, nofun⟩
  · obtain ⟨hlanded, ⟨ts, hts⟩, r', hr', hk⟩ := knows_relayerStep (h.knows r hr) h.landed hr hG hstep
    rw [append_nil]
    refine ⟨fun i hi => ?_, fun t ht => ?_, h.nodup, fun r'' hr'' => ?_⟩
    · rw [hlanded] at hi
      rw [hts, length_append]
      exact Nat.lt_add_right _ (h.landed i hi)
    · obtain ⟨i, hi, hit⟩ := h.out_mem t ht
      refine ⟨i, hlanded ▸ hi, ?_⟩
      rw [hts, getElem?_append_left (h.landed i hi), hit]
    · cases hr'.symm.trans hr''
      exact hk

/-- In a run where no release that was given up lands and no release is forgotten, at most one transfer
lands for each deposit. -/
theorem released_once {inputs : List PegInput}
    (hG : Guarded (step cfg) ReleasesSettle {} inputs)
    (hrun : run (step cfg) {} inputs = .ok (s, out)) (signature : ℕ) :
    out.countP (·.deposit = signature) ≤ 1 := by
  have h : ReleaseInv s out := run_induction (P := fun _ out s => ReleaseInv s out)
    releaseInv_new (fun _ _ _ _ _ _ h hG hs => h.step hG hs) hG hrun
  have hcount := nodup_iff_count_le_one.1 h.nodup signature
  rw [count, countP_map] at hcount
  exact hcount

def pegConfig : PegConfig where
  treasuryAta := "T"
  mint := "M"
  publicKey s := if s = "A" then some 7 else none

def depositTx : ParsedTransaction where
  txMeta := some { postTokenBalances := some [⟨0, "M", 5⟩] }
  accountKeys := ["T"]
  instructions := [⟨some "spl-memo", some (.text "A")⟩]

def releaseInputs : List PegInput := [.signatures, .parsedTransaction true, .blockhash, .sent]

def settledInputs : List PegInput := [.treasury 1 depositTx, .restart] ++ releaseInputs
  ++ [.land 0, .confirmed false, .mark, .written, .crash, .restart, .signatures, .wake, .signatures]

theorem released_once_restart : ∃ s out, run (step pegConfig) {} settledInputs = .ok (s, out)
    ∧ out.map (·.deposit) = [1] ∧ out.countP (·.deposit = 1) ≤ 1 := by
  obtain ⟨⟨s, out⟩, hrun, hout⟩ := Except.exists_of_any (p := fun r =>
    r.2.map (·.deposit) = [1]) (x := run (step pegConfig) {} settledInputs) (by decide +kernel)
  exact ⟨s, out, hrun, hout, released_once (by decide +kernel) hrun 1⟩

/-- The process stops after a transfer was submitted, and releases the deposit again. -/
theorem released_twice : ∃ r, run (step pegConfig) {} ([.treasury 1 depositTx, .restart]
      ++ releaseInputs ++ [.land 0, .crash, .restart] ++ releaseInputs ++ [.land 1]) = .ok r
    ∧ r.2.countP (·.deposit = 1) = 2 :=
  Except.exists_of_any (by decide +kernel)

end Peg

end BlackBull
