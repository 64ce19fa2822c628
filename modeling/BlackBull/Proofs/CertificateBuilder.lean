import BlackBull.Lib.Run
import BlackBull.Votor.CertificateBuilder

/-!
# What the builder aggregates

The messages and the ranks a certificate builder has aggregated are those it was given. It refuses a
rank that is too great or set already, and builds a certificate where no rank is in both bitmaps.
-/

namespace BlackBull

open List BlackBull.Except SignerStore

variable {l : List VoteMessage} {ty₀ ty₁ : VoteType} {certType : CertificateType}
  {msgs : List VoteMessage} {b b' : BuilderType} {cert : Certificate}

lemma trySetBitmap_ok {bitmap bitmap' : List ℕ} {rank : ℕ}
    (h : trySetBitmap bitmap rank = .ok bitmap') :
    rank < maximumValidators ∧ bitmap' = bitmap ++ [rank] := by
  unfold trySetBitmap at h
  split_ifs at h with hlt
  cases h
  exact ⟨Nat.not_le.1 hlt, rfl⟩

lemma trySetBitmap_eq {bitmap : List ℕ} {rank : ℕ} (hlt : rank < maximumValidators)
    (hnew : rank ∉ bitmap) : trySetBitmap bitmap rank = .ok (bitmap ++ [rank]) := by
  unfold trySetBitmap
  rw [if_neg (Nat.not_le.2 hlt), if_neg hnew]

lemma CertificateType.limitsAndVoteTypes_nodup (certType : CertificateType) :
    certType.limitsAndVoteTypes.2.Nodup := by
  cases certType <;> simp [limitsAndVoteTypes]

lemma cutLength_le_iff {bitmap : List ℕ} {n : ℕ} :
    cutLength bitmap ≤ n ↔ ∀ rank ∈ bitmap, rank < n := by
  unfold cutLength
  induction bitmap with
  | nil => simp
  | cons rank bitmap ih => simp [ih]

@[simp] lemma length_resize (bitmap : List ℕ) (n : ℕ) : (resize bitmap n).length = n := by
  simp [resize]

/-- The bitmap of the certificate decodes to the bits of the ranks. -/
def Certificate.Decodes [SignerStore] (cert : Certificate) (maxValidators : ℕ)
    (ranks : List ℕ × List ℕ) : Prop :=
  let newLength := max (cutLength ranks.1) (cutLength ranks.2)
  decode cert.bitmap maxValidators = some (.base2 (resize ranks.1 (cutLength ranks.1)))
      ∧ ranks.2 = []
    ∨ decode cert.bitmap maxValidators
      = some (.base3 (resize ranks.1 newLength) (resize ranks.2 newLength))

namespace BuilderType

/-- The votes whose signatures were aggregated. -/
def messages : BuilderType → List VoteMessage
  | .singleVote signature _ => signature
  | .skip signature0 _ sigAndBitmap1 => signature0 ++ (sigAndBitmap1.map (·.1)).getD []
  | .notarFallback signature _ _ => signature

/-- The ranks in the two bitmaps. -/
def ranks : BuilderType → List ℕ × List ℕ
  | .singleVote _ bitmap => (bitmap, [])
  | .skip _ bitmap0 sigAndBitmap1 => (bitmap0, (sigAndBitmap1.map (·.2)).getD [])
  | .notarFallback _ bitmap0 bitmap1 => (bitmap0, bitmap1.getD [])

lemma messages_new (certType : CertificateType) : (new certType).messages = [] := by
  cases certType <;> rfl

lemma ranks_new (certType : CertificateType) : (new certType).ranks = ([], []) := by
  cases certType <;> rfl

section Build

variable [SignerStore]

lemma build_eq (b : BuilderType) (certType : CertificateType) :
    (b.build certType = buildCertFromBitmap certType b.messages b.ranks.1 ∧ b.ranks.2 = [])
      ∨ b.build certType
        = buildCertFromBitmaps certType b.messages b.ranks.1 b.ranks.2 := by
  rcases b with ⟨signature, bitmap⟩ | ⟨signature0, bitmap0, _ | ⟨signature1, bitmap1⟩⟩
      | ⟨signature, bitmap0, _ | bitmap1⟩
  · exact .inl ⟨rfl, rfl⟩
  · exact .inl ⟨by rw [messages, Option.map_none, Option.getD_none, append_nil]; rfl, rfl⟩
  · exact .inr rfl
  · exact .inl ⟨rfl, rfl⟩
  · exact .inr rfl

lemma build_ok (h : b.build certType = .ok cert) :
    cert.certType = certType ∧ cert.signature = b.messages
      ∧ ∀ maxValidators, (∀ rank ∈ b.ranks.1 ++ b.ranks.2, rank < maxValidators) →
        cert.Decodes maxValidators b.ranks := by
  simp only [forall_mem_append, ← cutLength_le_iff]
  rcases build_eq b certType with ⟨heq, hnil⟩ | heq
  · obtain ⟨bitmap, hbitmap, h⟩ := bind_eq_ok.1 (heq.symm.trans h)
    cases h
    exact ⟨rfl, rfl, fun _ hlt => .inl ⟨decode_base2 hbitmap (by simpa using hlt.1), hnil⟩⟩
  · obtain ⟨bitmap, hbitmap, h⟩ := bind_eq_ok.1 (heq.symm.trans h)
    cases h
    exact ⟨rfl, rfl, fun _ hlt => .inr (decode_base3 hbitmap (by simpa using hlt))⟩

lemma exists_build (hlt : ∀ rank ∈ b.ranks.1 ++ b.ranks.2, rank < maximumValidators)
    (h : ∀ rank ∈ b.ranks.1, rank ∉ b.ranks.2) (certType : CertificateType) :
    ∃ cert, b.build certType = .ok cert := by
  simp only [forall_mem_append, ← cutLength_le_iff] at hlt
  rcases build_eq b certType with ⟨heq, -⟩ | heq
  · obtain ⟨bitmap, hbitmap⟩ := exists_encodeBase2 (resize b.ranks.1 _) (by simpa using hlt.1)
    exact ⟨_, heq.trans (bind_eq_ok.2 ⟨bitmap, hbitmap, rfl⟩)⟩
  · obtain ⟨bitmap, hbitmap⟩ := exists_encodeBase3 _ _
      ((length_resize b.ranks.1 _).trans_le (max_le hlt.1 hlt.2))
      ((length_resize _ _).trans (length_resize b.ranks.2 _).symm) (by
        simp only [resize, zip_map', mem_map, Prod.mk.injEq, decide_eq_true_eq]
        exact fun ⟨rank, _, h0, h1⟩ => h rank h0 h1)
    exact ⟨_, heq.trans (bind_eq_ok.2 ⟨bitmap, hbitmap, rfl⟩)⟩

end Build

/-- The ranks are of votes: in the first bitmap of the primary type. -/
structure RanksFrom (ty₀ : VoteType) (msgs : List VoteMessage) (ranks : List ℕ × List ℕ) :
    Prop where
  fst : ∀ rank ∈ ranks.1, ∃ m ∈ msgs, m.rank = rank ∧ m.vote.getType = ty₀
  snd : ∀ rank ∈ ranks.2, ∃ m ∈ msgs, m.rank = rank ∧ m.vote.getType ≠ ty₀

/-- The ranks once those of the votes are set. -/
def setRanks (ty₀ : VoteType) (msgs : List VoteMessage) (ranks : List ℕ × List ℕ) :
    List ℕ × List ℕ :=
  (ranks.1 ++ (msgs.filter (·.vote.getType = ty₀)).map (·.rank),
    ranks.2 ++ (msgs.filter (·.vote.getType ≠ ty₀)).map (·.rank))

variable {old : List VoteMessage}

lemma exists_of_mem_ranks {ranks : List ℕ} {Q : VoteMessage → Prop} [DecidablePred Q]
    (h : ∀ rank ∈ ranks, ∃ m ∈ old, m.rank = rank ∧ Q m) :
    ∀ rank ∈ ranks ++ (msgs.filter Q).map (·.rank), ∃ m ∈ old ++ msgs, m.rank = rank ∧ Q m := by
  intro rank hr
  rcases mem_append.1 hr with hr | hr
  · obtain ⟨m, hm, h'⟩ := h rank hr
    exact ⟨m, mem_append_left _ hm, h'⟩
  · obtain ⟨m, hm, rfl⟩ := mem_map.1 hr
    obtain ⟨hm, hty⟩ := mem_filter.1 hm
    exact ⟨m, mem_append_right _ hm, rfl, of_decide_eq_true hty⟩

lemma RanksFrom.setRanks {ranks : List ℕ × List ℕ} (h : RanksFrom ty₀ old ranks)
    (msgs : List VoteMessage) :
    RanksFrom ty₀ (old ++ msgs) (setRanks ty₀ msgs ranks) :=
  ⟨exists_of_mem_ranks h.fst, exists_of_mem_ranks h.snd⟩

lemma RanksFrom.disjoint {ranks : List ℕ × List ℕ} (h : RanksFrom ty₀ msgs ranks)
    (hnd : (msgs.map (·.rank)).Nodup) : ∀ rank ∈ ranks.1, rank ∉ ranks.2 := by
  intro rank h0 h1
  obtain ⟨m, hm, hr, hty⟩ := h.fst rank h0
  obtain ⟨m', hm', hr', hty'⟩ := h.snd rank h1
  obtain rfl := inj_on_of_nodup_map hnd hm hm' (hr.trans hr'.symm)
  exact hty' hty

lemma RanksFrom.not_mem {ranks : List ℕ × List ℕ} {m : VoteMessage} (h : RanksFrom ty₀ msgs ranks)
    (hnew : m.rank ∉ msgs.map (·.rank)) : m.rank ∉ ranks.1 ∧ m.rank ∉ ranks.2 := by
  refine ⟨fun hr => ?_, fun hr => ?_⟩
  · obtain ⟨m', hm', hr', -⟩ := h.fst _ hr
    exact hnew (mem_map.2 ⟨m', hm', hr'⟩)
  · obtain ⟨m', hm', hr', -⟩ := h.snd _ hr
    exact hnew (mem_map.2 ⟨m', hm', hr'⟩)

/-- `set` takes a message of one of the types and sets its rank, in the first bitmap if it is of the
type `ty₀`. -/
structure Sets {σ : Type} (ty₀ : VoteType) (types : List VoteType) (ranks : σ → List ℕ × List ℕ)
    (set : σ → VoteMessage → Except AggregateError σ) : Prop where
  ok : ∀ acc m acc', set acc m = .ok acc' → m.rank < maximumValidators ∧ ranks acc' =
    if m.vote.getType = ty₀ then ((ranks acc).1 ++ [m.rank], (ranks acc).2)
    else ((ranks acc).1, (ranks acc).2 ++ [m.rank])
  exists_ok : ∀ acc m, m.vote.getType ∈ types → m.rank < maximumValidators →
    m.rank ∉ (ranks acc).1 → m.rank ∉ (ranks acc).2 → ∃ acc', set acc m = .ok acc'

lemma sets_setSingle : Sets ty₀ [ty₀] (fun bitmap => (bitmap, [])) (setSingle ty₀) := by
  refine ⟨fun bitmap m bitmap' h => ?_, fun bitmap m hty hlt h0 _ => ?_⟩
  · unfold setSingle at h
    split_ifs at h with hm
    obtain ⟨hlt, rfl⟩ := trySetBitmap_ok h
    exact ⟨hlt, (if_pos hm).symm⟩
  · unfold setSingle
    rw [if_pos (mem_singleton.1 hty)]
    exact ⟨_, trySetBitmap_eq hlt h0⟩

lemma sets_two {τ : Type} {bitmap : τ → List ℕ} {put : τ → List ℕ → τ}
    (hput : ∀ c ranks, bitmap (put c ranks) = ranks) :
    Sets ty₀ [ty₀, ty₁] (fun acc : List ℕ × τ => (acc.1, bitmap acc.2)) fun acc m =>
      if m.vote.getType = ty₀ then trySetBitmap acc.1 m.rank >>= fun ranks => .ok (ranks, acc.2)
      else if m.vote.getType = ty₁ then
        trySetBitmap (bitmap acc.2) m.rank >>= fun ranks => .ok (acc.1, put acc.2 ranks)
      else .error .voteType := by
  refine ⟨fun acc m acc' h => ?_, fun acc m hty hlt h0 h1 => ?_⟩
  · split_ifs at h with hm hm1
    · obtain ⟨ranks, hset, h⟩ := bind_eq_ok.1 h
      cases h
      obtain ⟨hlt, rfl⟩ := trySetBitmap_ok hset
      exact ⟨hlt, (if_pos hm).symm⟩
    · obtain ⟨ranks, hset, h⟩ := bind_eq_ok.1 h
      cases h
      obtain ⟨hlt, rfl⟩ := trySetBitmap_ok hset
      rw [if_neg hm, hput]
      exact ⟨hlt, rfl⟩
  · by_cases hm : m.vote.getType = ty₀
    · rw [if_pos hm, trySetBitmap_eq hlt h0]
      exact ⟨_, rfl⟩
    · rw [if_neg hm, if_pos ((mem_pair.1 hty).resolve_left hm), trySetBitmap_eq hlt h1]
      exact ⟨_, rfl⟩

lemma sets_setSkip : Sets ty₀ [ty₀, ty₁]
    (fun acc => (acc.1, (acc.2.map (·.2)).getD [])) (setSkip ty₀ ty₁) := by
  have hsnd : ∀ c : Option (List VoteMessage × List ℕ),
      (c.map (·.2)).getD [] = (c.getD ([], [])).2 := by
    rintro (_ | _) <;> rfl
  simp only [hsnd]
  exact @sets_two ty₀ ty₁ (Option (List VoteMessage × List ℕ)) (fun c => (c.getD ([], [])).2)
    (fun c ranks => some ((c.getD ([], [])).1, ranks)) fun _ _ => rfl

lemma sets_setNotarFallback : Sets ty₀ [ty₀, ty₁]
    (fun acc => (acc.1, acc.2.getD [])) (setNotarFallback ty₀ ty₁) :=
  @sets_two ty₀ ty₁ _ (·.getD []) (fun _ ranks => some ranks) fun _ _ => rfl

section Sets

variable {σ : Type} {types : List VoteType} {ranks : σ → List ℕ × List ℕ}
  {set : σ → VoteMessage → Except AggregateError σ}

lemma Sets.setRanks (h : Sets ty₀ types ranks set) {acc acc' : σ} {m : VoteMessage}
    (hset : set acc m = .ok acc') : ranks acc' = setRanks ty₀ [m] (ranks acc) := by
  rw [(h.ok acc m acc' hset).2]
  by_cases hm : m.vote.getType = ty₀ <;> simp [BuilderType.setRanks, hm]

lemma Sets.foldlM_ok (h : Sets ty₀ types ranks set) : ∀ {msgs : List VoteMessage} {acc acc' : σ},
    msgs.foldlM set acc = .ok acc' → (∀ m ∈ msgs, m.rank < maximumValidators)
      ∧ ranks acc' = BuilderType.setRanks ty₀ msgs (ranks acc)
  | [], acc, acc', hf => by
    cases hf
    simp [BuilderType.setRanks]
  | m :: msgs, acc, acc', hf => by
    rw [foldlM_cons, bind_eq_ok] at hf
    obtain ⟨acc1, hset, hf⟩ := hf
    obtain ⟨hlt, heq⟩ := h.foldlM_ok hf
    refine ⟨forall_mem_cons.2 ⟨(h.ok _ _ _ hset).1, hlt⟩, ?_⟩
    rw [heq, h.setRanks hset]
    by_cases hm : m.vote.getType = ty₀ <;> simp [BuilderType.setRanks, hm]

lemma Sets.exists_foldlM (h : Sets ty₀ types ranks set) : ∀ {msgs old : List VoteMessage} {acc : σ},
    (∀ m ∈ msgs, m.vote.getType ∈ types ∧ m.rank < maximumValidators) →
    ((old ++ msgs).map (·.rank)).Nodup → RanksFrom ty₀ old (ranks acc) →
    ∃ acc', msgs.foldlM set acc = .ok acc'
  | [], old, acc, _, _, _ => ⟨acc, rfl⟩
  | m :: msgs, old, acc, hmsgs, hnd, hacc => by
    obtain ⟨⟨hty, hlt⟩, hmsgs⟩ := forall_mem_cons.1 hmsgs
    rw [append_cons] at hnd
    have hnew : m.rank ∉ old.map (·.rank) := by
      rw [map_append, map_append, append_assoc] at hnd
      exact fun hmem => (nodup_append.1 hnd).2.2 _ hmem _ (by simp) rfl
    obtain ⟨h0, h1⟩ := hacc.not_mem hnew
    obtain ⟨acc1, hset⟩ := h.exists_ok acc m hty hlt h0 h1
    obtain ⟨acc', hf⟩ := h.exists_foldlM hmsgs hnd (h.setRanks hset ▸ hacc.setRanks [m])
    refine ⟨acc', ?_⟩
    rw [foldlM_cons, hset]
    exact hf

end Sets

lemma setSkip_foldlM : ∀ {msgs : List VoteMessage}
    {acc acc' : List ℕ × Option (List VoteMessage × List ℕ)},
    msgs.foldlM (setSkip ty₀ ty₁) acc = .ok acc' →
    (∀ m ∈ msgs, m.vote.getType = ty₀ ∨ m.vote.getType = ty₁)
      ∧ (acc'.2.map (·.1)).getD [] = (acc.2.map (·.1)).getD []
      ∧ (acc'.2 = none → acc.2 = none ∧ ∀ m ∈ msgs, m.vote.getType = ty₀)
  | [], acc, acc', h => by
    cases h
    exact ⟨nofun, rfl, fun h => ⟨h, nofun⟩⟩
  | m :: msgs, acc, acc', h => by
    rw [foldlM_cons, bind_eq_ok] at h
    obtain ⟨acc1, h₁, h2⟩ := h
    obtain ⟨ht, hsig, hnone⟩ := setSkip_foldlM h2
    unfold setSkip at h₁
    split_ifs at h₁ with h0 h1
    · obtain ⟨bitmap, -, h₁⟩ := bind_eq_ok.1 h₁
      cases h₁
      refine ⟨forall_mem_cons.2 ⟨.inl h0, ht⟩, hsig, fun hn => ?_⟩
      exact ⟨(hnone hn).1, forall_mem_cons.2 ⟨h0, (hnone hn).2⟩⟩
    · obtain ⟨bitmap, -, h₁⟩ := bind_eq_ok.1 h₁
      cases h₁
      refine ⟨forall_mem_cons.2 ⟨.inr h1, ht⟩, hsig.trans ?_, fun hn => ?_⟩
      · cases acc.2 <;> rfl
      · exact absurd (hnone hn).1 (by simp)

lemma perm_filter_two (hne : ty₀ ≠ ty₁)
    (ht : ∀ m ∈ l, m.vote.getType = ty₀ ∨ m.vote.getType = ty₁) :
    (l.filter (·.vote.getType = ty₀) ++ l.filter (·.vote.getType = ty₁)).Perm l := by
  have hneg : l.filter (·.vote.getType = ty₁) = l.filter (fun m => !decide (m.vote.getType = ty₀)) := by
    refine filter_congr fun m hm => ?_
    rcases ht m hm with h | h
    · simp [h, hne]
    · simp [h, hne.symm]
  rw [hneg]
  exact filter_append_perm _ _

/-- A builder for a certificate with the messages aggregated so far: one bitmap or two by the number
of its vote types, with their ranks. -/
structure BuildsFrom (certType : CertificateType) (old : List VoteMessage) (b : BuilderType) :
    Prop where
  lt_maximumValidators : ∀ m ∈ old, m.rank < maximumValidators
  ranksFrom : ∀ ty₀, certType.limitsAndVoteTypes.2.head? = some ty₀ → RanksFrom ty₀ old b.ranks
  single : certType.limitsAndVoteTypes.2.length = 1 ↔ ∃ signature bitmap,
    b = .singleVote signature bitmap

lemma buildsFrom_new (certType : CertificateType) : BuildsFrom certType [] (new certType) := by
  refine ⟨nofun, fun ty₀ _ => ?_, ?_⟩
  · rw [ranks_new]
    exact ⟨nofun, nofun⟩
  · cases certType <;> simp [new, CertificateType.limitsAndVoteTypes]

lemma aggregate_ok (h : b.aggregate certType msgs = .ok b') :
    b'.messages.Perm (b.messages ++ msgs) ∧ (∀ m ∈ msgs, m.rank < maximumValidators)
      ∧ (∀ ty₀, certType.limitsAndVoteTypes.2.head? = some ty₀ →
        b'.ranks = setRanks ty₀ msgs b.ranks)
      ∧ ((∃ signature bitmap, b' = .singleVote signature bitmap)
        ↔ ∃ signature bitmap, b = .singleVote signature bitmap) := by
  cases b with
  | singleVote signature bitmap =>
    simp only [aggregate] at h
    split at h
    case h_2 => cases h
    case h_1 ty₀ htypes =>
      obtain ⟨bitmap', hloop, h⟩ := bind_eq_ok.1 h
      cases h
      obtain ⟨hlt, hranks⟩ := sets_setSingle.foldlM_ok hloop
      refine ⟨List.Perm.refl _, hlt, fun ty hty => ?_, by simp⟩
      rw [htypes] at hty
      cases hty
      exact hranks
  | skip signature0 bitmap0 sigAndBitmap1 =>
    simp only [aggregate] at h
    split at h
    case h_2 => cases h
    case h_1 ty₀ ty₁ htypes =>
      obtain ⟨acc, hloop, h⟩ := bind_eq_ok.1 h
      cases h
      obtain ⟨hlt, hranks⟩ := sets_setSkip.foldlM_ok hloop
      refine ⟨?_, hlt, fun ty hty => ?_, by simp⟩
      · have hne : ty₀ ≠ ty₁ := by
          have hnd := certType.limitsAndVoteTypes_nodup
          rw [htypes] at hnd
          simpa using hnd
        obtain ⟨ht, hsig, hnone⟩ := setSkip_foldlM hloop
        have hfilter := perm_filter_two hne ht
        rcases acc with ⟨bitmap0', _ | ⟨signature1, bitmap1⟩⟩
        · obtain ⟨hnone, hall⟩ := hnone rfl
          subst hnone
          have : msgs.filter (·.vote.getType = ty₀) = msgs :=
            filter_eq_self.2 fun m hm => by simp [hall m hm]
          simp [messages, this]
        · simp at hsig
          simp only [messages, hsig, append_assoc]
          refine List.Perm.append_left _ ?_
          exact (perm_append_comm_assoc _ _ _).trans (List.Perm.append_left _ hfilter)
      · rw [htypes] at hty
        cases hty
        simpa only [ranks, Option.map_map, Function.comp_def] using hranks
  | notarFallback signature bitmap0 bitmap1 =>
    simp only [aggregate] at h
    split at h
    case h_2 => cases h
    case h_1 ty₀ ty₁ htypes =>
      obtain ⟨acc, hloop, h⟩ := bind_eq_ok.1 h
      cases h
      obtain ⟨hlt, hranks⟩ := sets_setNotarFallback.foldlM_ok hloop
      refine ⟨List.Perm.refl _, hlt, fun ty hty => ?_, by simp⟩
      rw [htypes] at hty
      cases hty
      exact hranks

lemma BuildsFrom.aggregate (hb : BuildsFrom certType old b)
    (h : b.aggregate certType msgs = .ok b') : BuildsFrom certType (old ++ msgs) b' := by
  obtain ⟨-, hlt, hranks, hsingle⟩ := aggregate_ok h
  refine ⟨forall_mem_append.2 ⟨hb.lt_maximumValidators, hlt⟩, fun ty₀ hty => ?_,
    hb.single.trans hsingle.symm⟩
  rw [hranks ty₀ hty]
  exact (hb.ranksFrom ty₀ hty).setRanks msgs

lemma BuildsFrom.exists_aggregate (hb : BuildsFrom certType old b)
    (hmsgs : ∀ m ∈ msgs, m.vote.getType ∈ certType.limitsAndVoteTypes.2
      ∧ m.rank < maximumValidators) (hnd : ((old ++ msgs).map (·.rank)).Nodup) :
    ∃ b', b.aggregate certType msgs = .ok b' := by
  obtain ⟨-, hranks, hsingle⟩ := hb
  have htypes : (∃ ty₀, certType.limitsAndVoteTypes.2 = [ty₀])
      ∨ ∃ ty₀ ty₁, certType.limitsAndVoteTypes.2 = [ty₀, ty₁] := by
    cases certType <;> simp [CertificateType.limitsAndVoteTypes]
  cases b with
  | singleVote signature bitmap =>
    obtain ⟨ty₀, hty⟩ | ⟨ty₀, ty₁, hty⟩ := htypes
    · rw [hty] at hmsgs hranks
      obtain ⟨bitmap', hloop⟩ := sets_setSingle.exists_foldlM hmsgs hnd (hranks _ rfl)
      simp only [BuilderType.aggregate, hty, hloop]
      exact ⟨_, rfl⟩
    · simp [hty] at hsingle
  | skip signature0 bitmap0 sigAndBitmap1 =>
    obtain ⟨ty₀, hty⟩ | ⟨ty₀, ty₁, hty⟩ := htypes
    · simp [hty] at hsingle
    · rw [hty] at hmsgs hranks
      obtain ⟨acc, hloop⟩ : ∃ acc, msgs.foldlM (setSkip ty₀ ty₁) (bitmap0, sigAndBitmap1) = .ok acc :=
        sets_setSkip.exists_foldlM hmsgs hnd (hranks _ rfl)
      simp only [BuilderType.aggregate, hty, hloop]
      exact ⟨_, rfl⟩
  | notarFallback signature bitmap0 bitmap1 =>
    obtain ⟨ty₀, hty⟩ | ⟨ty₀, ty₁, hty⟩ := htypes
    · simp [hty] at hsingle
    · rw [hty] at hmsgs hranks
      obtain ⟨acc, hloop⟩ : ∃ acc, msgs.foldlM (setNotarFallback ty₀ ty₁) (bitmap0, bitmap1) = .ok acc :=
        sets_setNotarFallback.exists_foldlM hmsgs hnd (hranks _ rfl)
      simp only [BuilderType.aggregate, hty, hloop]
      exact ⟨_, rfl⟩

lemma BuildsFrom.exists_ranksFrom (hb : BuildsFrom certType msgs b) :
    ∃ ty₀, RanksFrom ty₀ msgs b.ranks := by
  cases certType <;> exact ⟨_, hb.ranksFrom _ rfl⟩

lemma RanksFrom.lt {ranks : List ℕ × List ℕ} {n : ℕ} (h : RanksFrom ty₀ msgs ranks)
    (hlt : ∀ m ∈ msgs, m.rank < n) : ∀ rank ∈ ranks.1 ++ ranks.2, rank < n := by
  refine forall_mem_append.2 ⟨fun rank hr => ?_, fun rank hr => ?_⟩
  · obtain ⟨m, hm, rfl, -⟩ := h.fst rank hr
    exact hlt m hm
  · obtain ⟨m, hm, rfl, -⟩ := h.snd rank hr
    exact hlt m hm

variable [SignerStore] {maxValidators : ℕ}

lemma BuildsFrom.exists_build (hb : BuildsFrom certType msgs b)
    (hnd : (msgs.map (·.rank)).Nodup) : ∃ cert, b.build certType = .ok cert := by
  obtain ⟨ty₀, hranks⟩ := hb.exists_ranksFrom
  exact BuilderType.exists_build (hranks.lt hb.lt_maximumValidators) (hranks.disjoint hnd) certType

lemma BuildsFrom.decodes (hb : BuildsFrom certType msgs b) (h : b.build certType = .ok cert)
    (hlt : ∀ m ∈ msgs, m.rank < maxValidators) : cert.Decodes maxValidators b.ranks := by
  obtain ⟨ty₀, hranks⟩ := hb.exists_ranksFrom
  exact (build_ok h).2.2 _ (hranks.lt hlt)

lemma BuildsFrom.base2 (hb : BuildsFrom certType msgs b) (h : b.build certType = .ok cert)
    (hsingle : certType.limitsAndVoteTypes.2.length = 1)
    (hlt : ∀ m ∈ msgs, m.rank < maxValidators) :
    ∃ ranks, decode cert.bitmap maxValidators = some (.base2 ranks) := by
  obtain ⟨signature, bitmap, rfl⟩ := hb.single.1 hsingle
  obtain ⟨ty₀, hranks⟩ := hb.exists_ranksFrom
  obtain ⟨code, hcode, h⟩ := bind_eq_ok.1 h
  cases h
  refine ⟨_, decode_base2 hcode ?_⟩
  rw [length_resize, cutLength_le_iff]
  exact (forall_mem_append.1 (hranks.lt hlt)).1

end BuilderType

namespace PlainStore

/-- A store with a byte for each rank, after one that tells the bitmaps. -/
scoped instance store : SignerStore where
  encodeBase2 ranks := .ok (2 :: ranks.map fun bit => bit.toUInt8)
  encodeBase3 ranks fallbackRanks :=
    if ranks.length = fallbackRanks.length ∧ (true, true) ∉ ranks.zip fallbackRanks then
      .ok (3 :: (ranks.zip fallbackRanks).map fun bits => bits.1.toUInt8 + 2 * bits.2.toUInt8)
    else .error .encode
  decode
    | 2 :: code, maxValidators =>
      if code.length ≤ maxValidators then some (.base2 (code.map (· = 1))) else none
    | 3 :: code, maxValidators =>
      if code.length ≤ maxValidators then
        some (.base3 (code.map (· % 2 = 1)) (code.map (· / 2 = 1)))
      else none
    | _, _ => none
  exists_encodeBase2 := fun _ _ => ⟨_, rfl⟩
  exists_encodeBase3 := fun _ _ _ hlength hnone => ⟨_, if_pos ⟨hlength, hnone⟩⟩
  decode_base2 := by
    rintro ranks _ maxValidators ⟨⟩ hlength
    have hbit : (fun byte => decide (byte = 1)) ∘ (fun bit : Bool => bit.toUInt8) = id :=
      funext (by decide)
    simp [hlength, hbit]
  decode_base3 := by
    intro ranks fallbackRanks bitmap maxValidators h hlength
    split_ifs at h with hok
    cases h
    have hfst : (fun byte => decide (byte % 2 = 1))
        ∘ (fun bits : Bool × Bool => bits.1.toUInt8 + 2 * bits.2.toUInt8) = Prod.fst :=
      funext (by decide)
    have hsnd : (fun byte => decide (byte / 2 = 1))
        ∘ (fun bits : Bool × Bool => bits.1.toUInt8 + 2 * bits.2.toUInt8) = Prod.snd :=
      funext (by decide)
    simp [hlength, hfst, hsnd, map_fst_zip hok.1.le, map_snd_zip hok.1.ge]

end PlainStore

end BlackBull
