import BlackBull.Votor.RewardEntry

/-!
# The validators of a reward certificate

A partial certificate lists the vote accounts of the ranks in its bitmap, unless a vote failed while
its signature was aggregated: by then its account is in the list, and no rank is set for it.
-/

namespace BlackBull.Rewards

open List

variable {S : Type} {rankMap : EpochStakes} {aggregates : S → Bool} {rank : ℕ} {signature : S}
  {p p' : PartialCert S} {e e' : Entry S} {vote : VoteMessage} {res : Except AddVoteError Unit}

def account (rankMap : EpochStakes) (rank : ℕ) : Option Pubkey :=
  (rankMap.sortedPubkeys.map (·.voteAccountPubkey))[rank]?

structure PartialCert.Lists (rankMap : EpochStakes) (p : PartialCert S) : Prop where
  nodup : p.bitvec.Nodup
  validators_eq : p.validators.map some = p.bitvec.map (account rankMap)
  cnt_eq : p.cnt = p.bitvec.length

lemma PartialCert.Lists.validators_nodup (h : p.Lists rankMap) : p.validators.Nodup := by
  refine .of_map some ?_
  rw [h.validators_eq]
  refine h.nodup.map_on fun r hr r' _ heq => ?_
  obtain ⟨pubkey, -, hpubkey⟩ := mem_map.1 (h.validators_eq ▸ mem_map_of_mem hr)
  obtain ⟨hlt, -⟩ := List.getElem?_eq_some_iff.1 hpubkey.symm
  exact (getElem?_inj hlt rankMap.nodup).1 heq

/-- The rank of a vote that gets as far as aggregating its signature. -/
def PartialCert.Takes (p : PartialCert S) (rank : ℕ) : Prop :=
  rank < p.maxValidators ∧ rank ∉ p.bitvec

lemma PartialCert.addVote_spec (h : p.addVote rankMap aggregates rank signature = .ok (p', res)) :
    match res with
    | .ok _ => p.Lists rankMap → p'.Lists rankMap
    | .error _ => p' = { p with validators := p'.validators }
      ∧ (p'.validators = p.validators ↔ (p.Takes rank → aggregates signature)) := by
  unfold PartialCert.addVote at h
  split at h
  · cases h
    exact ⟨rfl, iff_of_true rfl fun ht => absurd ht.1 (by omega)⟩
  split at h
  · cases h
    exact ⟨rfl, iff_of_true rfl fun ht => absurd ‹_› ht.2⟩
  rename_i hnew
  split at h
  · cases h
  rename_i entry hentry
  split at h
  · cases h
    refine fun hl => ⟨hl.nodup.append (nodup_singleton _) (by simpa using hnew), ?_, ?_⟩
    · simp [hl.validators_eq, account, hentry]
    · simp [hl.cnt_eq]
  · cases h
    exact ⟨rfl, iff_of_false (by simp) fun hagg => absurd (hagg ⟨by omega, hnew⟩) ‹_›⟩

/-- The partial certificate of the skip votes, or that of the votes for a block. -/
def Entry.partials (e : Entry S) : Option Hash → PartialCert S
  | none => e.skip
  | some blockId => e.notar.partialCert e.maxValidators blockId

/-- A vote whose signature is to be aggregated has one that can be. -/
def Entry.Aggregable (aggregates : S → Bool) (e : Entry S) (vote : VoteMessage × S) : Prop :=
  match vote.1.vote with
  | .notarize _ blockId => vote.1.rank ∉ e.notar.voted →
    (e.partials (some blockId)).Takes vote.1.rank → aggregates vote.2
  | .skip _ => (e.partials none).Takes vote.1.rank → aggregates vote.2
  | _ => True

/-- A vote goes to one partial certificate at most. -/
lemma Entry.addVote_cases (h : e.addVote rankMap aggregates signature vote = .ok (e', res)) :
    (e'.partials = e.partials ∧ e.Aggregable aggregates (vote, signature))
      ∨ ∃ block,
        (e.partials block).addVote rankMap aggregates vote.rank signature
          = .ok (e'.partials block, res)
        ∧ (∀ block' ≠ block, e'.partials block' = e.partials block')
        ∧ (e.Aggregable aggregates (vote, signature)
          ↔ ((e.partials block).Takes vote.rank → aggregates signature)) := by
  obtain ⟨v, rank⟩ := vote
  unfold Entry.addVote at h
  split at h
  · rename_i blockId hv
    obtain rfl : v = _ := hv
    obtain ⟨⟨notar, res⟩, hnotar, h⟩ := Except.bind_eq_ok.1 h
    cases h
    unfold NotarEntry.addVote at hnotar
    split at hnotar
    · cases hnotar
      exact .inl ⟨rfl, fun hnew => absurd ‹_› hnew⟩
    rename_i hnew
    obtain ⟨⟨p, res⟩, hp, hnotar⟩ := Except.bind_eq_ok.1 hnotar
    cases hnotar
    refine .inr ⟨some blockId, ?_, fun block' hne => ?_, imp_iff_right hnew⟩
    · simpa [partials, NotarEntry.partialCert] using hp
    · rcases block' with - | block'
      · rfl
      · have hne : blockId ≠ block' := fun heq => hne (congrArg some heq.symm)
        simp [partials, NotarEntry.partialCert, OrdMap.get?_insert_ne _ hne]
  · rename_i hv
    obtain rfl : v = _ := hv
    obtain ⟨⟨skip, res⟩, hskip, h⟩ := Except.bind_eq_ok.1 h
    cases h
    refine .inr ⟨none, hskip, fun block' hne => ?_, Iff.rfl⟩
    rcases block' with - | block'
    · exact absurd rfl hne
    · rfl
  · unfold Aggregable
    split <;> first | trivial | simp_all

/-- A call that fails leaves signature, bitmap and count of every partial certificate as they are,
and the validators just where it did not fail in aggregating the signature. From votes that do not
fail so come partial certificates that list the accounts of their ranks, each once. -/
theorem Entry.run_lists {maxValidators : ℕ} {votes : List (VoteMessage × S)}
    {results : List (Except AddVoteError Unit)}
    (h : run (Entry.step rankMap aggregates) (.new maxValidators) votes = .ok (e, results)) :
    (∀ signature vote e' err, e.addVote rankMap aggregates signature vote = .ok (e', .error err) →
      (∀ block, (e'.partials block).signature = (e.partials block).signature
        ∧ (e'.partials block).bitvec = (e.partials block).bitvec
        ∧ (e'.partials block).cnt = (e.partials block).cnt)
      ∧ ((∀ block, (e'.partials block).validators = (e.partials block).validators)
        ↔ e.Aggregable aggregates (vote, signature)))
    ∧ (Guarded (Entry.step rankMap aggregates) (Entry.Aggregable aggregates) (.new maxValidators)
        votes → ∀ block, (e.partials block).votesSeen = (e.partials block).bitvec.length
      ∧ ∀ signature bitmap validators,
        (e.partials block).buildSigBitmap = some (signature, bitmap, validators) →
        validators.map some = bitmap.map (account rankMap) ∧ bitmap.Nodup ∧ validators.Nodup) := by
  refine ⟨fun signature vote e' err hfail => ?_, fun hG block => ?_⟩
  · rcases Entry.addVote_cases hfail with ⟨heq, hagg⟩ | ⟨block, hadd, hother, hagg⟩
    · simp [heq, hagg]
    obtain ⟨hrest, hval⟩ := PartialCert.addVote_spec hadd
    refine ⟨fun block' => ?_, ?_⟩
    · rcases eq_or_ne block' block with rfl | hne
      · exact ⟨by rw [hrest], by rw [hrest], by rw [hrest]⟩
      · simp [hother block' hne]
    · rw [hagg, ← hval]
      refine ⟨fun hall => hall block, fun heq block' => ?_⟩
      rcases eq_or_ne block' block with rfl | hne
      · exact heq
      · rw [hother block' hne]
  · have hl := run_induction (P := fun _ _ e => ∀ block, (e.partials block).Lists rankMap)
      ?_ ?_ hG h block
    · refine ⟨hl.cnt_eq, fun _ bitmap validators hb => ?_⟩
      unfold PartialCert.buildSigBitmap at hb
      split at hb <;> cases hb
      exact ⟨hl.validators_eq, hl.nodup, hl.validators_nodup⟩
    · intro block
      cases block <;> exact ⟨nodup_nil, rfl, rfl⟩
    · intro _ _ e vote e' _ hinv hagg hstep block'
      obtain ⟨⟨e1, res⟩, hadd, heq⟩ := Except.map_eq_ok.1 hstep
      cases heq
      rcases Entry.addVote_cases hadd with ⟨heq, -⟩ | ⟨block, hadd, hother, hiff⟩
      · exact heq ▸ hinv block'
      rcases eq_or_ne block' block with rfl | hne
      · have hspec := PartialCert.addVote_spec hadd
        rcases res with err | _
        · rw [hspec.1, hspec.2.2 (hiff.1 hagg)]
          exact hinv block'
        · exact hspec (hinv block')
      · rw [hother block' hne]
        exact hinv block'

def oneRank : EpochStakes := ⟨[⟨7, 1, 1⟩], 1, by decide, by decide, by decide, by decide⟩

def skipVotes : List (VoteMessage × ℕ) := [(⟨.skip 5, 0⟩, 3), (⟨.skip 5, 0⟩, 3), (⟨.skip 5, 1⟩, 3)]

theorem Entry.run_lists_once :
    ∃ e, run (Entry.step oneRank fun _ => true) (.new 1) skipVotes
        = .ok (e, [.ok (), .error .duplicate, .error .invalidRank])
      ∧ (e.partials none).votesSeen = (e.partials none).bitvec.length := by
  have hG : Guarded (Entry.step oneRank fun _ => true) (Entry.Aggregable fun _ => true) (.new 1)
      skipVotes := by
    simp [skipVotes, Guarded, Entry.Aggregable]
  exact ⟨_, rfl, ((Entry.run_lists rfl).2 hG none).1⟩

/-- A vote that comes again, after its signature could not be aggregated, has its account listed
twice beside one rank. -/
theorem Entry.addVote_lists_twice :
    ∃ e, run (Entry.step oneRank (· = 3)) (.new 1) [(⟨.skip 5, 0⟩, 4), (⟨.skip 5, 0⟩, 3)]
        = .ok (e, [.error .bls, .ok ()])
      ∧ (e.partials none).buildSigBitmap = some ([3], [0], [7, 7]) :=
  ⟨_, rfl, rfl⟩

end BlackBull.Rewards
