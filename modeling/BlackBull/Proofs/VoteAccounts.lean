import BlackBull.Vote.VoteAccount

/-!
# Who is admitted to vote

Whoever has no more stake than the first account that is left out has to go, with all that have as
much.
-/

namespace BlackBull.Vote

open List OrdMap

variable {accounts m : VoteAccountsHashMap} {n b : ℕ} {select : ℕ → List Entry → List Entry}
  {entries entries' kept kept' : List Entry}

/-- What `select_nth_unstable_by` leaves: nobody before the index has less stake than the one there,
and nobody after it more. -/
def SelectsNth (select : ℕ → List Entry → List Entry) : Prop :=
  ∀ n entries, n < entries.length → (select n entries).Perm entries ∧ ∃ front cutoff back,
    select n entries = front ++ cutoff :: back ∧ front.length = n
      ∧ (∀ e ∈ front, cutoff.2.1 ≤ e.2.1) ∧ ∀ e ∈ back, e.2.1 ≤ cutoff.2.1

lemma selectsNth_insertionSort :
    SelectsNth fun _ entries => entries.insertionSort fun e e' => e'.2.1 ≤ e.2.1 := by
  intro n entries hn
  have hsorted := pairwise_insertionSort (fun e e' : Entry => e'.2.1 ≤ e.2.1) entries
  have hperm := perm_insertionSort (fun e e' : Entry => e'.2.1 ≤ e.2.1) entries
  have hlt := hn.trans_eq hperm.length_eq.symm
  have hsplit := take_append_drop n (entries.insertionSort fun e e' => e'.2.1 ≤ e.2.1)
  rw [drop_eq_getElem_cons hlt] at hsplit
  rw [← hsplit, pairwise_append, pairwise_cons] at hsorted
  obtain ⟨-, ⟨hback, -⟩, hfront⟩ := hsorted
  exact ⟨hperm, _, _, _, hsplit.symm, length_take_of_le hlt.le,
    fun e he => hfront e he _ mem_cons_self, hback⟩

lemma entries_foldl_insert (hnd : ((m.entries ++ entries).map Prod.fst).Nodup) :
    (entries.foldl (fun m e => m.insert e.1 e.2) m).entries.Perm (m.entries ++ entries) := by
  induction entries generalizing m with
  | nil => simp
  | cons e entries ih =>
    have hnew : m.get? e.1 = none := by
      refine lookup_eq_none.2 fun e' he' heq => ?_
      rw [map_append] at hnd
      exact disjoint_of_nodup_append hnd (mem_map_of_mem he') (by simp [heq])
    have hp : ((m.insert e.1 e.2).entries ++ entries).Perm (m.entries ++ e :: entries) :=
      ((entries_insert hnew e.2).append_right _).trans perm_middle.symm
    exact (ih ((hp.map _).nodup_iff.2 hnd)).trans hp

structure Admissible (accounts : List Entry) (maxVoteAccounts minimumBalance : ℕ)
    (kept : List Entry) : Prop where
  valid : ∀ e ∈ kept, e ∈ accounts ∧ isValid minimumBalance e
  length_le : kept.length ≤ maxVoteAccounts
  /-- Nobody is left out who has at least the stake of one that is kept. -/
  closed : ∀ e ∈ kept, ∀ e' ∈ accounts, isValid minimumBalance e' → e.2.1 ≤ e'.2.1 → e' ∈ kept

lemma Admissible.of_perm (hp : entries.Perm entries') (hkept : kept.Perm kept')
    (h : Admissible entries n b kept) : Admissible entries' n b kept' where
  valid e he := (h.valid e (hkept.mem_iff.2 he)).imp_left hp.mem_iff.1
  length_le := hkept.length_eq.symm.trans_le h.length_le
  closed e he e' he' hv hle :=
    hkept.mem_iff.1 (h.closed e (hkept.mem_iff.2 he) e' (hp.mem_iff.2 he') hv hle)

lemma exists_kept (hmax : 0 < n) (hselect : SelectsNth select)
    (hnd : (entries.map Prod.fst).Nodup) :
    ∃ kept, cloneAndFilterForVat select entries n b = some { voteAccounts := collect kept }
      ∧ (kept.map Prod.fst).Nodup ∧ Admissible entries n b kept
      ∧ ∀ other, Admissible entries n b other → other ⊆ kept := by
  unfold cloneAndFilterForVat
  rw [if_neg hmax.ne']
  have hvalid : ((entries.filter (isValid b)).map Prod.fst).Nodup :=
    hnd.sublist (filter_sublist.map _)
  by_cases hlt : n < (entries.filter (isValid b)).length
  · obtain ⟨hperm, front, cutoff, back, hsel, hlen, hfront, hback⟩ := hselect _ _ hlt
    have hmem : ∀ e, e ∈ front ++ cutoff :: back ↔ e ∈ entries ∧ isValid b e :=
      fun e => (hsel ▸ hperm.mem_iff).trans mem_filter
    have hdist : ((front ++ cutoff :: back).map Prod.fst).Nodup :=
      hsel ▸ (hperm.map _).nodup_iff.2 hvalid
    have hat : (front ++ cutoff :: back)[n]? = some cutoff := by simp [← hlen]
    simp only [if_pos hlt, hsel, hat, Option.map_some]
    refine ⟨_, rfl, hdist.sublist (filter_sublist.map _), ⟨fun e he => ?_, ?_, ?_⟩, ?_⟩
    · exact (hmem e).1 (mem_filter.1 he).1
    · have hnone : back.filter (cutoff.2.1 < ·.2.1) = [] := by simpa using hback
      simpa [hnone, hlen] using length_filter_le (cutoff.2.1 < ·.2.1) front
    · intro e he e' he' hv hle
      have hgt := of_decide_eq_true (mem_filter.1 he).2
      exact mem_filter.2 ⟨(hmem e').2 ⟨he', hv⟩, decide_eq_true (hgt.trans_le hle)⟩
    · intro other h e he
      refine mem_filter.2 ⟨(hmem e).2 (h.valid e he), decide_eq_true ?_⟩
      -- with it, all up to the first that is left out would have to stay: one too many
      by_contra hle
      have hsub : front ++ [cutoff] ⊆ other := by
        intro e' he'
        have hin : e' ∈ front ++ cutoff :: back := by
          rw [append_cons]
          exact mem_append_left _ he'
        refine h.closed e he e' ((hmem e').1 hin).1 ((hmem e').1 hin).2 ((not_lt.1 hle).trans ?_)
        rcases mem_append.1 he' with he' | he'
        · exact hfront e' he'
        · rw [mem_singleton.1 he']
      have hnodup : (front ++ [cutoff]).Nodup := by
        rw [append_cons] at hdist
        exact (hdist.of_map _).of_append_left
      have hcount := (subperm_of_subset hnodup hsub).length_le.trans h.length_le
      rw [length_append, hlen] at hcount
      exact absurd hcount n.not_succ_le_self
  · rw [if_neg hlt]
    refine ⟨_, rfl, hvalid, ⟨fun e he => mem_filter.1 he, not_lt.1 hlt, ?_⟩, ?_⟩
    · exact fun _ _ e' he' hv _ => mem_filter.2 ⟨he', hv⟩
    · exact fun other h e he => mem_filter.2 (h.valid e he)

lemma cloneAndFilterForVat_spec (hmax : 0 < n) (hselect : SelectsNth select)
    (hp : entries.Perm accounts.entries) :
    ∃ kept, cloneAndFilterForVat select entries n b = some { voteAccounts := kept }
      ∧ Admissible accounts.entries n b kept.entries
      ∧ ∀ other, Admissible accounts.entries n b other → other ⊆ kept.entries := by
  obtain ⟨kept, hrun, hnd, hok, hgreatest⟩ :=
    exists_kept (b := b) hmax hselect ((hp.map Prod.fst).nodup_iff.2 accounts.keys_nodup)
  have hkept : (collect kept).entries.Perm kept := entries_foldl_insert hnd
  refine ⟨_, hrun, hok.of_perm hp hkept.symm, fun other h e he => ?_⟩
  exact hkept.mem_iff.2 (hgreatest other (h.of_perm hp.symm (.refl _)) he)

theorem cloneAndFilterForVat_greatest (hmax : 0 < n) :
    ∃ kept : VoteAccountsHashMap, Admissible accounts.entries n b kept.entries
      ∧ (∀ other, Admissible accounts.entries n b other → other ⊆ kept.entries)
      ∧ ∀ select entries, SelectsNth select → entries.Perm accounts.entries →
        cloneAndFilterForVat select entries n b = some { voteAccounts := kept } := by
  obtain ⟨kept, -, hok, hgreatest⟩ :=
    cloneAndFilterForVat_spec (b := b) hmax selectsNth_insertionSort (.refl accounts.entries)
  refine ⟨kept, hok, hgreatest, fun select entries hselect hp => ?_⟩
  obtain ⟨kept', hrun, hok', hgreatest'⟩ := cloneAndFilterForVat_spec (b := b) hmax hselect hp
  have heq : kept' = kept := ext_get? fun k => Option.ext fun v => by
    rw [← mem_entries, ← mem_entries]
    exact ⟨fun h => hgreatest _ hok' h, fun h => hgreatest' _ hok h⟩
  rw [hrun, heq]

def tied : VoteAccountsHashMap :=
  collect [(1, 5, ⟨1, 9, some 1⟩), (2, 3, ⟨2, 9, some 2⟩), (3, 3, ⟨3, 9, some 3⟩)]

theorem cloneAndFilterForVat_greatest_tie : ∃ kept : VoteAccountsHashMap,
    kept.keys = [1] ∧ ∀ other, Admissible tied.entries 2 9 other → other ⊆ kept.entries := by
  obtain ⟨kept, -, hgreatest, hrun⟩ := @cloneAndFilterForVat_greatest tied 2 9 (by decide)
  have hkept := hrun _ _ selectsNth_insertionSort (.refl _)
  refine ⟨kept, ?_, hgreatest⟩
  rw [← VoteAccounts.mk.inj (Option.some.inj hkept) |>.1]
  rfl

end BlackBull.Vote
