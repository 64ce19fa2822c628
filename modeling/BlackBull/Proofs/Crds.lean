import BlackBull.Gossip.Crds

/-!
# Gossip tables converge

Values of one label are ordered by `rank`: by outset (contact infos only), wallclock and hash.
-/

namespace BlackBull

open List

namespace Gossip

def CrdsValue.outset (v : CrdsValue) : ℕ :=
  match v.data with
  | .contactInfo node => node.outset
  | _ => 0

section Table

variable {H : Type} [LinearOrder H] {hash : CrdsValue → H}

variable (hash) in
/-- Values of a label are overridden by this order. -/
def rank (v : CrdsValue) : ℕ ×ₗ ℕ ×ₗ H := toLex (v.outset, toLex (v.wallclock, hash v))

lemma rank_lt {u v : CrdsValue} : rank hash u < rank hash v
    ↔ u.outset < v.outset ∨ u.outset = v.outset
      ∧ (u.wallclock < v.wallclock ∨ u.wallclock = v.wallclock ∧ hash u < hash v) := by
  rw [rank, rank]
  simp only [Prod.Lex.toLex_lt_toLex]

omit [LinearOrder H] in
lemma rank_injective (hinj : Function.Injective hash) : Function.Injective (rank hash) := by
  intro u v h
  refine hinj ?_
  have hpair := congrArg (fun r => (ofLex (ofLex r).2).2) h
  exact hpair

lemma overridesByWallclock_iff {u v : CrdsValue} : overridesByWallclock hash u v = true
    ↔ v.wallclock < u.wallclock ∨ v.wallclock = u.wallclock ∧ hash v < hash u := by
  unfold overridesByWallclock
  rcases h : compare u.wallclock v.wallclock
  · have hlt := Nat.compare_eq_lt.1 h
    simp
    omega
  · have heq := Nat.compare_eq_eq.1 h
    simp [heq]
  · have hgt := Nat.compare_eq_gt.1 h
    simp
    exact .inl hgt

lemma ContactInfo.overrides_cases {c d : ContactInfo} (h : c.pubkey = d.pubkey) :
    c.overrides d = some true ∧ (d.outset < c.outset
        ∨ d.outset = c.outset ∧ d.wallclock < c.wallclock)
      ∨ c.overrides d = some false ∧ (c.outset < d.outset
        ∨ c.outset = d.outset ∧ c.wallclock < d.wallclock)
      ∨ c.overrides d = none ∧ d.outset = c.outset ∧ d.wallclock = c.wallclock := by
  simp only [ContactInfo.overrides, h, ne_eq, compareLex, compareOn]
  rcases ho : compare c.outset d.outset
  · exact .inr (.inl ⟨rfl, .inl (Nat.compare_eq_lt.1 ho)⟩)
  · have heq := Nat.compare_eq_eq.1 ho
    rcases hw : compare c.wallclock d.wallclock
    · exact .inr (.inl ⟨rfl, .inr ⟨heq, Nat.compare_eq_lt.1 hw⟩⟩)
    · exact .inr (.inr ⟨rfl, heq.symm, (Nat.compare_eq_eq.1 hw).symm⟩)
    · exact .inl ⟨rfl, .inr ⟨heq.symm, Nat.compare_eq_gt.1 hw⟩⟩
  · exact .inl ⟨rfl, .inl (Nat.compare_eq_gt.1 ho)⟩

lemma overrides_contactInfo {value : CrdsValue} {other : VersionedCrdsValue} {c d : ContactInfo}
    (hc : value.data = .contactInfo c) (hd : other.value.data = .contactInfo d)
    (h : c.pubkey = d.pubkey) :
    overrides hash value other = true ↔ rank hash other.value < rank hash value := by
  have hout : value.outset = c.outset ∧ other.value.outset = d.outset := by
    simp only [CrdsValue.outset, hc, hd, and_self]
  have hwall : value.wallclock = c.wallclock ∧ other.value.wallclock = d.wallclock := by
    simp only [CrdsValue.wallclock, hc, hd, and_self]
  rw [rank_lt, overrides, hc, hd]
  simp only
  rcases ContactInfo.overrides_cases h with ⟨heq, hgt⟩ | ⟨heq, hlt⟩ | ⟨heq, ho, hw⟩ <;> rw [heq]
  · simp
    omega
  · simp
    omega
  · rw [Option.getD_none, overridesByWallclock_iff]
    have : other.value.outset = value.outset := by omega
    simp [this]

lemma overrides_iff {value : CrdsValue} {other : VersionedCrdsValue}
    (h : value.label = other.value.label) :
    overrides hash value other = true ↔ rank hash other.value < rank hash value := by
  rcases hdata : value.data <;> rcases hdata' : other.value.data
  all_goals simp only [CrdsValue.label, hdata, hdata', reduceCtorEq] at h
  all_goals first
    | exact overrides_contactInfo hdata hdata' (by simpa using h)
    | simp [overrides, overridesByWallclock_iff, rank_lt, CrdsValue.outset, hdata, hdata']

def Crds.current (s : Crds H) (label : CrdsValueLabel) : Option CrdsValue :=
  (s.table label).map (·.value)

lemma Crds.insert_cases (hash : CrdsValue → H) (s : Crds H) (value : CrdsValue) (now : ℕ)
    (route : GossipRoute) :
    ∃ x, (s.insert hash value now route).1.table
        = Function.update s.table value.label (some x)
      ∧ ((s.table value.label = none ∨ ∃ e, s.table value.label = some e ∧ overrides hash value e)
          ∧ x.value = value
        ∨ ∃ e, s.table value.label = some e ∧ ¬ overrides hash value e
          ∧ (x = e ∨ hash e.value = hash value ∧ (∃ sender, route = .pushMessage sender)
            ∧ x = { e with numPushRecv := some (min (e.numPushRecv.getD 0 + 1) 255) })) := by
  rcases ht : s.table value.label with _ | e
  · exact ⟨.new value s.cursor now route, by simp only [insert, ht], .inl ⟨.inl rfl, rfl⟩⟩
  by_cases hover : overrides hash value e = true
  · exact ⟨.new value s.cursor now route, by simp only [insert, ht, hover, if_true],
      .inl ⟨.inr ⟨e, rfl, hover⟩, rfl⟩⟩
  by_cases hhash : hash e.value = hash value
  · cases route with
    | pushMessage sender =>
      exact ⟨{ e with numPushRecv := some (min (e.numPushRecv.getD 0 + 1) 255) },
        by simp [insert, ht, hover, hhash], .inr ⟨e, rfl, hover, .inr ⟨hhash, ⟨sender, rfl⟩, rfl⟩⟩⟩
    | localMessage | pullRequest | pullResponse =>
      exact ⟨e, by simp [insert, ht, hover, hhash], .inr ⟨e, rfl, hover, .inl rfl⟩⟩
  · exact ⟨e, by simp [insert, ht, hover, hhash], .inr ⟨e, rfl, hover, .inl rfl⟩⟩

variable (hash) in
/-- The table has the greatest of the values of each label. -/
def Newest (values : List CrdsValue) (s : Crds H) : Prop :=
  ∀ label,
    match s.current label with
    | none => ∀ v ∈ values, v.label ≠ label
    | some w => w ∈ values ∧ w.label = label
        ∧ ∀ v ∈ values, v.label = label → rank hash v ≤ rank hash w

lemma Newest.insert {values : List CrdsValue} {s : Crds H} (h : Newest hash values s)
    (value : CrdsValue) (now : ℕ) (route : GossipRoute) :
    Newest hash (values ++ [value]) (s.insert hash value now route).1 := by
  obtain ⟨x, htable, hcase⟩ := s.insert_cases hash value now route
  intro label
  have hl := h label
  rw [Crds.current, htable]
  by_cases hlabel : label = value.label
  · subst hlabel
    rw [Function.update_self, Option.map_some]
    rcases hcase with ⟨hold, hnew⟩ | ⟨e, he, hover, hsame⟩
    · rw [hnew]
      refine ⟨mem_concat_self, rfl,
        forall_mem_append.2 ⟨fun v hv hvl => ?_, forall_mem_singleton.2 fun _ => le_rfl⟩⟩
      rcases hold with hnone | ⟨e, he, hover⟩
      · rw [Crds.current, hnone] at hl
        exact absurd hvl (hl v hv)
      · rw [Crds.current, he] at hl
        obtain ⟨-, hel, hmax⟩ := hl
        exact (hmax v hv hvl).trans ((overrides_iff hel.symm).1 hover).le
    · have hvalue : x.value = e.value := by
        rcases hsame with rfl | ⟨-, -, rfl⟩ <;> rfl
      rw [Crds.current, he] at hl
      obtain ⟨hmem, hel, hmax⟩ := hl
      rw [overrides_iff hel.symm] at hover
      rw [hvalue]
      exact ⟨mem_append_left _ hmem, hel,
        forall_mem_append.2 ⟨hmax, forall_mem_singleton.2 fun _ => not_lt.1 hover⟩⟩
  · rw [Function.update_of_ne hlabel, ← Crds.current]
    rcases hc : s.current label with _ | w <;> rw [hc] at hl
    · exact forall_mem_append.2 ⟨hl, forall_mem_singleton.2 (Ne.symm hlabel)⟩
    · obtain ⟨hmem, hwl, hmax⟩ := hl
      exact ⟨mem_append_left _ hmem, hwl, forall_mem_append.2
        ⟨hmax, forall_mem_singleton.2 fun hvl => absurd hvl.symm hlabel⟩⟩

lemma newest_insertAll (arrivals : List Arrival) :
    Newest hash (arrivals.map (·.value)) ((Crds.empty H).insertAll hash arrivals) := by
  induction arrivals using reverseRecOn with
  | nil => exact fun label => forall_mem_nil _
  | append_singleton arrivals a ih =>
    rw [map_append, Crds.insertAll, foldl_append]
    exact ih.insert a.value a.now a.route

lemma Newest.current_iff {values : List CrdsValue} {s : Crds H} (h : Newest hash values s)
    (hinj : Function.Injective hash) {label : CrdsValueLabel} {w : CrdsValue} :
    s.current label = some w ↔ w ∈ values ∧ w.label = label
      ∧ ∀ v ∈ values, v.label = label → v ≠ w → rank hash v < rank hash w := by
  have hl := h label
  rcases hc : s.current label with _ | u <;> rw [hc] at hl
  · refine ⟨nofun, fun hw => absurd hw.2.1 (hl w hw.1)⟩
  · obtain ⟨hmem, hul, hmax⟩ := hl
    constructor
    · rintro ⟨⟩
      refine ⟨hmem, hul, fun v hv hvl hne => lt_of_le_of_ne (hmax v hv hvl) fun heq => ?_⟩
      exact hne (rank_injective hinj heq)
    · rintro ⟨hw, hwl, hgreatest⟩
      by_contra hne
      have hlt := hgreatest u hmem hul fun heq => hne (by rw [heq])
      exact absurd (hmax w hw hwl) (not_le.2 hlt)

/-- Tables in which the same values arrived, in any order, have under every label the same value, the
greatest one. A further arrival of one of them changes nothing but the count of pushes of the value
itself. -/
theorem crds_converge (hinj : Function.Injective hash) (arrivals arrivals' : List Arrival)
    (hperm : (arrivals.map (·.value)).Perm (arrivals'.map (·.value))) :
    let s := (Crds.empty H).insertAll hash arrivals
    let s' := (Crds.empty H).insertAll hash arrivals'
    (∀ label, s.current label = s'.current label)
    ∧ (∀ label w, s.current label = some w ↔ w ∈ arrivals.map (·.value) ∧ w.label = label
      ∧ ∀ v ∈ arrivals.map (·.value), v.label = label → v ≠ w → rank hash v < rank hash w)
    ∧ ∀ a : Arrival, a.value ∈ arrivals.map (·.value) → ∀ label,
      let t := (s.insert hash a.value a.now a.route).1
      t.table label = s.table label
        ∨ (∃ sender, a.route = .pushMessage sender) ∧ ∃ e, s.table label = some e
          ∧ e.value = a.value ∧ t.table label
            = some { e with numPushRecv := some (min (e.numPushRecv.getD 0 + 1) 255) } := by
  intro s s'
  have hs : Newest hash (arrivals.map (·.value)) s := newest_insertAll arrivals
  have hs' : Newest hash (arrivals'.map (·.value)) s' := newest_insertAll arrivals'
  refine ⟨fun label => Option.ext fun w => ?_, fun label w => hs.current_iff hinj,
    fun a ha label => ?_⟩
  · rw [hs.current_iff hinj, hs'.current_iff hinj]
    simp only [hperm.mem_iff]
  · obtain ⟨x, htable, hcase⟩ := s.insert_cases hash a.value a.now a.route
    dsimp only
    rw [htable]
    by_cases hlabel : label = a.value.label
    · have hl := hs label
      subst hlabel
      rw [Function.update_self]
      rcases hcase with ⟨hold, -⟩ | ⟨e, he, -, rfl | ⟨hhash, hroute, rfl⟩⟩
      · -- the value has arrived, so that it is not new and overrides nothing
        rcases hold with hnone | ⟨e, he, hover⟩
        · rw [Crds.current, hnone] at hl
          exact absurd rfl (hl a.value ha)
        · rw [Crds.current, he] at hl
          obtain ⟨-, hel, hmax⟩ := hl
          have hlt := (overrides_iff hel.symm).1 hover
          exact absurd (hmax a.value ha rfl) (not_le.2 hlt)
      · exact .inl he.symm
      · exact .inr ⟨hroute, e, he, hinj hhash, rfl⟩
    · exact .inl (Function.update_of_ne hlabel _ _)

end Table

/-- The fields of a value, as a hash without collisions. -/
def fields (v : CrdsValue) : List ℕ :=
  match v.data with
  | .lowestSlot r => [0, v.signature, r.sender, r.wallclock, r.body]
  | .vote index r => [1, v.signature, r.sender, r.wallclock, r.body, index]
  | .epochSlots index r => [2, v.signature, r.sender, r.wallclock, r.body, index]
  | .duplicateShred index r => [3, v.signature, r.sender, r.wallclock, r.body, index]
  | .snapshotHashes r => [4, v.signature, r.sender, r.wallclock, r.body]
  | .contactInfo node => [5, v.signature, node.pubkey, node.outset, node.wallclock, node.body]
  | .restartLastVotedForkSlots r => [6, v.signature, r.sender, r.wallclock, r.body]
  | .restartHeaviestFork r => [7, v.signature, r.sender, r.wallclock, r.body]

lemma fields_injective : Function.Injective fields := by
  rintro ⟨sig, data⟩ ⟨sig', data'⟩ h
  cases data <;> cases data' <;> simp_all [fields, CrdsRecord.ext_iff, ContactInfo.ext_iff]

def restarted : List Arrival :=
  [⟨⟨0, .contactInfo ⟨7, 10, 100, 0⟩⟩, 1, .pullResponse⟩,
    ⟨⟨0, .contactInfo ⟨7, 20, 50, 0⟩⟩, 2, .pushMessage 8⟩,
    ⟨⟨0, .vote 0 ⟨7, 60, 0⟩⟩, 3, .localMessage⟩]

theorem crds_converge_restarted :
    ((Crds.empty (List ℕ)).insertAll fields restarted).current (.contactInfo 7)
        = some ⟨0, .contactInfo ⟨7, 20, 50, 0⟩⟩
      ∧ ((Crds.empty (List ℕ)).insertAll fields restarted.reverse).current (.contactInfo 7)
        = some ⟨0, .contactInfo ⟨7, 20, 50, 0⟩⟩ := by
  obtain ⟨hsame, hgreatest, -⟩ := crds_converge fields_injective restarted restarted.reverse
    ((reverse_perm restarted).symm.map _)
  have hfirst := (hgreatest (.contactInfo 7) ⟨0, .contactInfo ⟨7, 20, 50, 0⟩⟩).2 (by decide)
  exact ⟨hfirst, (hsame _).symm.trans hfirst⟩

/-- A value pushed again changes the count in its entry. -/
theorem pushed_again_counted : let push : Arrival := ⟨⟨0, .vote 0 ⟨7, 60, 0⟩⟩, 1, .pushMessage 8⟩
    ((Crds.empty (List ℕ)).insertAll fields [push, push]).table (.vote 0 7)
      ≠ ((Crds.empty (List ℕ)).insertAll fields [push]).table (.vote 0 7) := by
  decide

end Gossip

end BlackBull
