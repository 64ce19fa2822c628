import BlackBull.Lib.Ancestry
import BlackBull.ProgramRuntime.LoadedPrograms

/-!
# Which forks the entries of the program cache are from

`extract` and `prune` take every entry that was deployed at or below the latest root for one of the
rooted path.
-/

namespace BlackBull.ProgramRuntime

open List ProgramCache

variable {κ ε : Type} [DecidableEq κ] [DecidableEq ε] {parent : Slot → Option Slot}
  {c : ProgramCache κ ε} {e : ProgramCacheEntry ε} {rel : Slot → Slot → BlockRelation} {env : ε}

/-- The banks and descendants that a fork graph has are those of the tree. -/
structure Reflects (parent : Slot → Option Slot) (forks : BankForks) : Prop where
  banks : ∀ b ancestors, forks.banks b = some ancestors → ∀ a ∈ ancestors, Ancestor parent a b
  descendants : ∀ b, ∀ a ∈ forks.descendants b, Ancestor parent b a

lemma Reflects.relationship {forks : BankForks} (h : Reflects parent forks) (a b : Slot) :
    (forks.relationship a b = .equal → a = b)
    ∧ (forks.relationship a b = .ancestor → Ancestor parent a b)
    ∧ (forks.relationship a b = .descendant → Ancestor parent b a) := by
  unfold BankForks.relationship
  split_ifs with hknown heq hanc hdesc
  · exact ⟨fun _ => heq, nofun, nofun⟩
  · refine ⟨nofun, fun _ => ?_, nofun⟩
    obtain ⟨ancestors, hbank, hmem⟩ := (Option.any_eq_true _ _).1 hanc
    exact h.banks b ancestors hbank a (of_decide_eq_true hmem)
  · exact ⟨nofun, nofun, fun _ => h.descendants b a hdesc⟩
  · exact ⟨nofun, nofun, nofun⟩
  · exact ⟨nofun, nofun, nofun⟩

namespace ProgramCache

omit [DecidableEq κ] in
lemma mem_insertVersion {entry : ProgramCacheEntry ε}
    {versions versions' : List (ProgramCacheEntry ε)}
    (h : insertVersion env entry versions = some versions') (he : e ∈ versions') :
    e ∈ versions ∨ e = entry := by
  unfold insertVersion at h
  split at h
  · split_ifs at h
    cases h
    exact mem_or_eq_of_mem_set he
  · cases h
    exact (eq_or_mem_of_mem_insertIdx he).symm

lemma mem_assignProgram {key k : κ} {entry : ProgramCacheEntry ε}
    (h : e ∈ (c.assignProgram env key entry).1.entries k) :
    e ∈ c.entries k ∨ e = entry := by
  unfold assignProgram at h
  split at h
  · exact .inl h
  · next versions hversions =>
    dsimp only at h
    by_cases hk : k = key
    · subst hk
      rw [Function.update_self] at h
      exact mem_insertVersion hversions (mem_filter.1 h).1
    · rw [Function.update_of_ne hk] at h
      exact .inl h

lemma mem_pruneEntries {newRoot root : Slot} {found : Option (Option ε)}
    {entries : List (ProgramCacheEntry ε)} (h : e ∈ pruneEntries rel newRoot root found entries) :
    e ∈ entries
    ∧ (newRoot ≤ e.deploymentSlot
        ∧ (rel e.deploymentSlot newRoot = .equal ∨ rel e.deploymentSlot newRoot = .descendant)
      ∨ e.deploymentSlot < newRoot
        ∧ (rel e.deploymentSlot newRoot = .ancestor ∨ e.deploymentSlot ≤ root)) := by
  fun_induction pruneEntries rel newRoot root found entries with
  | case1 => cases h
  | case2 found entry entries relation hge hrel ih =>
    rcases mem_cons.1 h with rfl | h
    · exact ⟨mem_cons_self, .inl ⟨hge, hrel⟩⟩
    · exact ⟨mem_cons_of_mem _ (ih h).1, (ih h).2⟩
  | case4 entry entries relation hge hrel ih | case5 entry entries relation hge hrel env hdiffer ih =>
    rcases mem_cons.1 h with rfl | h
    · exact ⟨mem_cons_self, .inr ⟨Nat.lt_of_not_le hge, hrel⟩⟩
    · exact ⟨mem_cons_of_mem _ (ih h).1, (ih h).2⟩
  | case3 found entry entries relation hge hrel ih
  | case6 entry entries relation hge hrel env hdiffer ih
  | case7 found entry entries relation hge hrel ih =>
    exact ⟨mem_cons_of_mem _ (ih h).1, (ih h).2⟩

lemma searchVersions_some {latestRoot slot : Slot} {criteria : ProgramCacheMatchCriteria}
    {filter : Option Slot} {entries : List (ProgramCacheEntry ε)}
    (h : searchVersions latestRoot rel slot env criteria filter entries = some e) :
    ∃ entry ∈ entries, e.deploymentSlot = entry.deploymentSlot
      ∧ (entry.deploymentSlot ≤ latestRoot ∨ rel entry.deploymentSlot slot = .equal
        ∨ rel entry.deploymentSlot slot = .ancestor) := by
  induction entries generalizing filter with
  | nil => cases h
  | cons entry entries ih =>
    unfold searchVersions at h
    split_ifs at h with hfilter hbranch
    rotate_left 2
    · cases h
      exact ⟨_, mem_cons_self, rfl, hbranch⟩
    · cases h
      exact ⟨_, mem_cons_self, rfl, hbranch⟩
    -- the entry is passed over
    all_goals
      obtain ⟨entry', hmem, hentry'⟩ := ih h
      exact ⟨entry', mem_cons_of_mem _ hmem, hentry'⟩

/-- Extraction leaves the entries, and those it finds have `P`. -/
structure ExtractsFrom (c : ProgramCache κ ε) (slot : Slot) (P : ProgramCacheEntry ε → Prop)
    (x : Extraction κ ε) : Prop where
  entries : x.cache.entries = c.entries
  latestRootSlot : x.cache.latestRootSlot = c.latestRootSlot
  slot : x.batch.slot = slot
  found : ∀ key entry, x.batch.entries key = some entry → P entry

lemma ExtractsFrom.one {slot : Slot} {P : ProgramCacheEntry ε → Prop} {x : Extraction κ ε}
    {thread : ℕ} (h : ExtractsFrom c slot P x)
    (hfound : ∀ key criteria entry, searchVersions c.latestRootSlot rel slot env criteria none
      (c.entries key).reverse = some entry → P entry) (search : κ × ProgramCacheMatchCriteria) :
    ExtractsFrom c slot P (extractOne rel thread env x search) := by
  unfold extractOne
  split
  · next entry hentry =>
    rw [h.entries, h.latestRootSlot, h.slot] at hentry
    refine ⟨h.entries, h.latestRootSlot, h.slot, fun key entry' hkey => ?_⟩
    dsimp only at hkey
    by_cases heq : key = search.1
    · subst heq
      rw [Function.update_self] at hkey
      cases hkey
      exact hfound _ _ _ hentry
    · rw [Function.update_of_ne heq] at hkey
      exact h.found key entry' hkey
  · split_ifs <;> exact { h with }

lemma extractsFrom_extract (c : ProgramCache κ ε) (slot : Slot)
    {P : ProgramCacheEntry ε → Prop} (thread : ℕ)
    (hfound : ∀ key criteria entry, searchVersions c.latestRootSlot rel slot env criteria none
      (c.entries key).reverse = some entry → P entry)
    (searchFor : List (κ × ProgramCacheMatchCriteria)) :
    ExtractsFrom c slot P (c.extract searchFor ⟨fun _ => none, slot⟩ rel thread env) :=
  foldlRecOn searchFor _ ⟨rfl, rfl, rfl, nofun⟩ fun _ hx search _ => hx.one hfound search

end ProgramCache

/-- A call as banks make it: a bank loads and modifies programs that were deployed on its own fork,
and the root moves down the tree. -/
def Legal (parent : Slot → Option Slot) (c : ProgramCache κ ε) : CacheOp κ ε → Prop
  | .assign bank _ _ entry | .finish bank _ _ entry => Ancestor parent entry.deploymentSlot bank
  | .prune newRootSlot _ forks =>
    Ancestor parent c.latestRootSlot newRootSlot ∧ Reflects parent forks
  | .pruneByDeploymentSlot _ => True
  | .extract _ _ forks _ _ => Reflects parent forks

/-- The entry that is inserted is newer than the root, or was deployed on the rooted path. -/
def Timely (parent : Slot → Option Slot) (c : ProgramCache κ ε) : CacheOp κ ε → Prop
  | .assign _ _ _ entry =>
    c.latestRootSlot < entry.deploymentSlot ∨ Ancestor parent entry.deploymentSlot c.latestRootSlot
  | .finish _ _ _ entry =>
    c.latestRootSlot < entry.deploymentSlot ∨ Ancestor parent entry.deploymentSlot c.latestRootSlot
  | _ => True

/-- Runs of operations that each have `P` when they are applied. -/
inductive Runs (P : ProgramCache κ ε → CacheOp κ ε → Prop) :
    ProgramCache κ ε → List (CacheOp κ ε) → ProgramCache κ ε → Prop
  | nil (c : ProgramCache κ ε) : Runs P c [] c
  | cons {c c' : ProgramCache κ ε} {op : CacheOp κ ε} {ops : List (CacheOp κ ε)} (h : P c op)
    (hrest : Runs P (c.apply op) ops c') : Runs P c (op :: ops) c'

/-- Entries deployed up to the root are deployed on its path. -/
def OnRootedPath (parent : Slot → Option Slot) (c : ProgramCache κ ε) : Prop :=
  ∀ key, ∀ e ∈ c.entries key, e.deploymentSlot ≤ c.latestRootSlot →
    Ancestor parent e.deploymentSlot c.latestRootSlot

lemma OnRootedPath.assign (h : OnRootedPath parent c) {key : κ}
    {entry : ProgramCacheEntry ε} (htimely : c.latestRootSlot < entry.deploymentSlot
      ∨ Ancestor parent entry.deploymentSlot c.latestRootSlot) :
    OnRootedPath parent (c.assignProgram env key entry).1 := by
  intro k e he hle
  have hroot : (c.assignProgram env key entry).1.latestRootSlot = c.latestRootSlot := by
    unfold assignProgram
    split <;> rfl
  rw [hroot] at hle ⊢
  rcases mem_assignProgram he with he | rfl
  · exact h k e he hle
  · rcases htimely with hlt | hanc
    · exact absurd hle (Nat.not_le.2 hlt)
    · exact hanc

omit [DecidableEq κ] in
theorem OnRootedPath.prune (h : OnRootedPath parent c) {newRoot : Slot} {env : Option ε}
    {forks : BankForks} (hroot : Ancestor parent c.latestRootSlot newRoot)
    (hforks : Reflects parent forks) :
    OnRootedPath parent (c.prune newRoot env forks.relationship) := by
  intro key e he hle
  obtain ⟨hmem, hkept⟩ :=
    mem_pruneEntries (mem_filter.1 (mem_reverse.1 he)).1
  have hmem := mem_reverse.1 hmem
  obtain ⟨hequal, hancestor, hdescendant⟩ := hforks.relationship e.deploymentSlot newRoot
  rcases hkept with ⟨hge, -⟩ | ⟨-, hrel | hold⟩
  · rw [Nat.le_antisymm hle hge]
    exact .refl _
  · exact hancestor hrel
  · exact (h key e hmem hold).trans hroot

lemma OnRootedPath.apply (h : OnRootedPath parent c) {op : CacheOp κ ε}
    (hlegal : Legal parent c op) (htimely : Timely parent c op) :
    OnRootedPath parent (c.apply op) := by
  cases op with
  | assign bank env key entry => exact h.assign htimely
  | finish bank env key entry =>
    exact @OnRootedPath.assign _ _ _ _ _
      { c with loadingEntries := Function.update c.loadingEntries key none } _ h _ _ htimely
  | prune newRoot env forks => exact h.prune hlegal.1 hlegal.2
  | pruneByDeploymentSlot slot =>
    exact fun key e he hle => h key e (mem_filter.1 he).1 hle
  | extract bank searchFor forks thread env =>
    have hsame := @extractsFrom_extract _ _ _ _ forks.relationship env c bank
      (fun _ => True) thread (fun _ _ _ _ => trivial) searchFor
    intro key e he hle
    have he' : e ∈ c.entries key := hsame.entries ▸ he
    have hle' : e.deploymentSlot ≤ c.latestRootSlot := hsame.latestRootSlot ▸ hle
    show Ancestor parent _ (ProgramCache.Extraction.cache _).latestRootSlot
    rw [hsame.latestRootSlot]
    exact h key e he' hle'

lemma OnRootedPath.runs {c' : ProgramCache κ ε} {ops : List (CacheOp κ ε)}
    (h : OnRootedPath parent c)
    (hrun : Runs (fun c op => Legal parent c op ∧ Timely parent c op) c ops c') :
    OnRootedPath parent c' := by
  induction hrun with
  | nil => exact h
  | cons hop _ ih => exact ih (h.apply hop.1 hop.2)

/-- Where every entry that is inserted is newer than the root or from the rooted path, a batch is
given entries of its own fork only. -/
theorem extract_onFork (parent : Slot → Option Slot) (root : Slot) (ops : List (CacheOp κ ε))
    (c : ProgramCache κ ε)
    (hrun : Runs (fun c op => Legal parent c op ∧ Timely parent c op) (ProgramCache.new root) ops c)
    (slot : Slot) (hslot : Ancestor parent c.latestRootSlot slot) (forks : BankForks)
    (hforks : Reflects parent forks) (searchFor : List (κ × ProgramCacheMatchCriteria)) (thread : ℕ)
    (env : ε) (key : κ) (entry : ProgramCacheEntry ε)
    (h : (c.extract searchFor ⟨fun _ => none, slot⟩ forks.relationship thread env).batch.entries key
      = some entry) : Ancestor parent entry.deploymentSlot slot := by
  have hinv : OnRootedPath parent c :=
    OnRootedPath.runs (c := ProgramCache.new root) nofun hrun
  refine (@extractsFrom_extract _ _ _ _ forks.relationship env c slot
    (fun e => Ancestor parent e.deploymentSlot slot) thread
    (fun key criteria e he => ?_) searchFor).found key entry h
  obtain ⟨e', hmem, hsame, hbranch⟩ := searchVersions_some he
  obtain ⟨hequal, hancestor, -⟩ := hforks.relationship e'.deploymentSlot slot
  rw [hsame]
  rcases hbranch with hold | hrel | hrel
  · exact (hinv key e' (mem_reverse.1 hmem) hold).trans hslot
  · rw [hequal hrel]
    exact .refl slot
  · exact hancestor hrel

/-! Slots 1 and 2 are children of slot 0, slot 3 is one of slot 1, and slot 4 one of slot 2. -/

def twoForks : Slot → Option Slot
  | 1 => some 0
  | 2 => some 0
  | 3 => some 1
  | 4 => some 2
  | _ => none

def forksBefore : BankForks where
  root := 0
  highestSlot := 4
  banks
    | 0 => some [0]
    | 1 => some [1, 0]
    | 2 => some [2, 0]
    | 3 => some [3, 1, 0]
    | 4 => some [4, 2, 0]
    | _ => none
  descendants
    | 0 => [1, 2, 3, 4]
    | 1 => [3]
    | 2 => [4]
    | _ => []

def forksAfter : BankForks where
  root := 2
  highestSlot := 4
  banks
    | 2 => some [2]
    | 4 => some [4, 2]
    | _ => none
  descendants
    | 2 => [4]
    | _ => []

lemma ancestor_zero_two : Ancestor twoForks 0 2 := .single rfl

lemma ancestor_one_three : Ancestor twoForks 1 3 := .single rfl

lemma ancestor_two_four : Ancestor twoForks 2 4 := .single rfl

lemma not_ancestor_one_four : ¬ Ancestor twoForks 1 4 := by
  intro h
  rcases h.cases_parent with h | ⟨p, hp, h⟩
  · cases h
  · cases hp
    rcases h.cases_parent with h | ⟨p, hp, h⟩
    · cases h
    · cases hp
      rcases h.cases_parent with h | ⟨p, hp, h⟩
      · cases h
      · cases hp

lemma reflects_forksBefore : Reflects twoForks forksBefore := by
  have h01 : Ancestor twoForks 0 1 := .single rfl
  have h03 : Ancestor twoForks 0 3 := h01.trans ancestor_one_three
  have h04 : Ancestor twoForks 0 4 := ancestor_zero_two.trans ancestor_two_four
  refine ⟨fun b ancestors hb a ha => ?_, fun b a ha => ?_⟩
  · rcases b with _ | _ | _ | _ | _ | b
    all_goals cases hb
    all_goals simp at ha
    · rw [ha]
      exact .refl 0
    · rcases ha with rfl | rfl
      exacts [.refl _, h01]
    · rcases ha with rfl | rfl
      exacts [.refl _, ancestor_zero_two]
    · rcases ha with rfl | rfl | rfl
      exacts [.refl _, ancestor_one_three, h03]
    · rcases ha with rfl | rfl | rfl
      exacts [.refl _, ancestor_two_four, h04]
  · rcases b with _ | _ | _ | b
    · simp only [forksBefore, mem_cons, not_mem_nil, or_false] at ha
      rcases ha with rfl | rfl | rfl | rfl
      exacts [h01, ancestor_zero_two, h03, h04]
    · exact mem_singleton.1 ha ▸ ancestor_one_three
    · exact mem_singleton.1 ha ▸ ancestor_two_four
    · cases ha

lemma reflects_forksAfter : Reflects twoForks forksAfter := by
  refine ⟨fun b ancestors hb a ha => ?_, fun b a ha => ?_⟩
  · rcases b with _ | _ | _ | _ | _ | b
    all_goals cases hb
    · exact mem_singleton.1 ha ▸ .refl 2
    · simp at ha
      rcases ha with rfl | rfl
      exacts [.refl _, ancestor_two_four]
  · rcases b with _ | _ | _ | b
    · cases ha
    · cases ha
    · exact mem_singleton.1 ha ▸ ancestor_two_four
    · cases ha

def deployedInOne : ProgramCacheEntry Unit := ⟨.loaded (), .loaderV3, 1, 2⟩

def lateLoad : List (CacheOp Unit Unit) :=
  [.extract 3 [((), .noCriteria)] forksBefore 0 (), .prune 2 none forksBefore,
    .finish 3 () () deployedInOne]

/-- A batch of slot 4 is then given the program of the abandoned fork. -/
theorem extract_lateLoad :
    ∃ c : ProgramCache Unit Unit, Runs (Legal twoForks) (ProgramCache.new 0) lateLoad c
      ∧ Reflects twoForks forksAfter ∧ Ancestor twoForks c.latestRootSlot 4
      ∧ (c.extract [((), .noCriteria)] ⟨fun _ => none, 4⟩ forksAfter.relationship 1 ()).batch.entries ()
        = some deployedInOne
      ∧ ¬ Ancestor twoForks deployedInOne.deploymentSlot 4 :=
  ⟨_, .cons reflects_forksBefore (.cons ⟨ancestor_zero_two, reflects_forksBefore⟩
      (.cons ancestor_one_three (.nil _))),
    reflects_forksAfter, ancestor_two_four, by decide, not_ancestor_one_four⟩

/-- A program of the new root that is loaded for slot 4. -/
theorem extract_onFork_slotTwo :
    Ancestor twoForks (⟨.loaded (), .loaderV3, 2, 3⟩ : ProgramCacheEntry Unit).deploymentSlot 4 :=
  extract_onFork (κ := Unit) twoForks 0
    [.prune 2 none forksBefore, .finish 4 () () ⟨.loaded (), .loaderV3, 2, 3⟩] _
    (.cons ⟨⟨ancestor_zero_two, reflects_forksBefore⟩, trivial⟩
      (.cons ⟨ancestor_two_four, .inr (.refl 2)⟩ (.nil _)))
    4 ancestor_two_four forksAfter reflects_forksAfter [((), .noCriteria)] 0 () () _ (by decide)

end BlackBull.ProgramRuntime
