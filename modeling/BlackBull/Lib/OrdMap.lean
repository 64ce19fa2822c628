import Mathlib

/-!
# Maps kept as lists sorted by key

A finite map over a linear order, as the strictly increasing list of its entries.
-/

namespace BlackBull

open List

/-- A finite map: its entries, in strictly increasing order of their keys. -/
structure OrdMap (κ : Type*) (ν : Type*) [LinearOrder κ] where
  entries : List (κ × ν)
  sorted : entries.Pairwise (·.1 < ·.1)

namespace OrdMap

variable {κ ν : Type*} [LinearOrder κ] {k : κ}

def lookup (k : κ) : List (κ × ν) → Option ν
  | [] => none
  | e :: l => if e.1 = k then some e.2 else lookup k l

def put (k : κ) (v : ν) : List (κ × ν) → List (κ × ν)
  | [] => [(k, v)]
  | e :: l => if k < e.1 then (k, v) :: e :: l
      else if e.1 = k then (k, v) :: l else e :: put k v l

theorem mem_put {v : ν} {e : κ × ν} :
    ∀ {l : List (κ × ν)}, e ∈ put k v l → e = (k, v) ∨ e ∈ l
  | [], h => by simpa [put] using h
  | e' :: l, h => by
    simp only [put] at h
    split_ifs at h
    · simpa using h
    · rcases mem_cons.1 h with h | h
      · exact .inl h
      · exact .inr (mem_cons_of_mem _ h)
    · rcases mem_cons.1 h with rfl | h
      · exact .inr mem_cons_self
      · rcases mem_put h with h | h
        · exact .inl h
        · exact .inr (mem_cons_of_mem _ h)

theorem put_sorted (k : κ) (v : ν) :
    ∀ {l : List (κ × ν)}, l.Pairwise (·.1 < ·.1) → (put k v l).Pairwise (·.1 < ·.1)
  | [], _ => by simp [put]
  | e :: l, h => by
    obtain ⟨h1, h2⟩ := pairwise_cons.1 h
    simp only [put]
    split_ifs with hlt heq
    · exact pairwise_cons.2 ⟨fun e' he' => by
        rcases mem_cons.1 he' with rfl | he'
        · exact hlt
        · exact hlt.trans (h1 e' he'), h⟩
    · exact pairwise_cons.2 ⟨fun e' he' => heq ▸ h1 e' he', h2⟩
    · refine pairwise_cons.2 ⟨fun e' he' => ?_, put_sorted k v h2⟩
      rcases mem_put he' with rfl | he'
      · exact lt_of_le_of_ne (not_lt.1 hlt) heq
      · exact h1 e' he'

theorem lookup_put (k k' : κ) (v : ν) :
    ∀ (l : List (κ × ν)), lookup k' (put k v l) = if k = k' then some v else lookup k' l
  | [] => by simp [put, lookup]
  | e :: l => by
    have ih := lookup_put k k' v l
    by_cases hlt : k < e.1
    · simp [put, lookup, hlt]
    · by_cases heq : e.1 = k
      · by_cases hk : k = k' <;> simp [put, lookup, heq, hk]
      · by_cases hk : k = k'
        · subst hk
          simp [put, lookup, hlt, heq, ih]
        · simp [put, lookup, hlt, heq, hk, ih]

theorem lookup_eq_none :
    ∀ {l : List (κ × ν)}, lookup k l = none ↔ ∀ e ∈ l, e.1 ≠ k
  | [] => by simp [lookup]
  | e :: l => by
    by_cases h : e.1 = k
    · simp [lookup, h]
    · simp [lookup, h, lookup_eq_none (l := l)]

theorem mem_iff_lookup {v : ν} :
    ∀ {l : List (κ × ν)}, l.Pairwise (·.1 < ·.1) → ((k, v) ∈ l ↔ lookup k l = some v)
  | [], _ => by simp [lookup]
  | e :: l, h => by
    obtain ⟨h1, h2⟩ := pairwise_cons.1 h
    by_cases hk : e.1 = k
    · simp only [mem_cons, lookup, hk, if_true, Option.some.injEq]
      constructor
      · rintro (rfl | hm)
        · rfl
        · exact absurd hk (h1 _ hm).ne
      · rintro rfl
        exact .inl (by rw [← hk])
    · simp only [mem_cons, lookup, hk, if_false]
      rw [← mem_iff_lookup h2]
      constructor
      · rintro (rfl | hm)
        · exact absurd rfl hk
        · exact hm
      · exact .inr

theorem lookup_filter (p : κ × ν → Bool) (k : κ) :
    ∀ {l : List (κ × ν)}, l.Pairwise (·.1 < ·.1) →
      lookup k (l.filter p) = (lookup k l).filter fun v => p (k, v)
  | [], _ => by simp [lookup]
  | e :: l, h => by
    obtain ⟨h1, h2⟩ := pairwise_cons.1 h
    have ih := lookup_filter p k h2
    by_cases hk : e.1 = k
    · have hnone : lookup k l = none :=
        lookup_eq_none.2 fun e' he' => by
          have := h1 e' he'
          rw [hk] at this
          exact this.ne'
      obtain ⟨k', v⟩ := e
      simp only at hk
      subst hk
      by_cases hp : p (k', v)
      · simp [hp, lookup, Option.filter]
      · rw [filter_cons_of_neg (by simpa using hp), ih, hnone]
        simp [lookup, hp, Option.filter]
    · by_cases hp : p e
      · simp [hp, lookup, hk, ih]
      · rw [filter_cons_of_neg (by simpa using hp), ih]
        simp [lookup, hk]

theorem eq_of_lookup :
    ∀ {l l' : List (κ × ν)}, l.Pairwise (·.1 < ·.1) → l'.Pairwise (·.1 < ·.1) →
      (∀ k, lookup k l = lookup k l') → l = l' := by
  intro l l' hl hl' h
  have hmem : ∀ e, e ∈ l ↔ e ∈ l' := fun e => by
    rw [mem_iff_lookup hl, mem_iff_lookup hl', h]
  have nodup : ∀ {m : List (κ × ν)}, m.Pairwise (·.1 < ·.1) → m.Nodup := fun hm =>
    hm.imp fun hlt heq => by rw [heq] at hlt; exact lt_irrefl _ hlt
  have hperm : l.Perm l' := (perm_ext_iff_of_nodup (nodup hl) (nodup hl')).2 hmem
  refine List.Perm.eq_of_pairwise ?_ hl hl' hperm
  intro a b _ _ hab hba
  exact absurd (hab.trans hba) (lt_irrefl _)

def empty : OrdMap κ ν := ⟨[], List.Pairwise.nil⟩

instance : EmptyCollection (OrdMap κ ν) := ⟨empty⟩

instance : Inhabited (OrdMap κ ν) := ⟨empty⟩

variable (m : OrdMap κ ν)

def get? (k : κ) : Option ν := lookup k m.entries

def insert (k : κ) (v : ν) : OrdMap κ ν := ⟨put k v m.entries, put_sorted k v m.sorted⟩

def retain (p : κ → ν → Bool) : OrdMap κ ν :=
  ⟨m.entries.filter fun e => p e.1 e.2, m.sorted.filter _⟩

def remove (k : κ) : OrdMap κ ν := m.retain fun k' _ => k' ≠ k

def modifyD (k : κ) (d : ν) (f : ν → ν) : OrdMap κ ν :=
  m.insert k (f ((m.get? k).getD d))

def keys : List κ := m.entries.map Prod.fst

def values : List ν := m.entries.map Prod.snd

def popFirst : OrdMap κ ν → Option (ν × OrdMap κ ν)
  | ⟨[], _⟩ => none
  | ⟨e :: l, h⟩ => some (e.2, ⟨l, h.of_cons⟩)

def contains (k : κ) : Bool := (m.get? k).isSome

@[simp] theorem get?_empty (k : κ) : (∅ : OrdMap κ ν).get? k = none := by
  change lookup k [] = none
  rw [lookup]

theorem get?_insert (k k' : κ) (v : ν) :
    (m.insert k v).get? k' = if k = k' then some v else m.get? k' :=
  lookup_put k k' v m.entries

@[simp] theorem get?_insert_self (k : κ) (v : ν) : (m.insert k v).get? k = some v := by
  simp [get?_insert]

theorem insert_ne_empty (k : κ) (v : ν) : m.insert k v ≠ ∅ := by
  intro hempty
  have hget := m.get?_insert_self k v
  rw [hempty] at hget
  cases hget

theorem get?_insert_ne {k' : κ} (h : k ≠ k') (v : ν) : (m.insert k v).get? k' = m.get? k' := by
  simp [get?_insert, h]

@[simp] theorem get?_retain (p : κ → ν → Bool) (k : κ) :
    (m.retain p).get? k = (m.get? k).filter (p k) :=
  lookup_filter (fun e => p e.1 e.2) k m.sorted

theorem get?_remove (k k' : κ) : (m.remove k).get? k' = if k = k' then none else m.get? k' := by
  unfold remove
  rw [get?_retain]
  split_ifs with h
  · subst h
    cases m.get? k <;> simp
  · cases m.get? k' <;> simp [Ne.symm h]

@[simp] theorem get?_remove_self (k : κ) : (m.remove k).get? k = none := by
  simp [get?_remove]

theorem keys_nodup : m.keys.Nodup :=
  (pairwise_map.2 m.sorted).imp fun h => h.ne

theorem entries_nodup : m.entries.Nodup :=
  m.keys_nodup.of_map _

theorem length_values : m.values.length = m.entries.length := length_map _

variable {m} {m' : OrdMap κ ν} {v : ν}

theorem mem_entries : (k, v) ∈ m.entries ↔ m.get? k = some v :=
  mem_iff_lookup m.sorted

theorem mem_keys : k ∈ m.keys ↔ ∃ v, m.get? k = some v := by
  simp [keys, mem_entries]

theorem mem_values : v ∈ m.values ↔ ∃ k, m.get? k = some v := by
  simp [values, mem_entries]

@[ext] theorem ext_get? (h : ∀ k, m.get? k = m'.get? k) : m = m' := by
  have := eq_of_lookup m.sorted m'.sorted h
  cases m
  cases m'
  simpa using this

theorem entries_eq_nil : m.entries = [] ↔ m = ∅ := by
  constructor
  · intro h
    cases m
    subst h
    rfl
  · rintro rfl
    rfl

theorem entries_insert (h : m.get? k = none) (v : ν) :
    (m.insert k v).entries.Perm ((k, v) :: m.entries) := by
  refine (perm_ext_iff_of_nodup (m.insert k v).entries_nodup
    (nodup_cons.2 ⟨fun hm => ?_, m.entries_nodup⟩)).2 fun ⟨k', v'⟩ => ?_
  · rw [mem_entries, h] at hm
    cases hm
  · rw [mem_entries, get?_insert, mem_cons, mem_entries]
    split_ifs with hk
    · subst hk
      rw [h]
      simp [eq_comm]
    · simp [Ne.symm hk]

theorem perm_insert (h : m.get? k = none) (v : ν) :
    (m.insert k v).values.Perm (v :: m.values) := (entries_insert h v).map Prod.snd

theorem put_of_lt (k : κ) (v : ν) :
    ∀ {l : List (κ × ν)}, (∀ e ∈ l, e.1 < k) → put k v l = l ++ [(k, v)]
  | [], _ => rfl
  | e :: l, h => by
    have he := h e mem_cons_self
    rw [put, if_neg he.not_gt, if_neg he.ne, put_of_lt k v fun e' he' => h e' (mem_cons_of_mem _ he')]
    rfl

theorem values_insert_of_lt (h : ∀ e ∈ m.entries, e.1 < k) (v : ν) :
    (m.insert k v).values = m.values ++ [v] := by
  show (put k v m.entries).map Prod.snd = _
  rw [put_of_lt k v h, map_append]
  rfl

theorem perm_remove (h : m.get? k = some v) : m.values.Perm (v :: (m.remove k).values) := by
  have heq : (m.remove k).insert k v = m := ext_get? fun k' => by
    rw [get?_insert, get?_remove]
    split_ifs with hk
    · rw [← hk, h]
    · rfl
  have hperm := perm_insert (m.get?_remove_self k) v
  rwa [heq] at hperm

theorem values_eq_nil : m.values = [] ↔ m = ∅ := by
  rw [values, map_eq_nil_iff, entries_eq_nil]

theorem values_of_isEmpty (h : m.entries.isEmpty) : m.values = [] :=
  map_eq_nil_iff.2 (isEmpty_iff.1 h)

theorem popFirst_eq_none : m.popFirst = none ↔ m = ∅ := by
  rcases m with ⟨_ | ⟨e, l⟩, h⟩
  · exact iff_of_true rfl rfl
  · exact iff_of_false nofun fun he => by cases entries_eq_nil.2 he

theorem popFirst_eq_some (h : m.popFirst = some (v, m')) :
    ∃ k, m.entries = (k, v) :: m'.entries := by
  rcases m with ⟨_ | ⟨e, l⟩, hm⟩ <;> cases h
  exact ⟨e.1, rfl⟩

theorem values_of_popFirst (h : m.popFirst = some (v, m')) : m.values = v :: m'.values := by
  obtain ⟨k, hk⟩ := popFirst_eq_some h
  exact congrArg (map Prod.snd) hk

def Keyed (f : ν → κ) (m : OrdMap κ ν) : Prop := ∀ e ∈ m.entries, e.1 = f e.2

namespace Keyed

variable {f : ν → κ} {w : ν}

theorem empty (f : ν → κ) : Keyed f ∅ := nofun

variable (hm : Keyed f m)
include hm

theorem get?_eq (hv : v ∈ m.values) : m.get? (f v) = some v := by
  obtain ⟨k, hk⟩ := OrdMap.mem_values.1 hv
  rwa [← hm (k, v) (mem_entries.2 hk)]

theorem get?_eq_none (h : ∀ w ∈ m.values, f w ≠ k) : m.get? k = none := by
  rcases hk : m.get? k with _ | w
  · rfl
  · exact absurd (hm (k, w) (mem_entries.2 hk)).symm (h w (OrdMap.mem_values.2 ⟨k, hk⟩))

theorem inj (hv : v ∈ m.values) (hw : w ∈ m.values) (h : f v = f w) : v = w := by
  have hget := hm.get?_eq hv
  rw [h, hm.get?_eq hw] at hget
  exact (Option.some.inj hget).symm

theorem insert (v : ν) : Keyed f (m.insert (f v) v) := by
  intro e he
  rcases mem_put he with rfl | he
  · rfl
  · exact hm e he

theorem remove (k : κ) : Keyed f (m.remove k) :=
  fun e he => hm e (mem_of_mem_filter he)

theorem popFirst (h : m.popFirst = some (v, m')) : Keyed f m' := by
  obtain ⟨k, hk⟩ := popFirst_eq_some h
  exact fun e he => hm e (hk ▸ mem_cons_of_mem _ he)

theorem sorted : m.values.Pairwise (f · < f ·) := by
  refine pairwise_map.2 (m.sorted.imp_of_mem fun he he' hlt => ?_)
  rwa [← hm _ he, ← hm _ he']

theorem head_le (hv : m.values.head? = some v) (hw : w ∈ m.values) : f v ≤ f w := by
  obtain ⟨l, hl⟩ := head?_eq_some_iff.1 hv
  have hs := hm.sorted
  rw [hl] at hs hw
  rcases mem_cons.1 hw with rfl | hw
  · exact le_rfl
  · exact (rel_of_pairwise_cons hs hw).le

end Keyed

end OrdMap

end BlackBull
