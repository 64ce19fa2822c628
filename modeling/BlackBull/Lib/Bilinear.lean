import Mathlib

/-!
# Linear signatures

A signature scheme in which the signature of a message is linear in the key, as in BLS.
-/

namespace BlackBull

open List

section Groups

variable {A B : Type} [DecidableEq A]

def pushGroup (a : A) (b : B) : List (A × List B) → List (A × List B)
  | [] => [(a, [b])]
  | (a', bs) :: groups =>
    if a' = a then (a', bs ++ [b]) :: groups else (a', bs) :: pushGroup a b groups

def groupPairs (l : List (A × B)) : List (A × List B) :=
  l.foldl (fun groups p => pushGroup p.1 p.2 groups) []

theorem ne_nil_of_mem_pushGroup {a : A} {b : B} {groups : List (A × List B)}
    (h : ∀ g ∈ groups, g.2 ≠ []) : ∀ g ∈ pushGroup a b groups, g.2 ≠ [] := by
  induction groups with
  | nil => simp [pushGroup]
  | cons g groups ih =>
    obtain ⟨hg, hgroups⟩ := forall_mem_cons.1 h
    rw [pushGroup]
    split_ifs
    · exact forall_mem_cons.2 ⟨by simp, hgroups⟩
    · exact forall_mem_cons.2 ⟨hg, ih hgroups⟩

theorem ne_nil_of_mem_groupPairs (l : List (A × B)) : ∀ g ∈ groupPairs l, g.2 ≠ [] :=
  foldlRecOn l _ (motive := fun groups : List (A × List B) => ∀ g ∈ groups, g.2 ≠ []) nofun
    fun _ h _ _ => ne_nil_of_mem_pushGroup h

variable {C : Type} [AddCommGroup B] [AddCommGroup C] (f : A → B →+ C)

theorem sum_pushGroup (a : A) (b : B) (groups : List (A × List B)) :
    ((pushGroup a b groups).map fun g => f g.1 g.2.sum).sum
      = (groups.map fun g => f g.1 g.2.sum).sum + f a b := by
  induction groups with
  | nil => simp [pushGroup]
  | cons g groups ih =>
    rw [pushGroup]
    split_ifs with h
    · simp only [map_cons, sum_cons, sum_append, sum_nil, map_add, add_zero, h]
      abel
    · simp only [map_cons, sum_cons, ih]
      abel

/-- A sum of linear terms may be taken group by group. -/
theorem sum_groupPairs (l : List (A × B)) :
    ((groupPairs l).map fun g => f g.1 g.2.sum).sum = (l.map fun p => f p.1 p.2).sum := by
  induction l using reverseRecOn with
  | nil => rfl
  | append_singleton l p ih =>
    rw [groupPairs, foldl_append]
    show ((pushGroup p.1 p.2 (groupPairs l)).map _).sum = _
    rw [sum_pushGroup, ih]
    simp

end Groups

/-- `sign m k` is the signature of the message `m` under the key `k`: the key times the hash of the
message, with keys and signatures in the same scale. -/
structure LinearScheme (Key Msg Sig : Type) [AddCommGroup Key] [AddCommGroup Sig] where
  sign : Msg → Key →+ Sig

namespace LinearScheme

variable {Key Msg Sig : Type} [AddCommGroup Key] [AddCommGroup Sig]
  (scheme : LinearScheme Key Msg Sig)

def error (key : Key) (msg : Msg) (sig : Sig) : Sig := sig - scheme.sign msg key

theorem sum_eq_iff_error {α : Type} (key : α → Key) (msg : α → Msg) (sig : α → Sig) (l : List α) :
    (l.map sig).sum = (l.map fun a => scheme.sign (msg a) (key a)).sum
      ↔ (l.map fun a => scheme.error (key a) (msg a) (sig a)).sum = 0 := by
  have h : (l.map fun a => scheme.error (key a) (msg a) (sig a)).sum
      = (l.map sig).sum - (l.map fun a => scheme.sign (msg a) (key a)).sum := by
    induction l with
    | nil => simp
    | cons a l ih =>
      rw [map_cons, sum_cons, ih, map_cons, sum_cons, map_cons,
        sum_cons, error]
      abel
  rw [h, sub_eq_zero]

end LinearScheme

end BlackBull
