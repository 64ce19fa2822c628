import Mathlib

/-!
# Pre- and postconditions of computations with a state

`Ensures P x Q` says that from a state with `P` the computation `x` gives a result and leaves a
state with `Q`.
-/

namespace BlackBull

variable {σ α β ε : Type}

/-- From a state with `P` the computation gives a result and a state with `Q`. -/
def Ensures (P : σ → Prop) (x : StateM σ α) (Q : α → σ → Prop) : Prop :=
  ∀ s, P s → Q (x s).1 (x s).2

def onResult (Q : α → σ → Prop) (E : ε → σ → Prop) : Except ε α → σ → Prop
  | .ok a => Q a
  | .error e => E e

/-- From related states `x` gives the same and leaves related states. -/
def Respects (R : σ → σ → Prop) (x : StateM σ α) : Prop :=
  ∀ s t, R s t → (x s).1 = (x t).1 ∧ R (x s).2 (x t).2

/-- From a state with `P` the computation gives a result and a state with `Q`, and from a state that
`S` relates to it the same result and a related state. -/
def Determines (S : σ → σ → Prop) (P : σ → Prop) (x : StateM σ α) (Q : α → σ → Prop) : Prop :=
  ∀ s t, P s → S s t → (x s).1 = (x t).1 ∧ Q (x s).1 (x s).2 ∧ S (x s).2 (x t).2

variable {S : σ → σ → Prop} {P : σ → Prop} {Q : α → σ → Prop} {R : β → σ → Prop} {E : ε → σ → Prop}
  {x : StateM σ α} {f : α → StateM σ β}

namespace Ensures

protected theorem pure {a : α} (h : ∀ s, P s → Q a s) : Ensures P (pure a) Q := h

protected theorem bind (hx : Ensures P x Q) (hf : ∀ a, Ensures (Q a) (f a) R) :
    Ensures P (x >>= f) R :=
  fun s hs => hf _ _ (hx s hs)

theorem mono {Q' : α → σ → Prop} (hx : Ensures P x Q) (h : ∀ a s, Q a s → Q' a s) :
    Ensures P x Q' :=
  fun s hs => h _ _ (hx s hs)

protected theorem mapM (hf : ∀ a, Ensures P (f a) fun _ => P) :
    ∀ as : List α, Ensures P (as.mapM f) fun _ => P
  | [] => Ensures.pure fun _ hs => hs
  | a :: as => by
    rw [List.mapM_cons]
    exact (hf a).bind fun _ => (Ensures.mapM hf as).bind fun _ => Ensures.pure fun _ hs => hs

protected theorem run_bind {x : ExceptT ε (StateM σ) α} {f : α → ExceptT ε (StateM σ) β}
    (hx : Ensures P x.run (onResult Q E)) (hf : ∀ a, Ensures (Q a) (f a).run (onResult R E)) :
    Ensures P (x >>= f).run (onResult R E) := by
  rw [ExceptT.run_bind]
  refine hx.bind fun r => ?_
  cases r with
  | error e => exact fun _ h => h
  | ok a => exact hf a

protected theorem lift (hx : Ensures P x Q) :
    Ensures P (ExceptT.lift x : ExceptT ε (StateM σ) α).run (onResult Q E) := hx

end Ensures

namespace Respects

protected theorem pure (a : α) : Respects S (pure a) := fun _ _ h => ⟨rfl, h⟩

protected theorem bind (hx : Respects S x) (hf : ∀ a, Respects S (f a)) : Respects S (x >>= f) := by
  intro s t h
  obtain ⟨hval, hst⟩ := hx s t h
  show (f (x s).1 (x s).2).1 = (f (x t).1 (x t).2).1
    ∧ S (f (x s).1 (x s).2).2 (f (x t).1 (x t).2).2
  rw [← hval]
  exact hf _ _ _ hst

end Respects

namespace Determines

theorem mono {Q' : α → σ → Prop} (hx : Determines S P x Q) (h : ∀ a s, Q a s → Q' a s) :
    Determines S P x Q' := by
  intro s t hs hst
  obtain ⟨hval, hQ, hS⟩ := hx s t hs hst
  exact ⟨hval, h _ _ hQ, hS⟩

protected theorem bind (hx : Determines S P x Q) (hf : ∀ a, Determines S (Q a) (f a) R) :
    Determines S P (x >>= f) R := by
  intro s t hs hst
  obtain ⟨hval, hQ, hS⟩ := hx s t hs hst
  show (f (x s).1 (x s).2).1 = (f (x t).1 (x t).2).1 ∧ R (f (x s).1 (x s).2).1 (f (x s).1 (x s).2).2
    ∧ S (f (x s).1 (x s).2).2 (f (x t).1 (x t).2).2
  rw [← hval]
  exact hf _ _ _ hQ hS

protected theorem run_pure {a : α} (h : ∀ s, P s → Q a s) :
    Determines S P (pure a : ExceptT ε (StateM σ) α).run (onResult Q E) :=
  fun s _ hs hst => ⟨rfl, h s hs, hst⟩

protected theorem throw {e : ε} (h : ∀ s, P s → E e s) :
    Determines S P (throw e : ExceptT ε (StateM σ) α).run (onResult Q E) :=
  fun s _ hs hst => ⟨rfl, h s hs, hst⟩

protected theorem run_bind {x : ExceptT ε (StateM σ) α} {f : α → ExceptT ε (StateM σ) β}
    (hx : Determines S P x.run (onResult Q E))
    (hf : ∀ a, Determines S (Q a) (f a).run (onResult R E)) :
    Determines S P (x >>= f).run (onResult R E) := by
  rw [ExceptT.run_bind]
  refine hx.bind fun r => ?_
  cases r with
  | error e => exact fun _ _ h hst => ⟨rfl, h, hst⟩
  | ok a => exact hf a

protected theorem map_get {f : σ → α} (h : ∀ s, P s → Q (f s) s) (hf : ∀ s t, S s t → f s = f t) :
    Determines S P (f <$> get : ExceptT ε (StateM σ) α).run (onResult Q E) :=
  fun s t hs hst => ⟨congrArg Except.ok (hf s t hst), h s hs, hst⟩

protected theorem forM {I : List α → σ → Prop} {g : α → ExceptT ε (StateM σ) PUnit} {as : List α}
    (h : ∀ done a, Determines S (I done) (g a).run (onResult (fun _ => I (done ++ [a])) E)) :
    Determines S (I []) (as.forM g).run (onResult (fun _ => I as) E) := by
  suffices hall : ∀ todo done, done ++ todo = as →
      Determines S (I done) (todo.forM g).run (onResult (fun _ => I as) E) from hall as [] rfl
  intro todo
  induction todo with
  | nil =>
    intro done hdone
    rw [List.append_nil] at hdone
    subst hdone
    exact Determines.run_pure fun _ hs => hs
  | cons a todo ih =>
    intro done hdone
    exact (h done a).run_bind fun _ => ih (done ++ [a]) (by simpa using hdone)

end Determines

end BlackBull
