import Mathlib

/-!
# Pre- and postconditions of stateful commands that may stop

A command takes a state to a result and a new state, or stops with an error and the state it stopped
in.
-/

namespace BlackBull

variable {ε σ α β : Type}

/-- From a state with `P` the command ends with `Q`, or stops with `E`. -/
def Triple (P : σ → Prop) (x : EStateM ε σ α) (Q : α → σ → Prop) (E : ε → σ → Prop) : Prop :=
  ∀ s, P s → match x s with
    | .ok a s' => Q a s'
    | .error e s' => E e s'

namespace Triple

variable {P P' : σ → Prop} {Q Q' : α → σ → Prop} {R : β → σ → Prop} {E : ε → σ → Prop}
  {x : EStateM ε σ α} {f : α → EStateM ε σ β}

theorem conseq (h : Triple P' x Q' E) (hP : ∀ s, P s → P' s) (hQ : ∀ a s, Q' a s → Q a s) :
    Triple P x Q E := by
  intro s hs
  have := h s (hP s hs)
  cases hx : x s with
  | ok a s' =>
    rw [hx] at this
    exact hQ a s' this
  | error e s' =>
    rw [hx] at this
    exact this

theorem conseq_error {E' : ε → σ → Prop} (h : Triple P x Q E') (hE : ∀ e s, E' e s → E e s) :
    Triple P x Q E := by
  intro s hs
  have := h s hs
  split at this
  · exact this
  · exact hE _ _ this

theorem pure {a : α} (h : ∀ s, P s → Q a s) : Triple P (Pure.pure a) Q E := h

theorem bind (hx : Triple P x Q E) (hf : ∀ a, Triple (Q a) (f a) R E) : Triple P (x >>= f) R E := by
  intro s hs
  have h := hx s hs
  show match EStateM.bind x f s with
    | .ok a s' => R a s'
    | .error e s' => E e s'
  unfold EStateM.bind
  cases hxs : x s with
  | ok a s' =>
    rw [hxs] at h
    exact hf a s' h
  | error e s' =>
    rw [hxs] at h
    exact h

/-- Reading the state fixes it for the commands that follow. -/
theorem get_bind {g : σ → EStateM ε σ β} (h : ∀ s0, P s0 → Triple (· = s0) (g s0) R E) :
    Triple P (MonadState.get >>= g) R E :=
  fun s hs => h s hs s rfl

theorem modify {g : σ → σ} {S : Unit → σ → Prop} (h : ∀ s, P s → S () (g s)) :
    Triple P (modify g : EStateM ε σ PUnit) S E := h

theorem throw {e : ε} (h : ∀ s, P s → E e s) : Triple P (throw e : EStateM ε σ α) Q E := h

theorem ite {c : Prop} [Decidable c] {y : EStateM ε σ α} (h1 : c → Triple P x Q E)
    (h2 : ¬ c → Triple P y Q E) : Triple P (if c then x else y) Q E := by
  split_ifs with h
  · exact h1 h
  · exact h2 h

/-- The loop rule: the invariant may mention the elements the loop is through with. -/
theorem forM {I : List β → σ → Prop} {g : β → EStateM ε σ PUnit} {bs : List β}
    (h : ∀ done b, b ∈ bs → Triple (I done) (g b) (fun _ => I (done ++ [b])) E) :
    Triple (I []) (bs.forM g) (fun _ => I bs) E := by
  suffices ∀ todo done, done ++ todo = bs →
      Triple (I done) (todo.forM g) (fun _ => I (done ++ todo)) E from this bs [] rfl
  intro todo
  induction todo with
  | nil =>
    intro done _
    rw [List.append_nil]
    exact pure fun _ hs => hs
  | cons b todo ih =>
    intro done hdone
    refine bind (h done b (by simp [← hdone])) fun _ => ?_
    simpa only [List.append_assoc, List.singleton_append] using
      ih (done ++ [b]) (by simpa using hdone)

theorem forM_const {g : β → EStateM ε σ PUnit} {bs : List β}
    (h : ∀ b ∈ bs, Triple P (g b) (fun _ => P) E) : Triple P (bs.forM g) (fun _ => P) E :=
  forM (I := fun _ => P) fun _ b hb => h b hb

end Triple

end BlackBull
