import Mathlib

/-!
# Runs of fallible steps

A step takes a state and an input to a new state and some outputs, or fails.
-/

namespace BlackBull

open List

variable {σ α ω ε β γ : Type} {as bs : List α} {x : Except ε β} {f : β → α → Except ε β}
  {P Q : β → Prop} {E : ε → Prop} {s s0 : σ} {o : List ω} {b b' : β} {e : ε}

theorem Except.bind_eq_ok {f : β → Except ε γ} {c : γ} :
    x >>= f = .ok c ↔ ∃ b, x = .ok b ∧ f b = .ok c := by
  cases x <;> simp [bind, Except.bind]

theorem Except.bind_of_ok {f : β → Except ε γ} (h : x = .ok b) : x >>= f = f b := by
  rw [h]
  rfl

theorem Except.bind_eq_error {f : β → Except ε γ} :
    x >>= f = .error e ↔ x = .error e ∨ ∃ b, x = .ok b ∧ f b = .error e := by
  cases x <;> simp [bind, Except.bind]

theorem Except.map_eq_ok {f : β → γ} {c : γ} : x.map f = .ok c ↔ ∃ b, x = .ok b ∧ f b = c := by
  cases x <;> simp [Except.map]

theorem ite_error_eq_ok {c : Prop} [Decidable c] :
    (if c then .error e else x) = .ok b ↔ ¬ c ∧ x = .ok b := by
  split_ifs with h <;> simp [h]

/-- The invariant rule of a fallible fold: `P` of what has been folded and the value so far. -/
theorem foldlM_split {P : List α → β → Prop} (h0 : P [] b)
    (hstep : ∀ taken a rest b b', taken ++ a :: rest = as → P taken b → f b a = .ok b' →
      P (taken ++ [a]) b') (h : as.foldlM f b = .ok b') : P as b' := by
  suffices hall : ∀ (rest taken : List α) (b : β), taken ++ rest = as → P taken b →
      rest.foldlM f b = .ok b' → P as b' from hall as [] b rfl h0 h
  intro rest
  induction rest with
  | nil =>
    intro taken b has hP h
    cases h
    rwa [← has, append_nil]
  | cons a rest ih =>
    intro taken b has hP h
    rw [foldlM_cons, Except.bind_eq_ok] at h
    obtain ⟨b1, h1, h2⟩ := h
    exact ih _ b1 ((append_cons taken a rest).symm.trans has)
      (hstep taken a rest b b1 has hP h1) h2

theorem foldlM_taken {P : List α → β → Prop} (h0 : P [] b)
    (hstep : ∀ taken b a b', a ∈ as → P taken b → f b a = .ok b' → P (taken ++ [a]) b')
    (h : as.foldlM f b = .ok b') : P as b' :=
  foldlM_split h0 (fun taken a rest b b' has => hstep taken b a b' (by simp [← has])) h

theorem foldlM_induction (h0 : P b) (hstep : ∀ b a b', a ∈ as → P b → f b a = .ok b' → P b')
    (h : as.foldlM f b = .ok b') : P b' :=
  foldlM_taken (P := fun _ => P) h0 (fun _ => hstep) h

theorem foldlM_indexed {P : ℕ → β → Prop} (h0 : P 0 b)
    (hstep : ∀ k a b b', as[k]? = some a → P k b → f b a = .ok b' → P (k + 1) b')
    (h : as.foldlM f b = .ok b') : P as.length b' := by
  refine foldlM_split (P := fun taken => P taken.length) h0 (fun taken a rest b b' has => ?_) h
  rw [length_append]
  exact hstep _ a b b' (by simp [← has])

/-- The fold returns where every turn does that starts from the invariant. -/
theorem foldlM_returns (h0 : P b) (hstep : ∀ b a, a ∈ as → P b → ∃ b', f b a = .ok b' ∧ P b') :
    ∃ b', as.foldlM f b = .ok b' ∧ P b' := by
  induction as generalizing b with
  | nil => exact ⟨b, rfl, h0⟩
  | cons a as ih =>
    obtain ⟨b1, h1, hb1⟩ := hstep b a mem_cons_self h0
    obtain ⟨b', h', hb'⟩ := ih hb1 fun b a ha => hstep b a (mem_cons_of_mem _ ha)
    refine ⟨b', ?_, hb'⟩
    rw [foldlM_cons, h1]
    exact h'

theorem foldlM_ne_error (h : ∀ b a, f b a ≠ .error e) (as : List α) (b : β) :
    as.foldlM f b ≠ .error e := by
  induction as generalizing b with
  | nil => exact nofun
  | cons a as ih =>
    intro herr
    rcases Except.bind_eq_error.1 herr with herr | ⟨b', -, herr⟩
    · exact h b a herr
    · exact ih b' herr

theorem mapM_eq_map {m : Type → Type} [Monad m] [LawfulMonad m] {f : α → m β} {g : α → β}
    (h : ∀ a ∈ as, f a = pure (g a)) : as.mapM f = pure (as.map g) := by
  induction as with
  | nil => exact mapM_nil
  | cons a as ih =>
    obtain ⟨ha, has⟩ := forall_mem_cons.1 h
    simp [ha, ih has]

private theorem filterAuxM_spec {p : α → Except ε Bool} {as acc : List α} :
    match as.filterAuxM p acc with
    | .ok bs => ∀ b ∈ bs, b ∈ acc ∨ p b = .ok true
    | .error e => ∃ a ∈ as, p a = .error e := by
  induction as generalizing acc with
  | nil => exact fun b hb => .inl hb
  | cons a as ih =>
    show match (p a >>= fun b => as.filterAuxM p (cond b (a :: acc) acc)) with
      | .ok bs => ∀ b ∈ bs, b ∈ acc ∨ p b = .ok true
      | .error e => ∃ a' ∈ a :: as, p a' = .error e
    rcases hpa : p a with e | b
    · exact ⟨a, mem_cons_self, hpa⟩
    · show match as.filterAuxM p (cond b (a :: acc) acc) with
        | .ok bs => ∀ b ∈ bs, b ∈ acc ∨ p b = .ok true
        | .error e => ∃ a' ∈ a :: as, p a' = .error e
      have h := @ih (cond b (a :: acc) acc)
      split at h
      · intro c hc
        rcases h c hc with hmem | hp
        · cases b with
          | false => exact .inl hmem
          | true =>
            rcases mem_cons.1 hmem with rfl | hmem
            · exact .inr hpa
            · exact .inl hmem
        · exact .inr hp
      · obtain ⟨a', ha', hp⟩ := h
        exact ⟨a', mem_cons_of_mem _ ha', hp⟩

theorem filterM_spec {p : α → Except ε Bool} {as : List α} :
    match as.filterM p with
    | .ok bs => ∀ b ∈ bs, p b = .ok true
    | .error e => ∃ a ∈ as, p a = .error e := by
  have h := @filterAuxM_spec _ _ p as []
  show match (as.filterAuxM p [] >>= fun bs => pure bs.reverse) with
    | .ok bs => ∀ b ∈ bs, p b = .ok true
    | .error e => ∃ a ∈ as, p a = .error e
  rcases hr : as.filterAuxM p [] with e | bs <;> rw [hr] at h
  · exact h
  · intro b hb
    exact (h b (mem_reverse.1 hb)).resolve_left not_mem_nil

private theorem filterAuxM_eq {p : α → Except ε Bool} {g : α → Bool} {acc : List α}
    (h : ∀ a ∈ as, p a = .ok (g a)) :
    as.filterAuxM p acc = .ok ((as.filter g).reverse ++ acc) := by
  induction as generalizing acc with
  | nil => rfl
  | cons a as ih =>
    obtain ⟨ha, has⟩ := forall_mem_cons.1 h
    show (p a >>= fun b => as.filterAuxM p (cond b (a :: acc) acc)) = _
    rw [ha]
    show as.filterAuxM p (cond (g a) (a :: acc) acc) = _
    rw [ih has]
    cases hg : g a <;> simp [hg]

theorem filterM_eq {p : α → Except ε Bool} {g : α → Bool} (h : ∀ a ∈ as, p a = .ok (g a)) :
    as.filterM p = .ok (as.filter g) := by
  show (as.filterAuxM p [] >>= fun bs => pure bs.reverse) = _
  rw [filterAuxM_eq h, append_nil]
  show Except.ok _ = _
  rw [reverse_reverse]

/-- What a computation returns, found by evaluating it. -/
theorem Except.exists_of_any {x : Except ε α} {p : α → Prop} [DecidablePred p]
    (h : x.toOption.any (fun a => p a) = true) : ∃ a, x = .ok a ∧ p a := by
  cases x with
  | error e => cases h
  | ok a => exact ⟨a, rfl, of_decide_eq_true h⟩

/-- A computation returns what meets `P`, or fails with what meets `E`. -/
def Meets {β : Type} (x : Except ε β) (P : β → Prop) (E : ε → Prop) : Prop :=
  match x with
  | .ok b => P b
  | .error e => E e

theorem Meets.bind {f : β → Except ε γ} {Q : γ → Prop} (h : Meets x P E)
    (hf : ∀ b, P b → Meets (f b) Q E) : Meets (x >>= f) Q E := by
  cases x with
  | error e => exact h
  | ok b => exact hf b h

theorem Meets.imp {F : ε → Prop} (h : Meets x P E) (hPQ : ∀ b, P b → Q b) (hEF : ∀ e, E e → F e) :
    Meets x Q F := by
  cases x with
  | error e => exact hEF e h
  | ok b => exact hPQ b h

theorem Meets.mono (h : Meets x P E) (hPQ : ∀ b, P b → Q b) : Meets x Q E :=
  h.imp hPQ fun _ he => he

theorem Meets.of_ok (h : Meets x P E) (hx : x = .ok b) : P b := by
  subst hx
  exact h

theorem Meets.exists_ok (h : Meets x P E) (hE : ∀ e, ¬ E e) : ∃ b, x = .ok b ∧ P b := by
  cases x with
  | error e => exact absurd h (hE e)
  | ok b => exact ⟨b, rfl, h⟩

theorem Meets.imp_of_ok (h : Meets x P E) (hPQ : ∀ b, x = .ok b → P b → Q b) : Meets x Q E := by
  cases x with
  | error e => exact h
  | ok b => exact hPQ b rfl h

/-- Of two computations one gives the image of what the other gives, if this is so of their parts. -/
theorem bind_eq_map {β' γ' : Type} {x' : Except ε β'} {f : β → Except ε γ} {f' : β' → Except ε γ'}
    {Φ : β → β'} {Ψ : γ → γ'} (hx : x' = x.map Φ) (hf : ∀ b, x = .ok b → f' (Φ b) = (f b).map Ψ) :
    x' >>= f' = (x >>= f).map Ψ := by
  subst hx
  cases x with
  | error e => rfl
  | ok b => exact hf b rfl

theorem bind_eq_map_self {γ' : Type} {f : β → Except ε γ} {f' : β → Except ε γ'} {Ψ : γ → γ'}
    (hf : ∀ b, x = .ok b → f' b = (f b).map Ψ) :
    x >>= f' = (x >>= f).map Ψ := by
  cases x with
  | error e => rfl
  | ok b => exact hf b rfl

def run (step : σ → α → Except ε (σ × List ω)) : σ → List α → Except ε (σ × List ω)
  | s, [] => .ok (s, [])
  | s, a :: as => do
    let (s', o) ← step s a
    let (s'', o') ← run step s' as
    .ok (s'', o ++ o')

/-- Every input of the run meets `G` in the state it arrives in. -/
def Guarded (step : σ → α → Except ε (σ × List ω)) (G : σ → α → Prop) : σ → List α → Prop
  | _, [] => True
  | s, a :: as => G s a ∧ ∀ s' o, step s a = .ok (s', o) → Guarded step G s' as

variable {step : σ → α → Except ε (σ × List ω)} {G : σ → α → Prop}

theorem guarded_cons {a : α} : Guarded step G s (a :: as) ↔ G s a
    ∧ match step s a with
      | .ok r => Guarded step G r.1 as
      | .error _ => True := by
  refine and_congr Iff.rfl ?_
  cases step s a with
  | error e => simp
  | ok r =>
    refine ⟨fun h => h r.1 r.2 rfl, fun h s' o hr => ?_⟩
    simp at hr
    subst hr
    exact h

def decGuarded [∀ s a, Decidable (G s a)] : ∀ s as, Decidable (Guarded step G s as)
  | _, [] => .isTrue trivial
  | s, a :: as =>
    have : Decidable (match step s a with
      | .ok r => Guarded step G r.1 as
      | .error _ => True) :=
      match step s a with
      | .ok r => decGuarded r.1 as
      | .error _ => .isTrue trivial
    decidable_of_iff _ guarded_cons.symm

instance [∀ s a, Decidable (G s a)] (s : σ) (as : List α) : Decidable (Guarded step G s as) :=
  decGuarded s as

theorem run_cons_ok {s' : σ} {a : α} :
    run step s (a :: as) = .ok (s', o) ↔ ∃ s1 o1 o2, step s a = .ok (s1, o1)
      ∧ run step s1 as = .ok (s', o2) ∧ o = o1 ++ o2 := by
  simp only [run, Except.bind_eq_ok, Prod.exists, Except.ok.injEq, Prod.mk.injEq]
  constructor
  · rintro ⟨s1, o1, h1, s2, o2, h2, rfl, rfl⟩
    exact ⟨s1, o1, o2, h1, h2, rfl⟩
  · rintro ⟨s1, o1, o2, h1, h2, rfl⟩
    exact ⟨s1, o1, h1, s', o2, h2, rfl, rfl⟩

theorem run_append_ok {s' : σ} :
    run step s (as ++ bs) = .ok (s', o) ↔ ∃ s1 o1 o2, run step s as = .ok (s1, o1)
      ∧ run step s1 bs = .ok (s', o2) ∧ o = o1 ++ o2 := by
  induction as generalizing s o with
  | nil => simp [run]
  | cons a as ih =>
    simp only [cons_append, run_cons_ok, ih]
    constructor
    · rintro ⟨s1, o1, _, h1, ⟨s2, o2, o3, h2, h3, rfl⟩, rfl⟩
      exact ⟨s2, o1 ++ o2, o3, ⟨s1, o1, o2, h1, h2, rfl⟩, h3, by simp⟩
    · rintro ⟨s2, _, o3, ⟨s1, o1, o2, h1, h2, rfl⟩, h3, rfl⟩
      exact ⟨s1, o1, o2 ++ o3, h1, ⟨s2, o2, o3, h2, h3, rfl⟩, by simp⟩

theorem run_append_error {s1 : σ} (h : run step s as = .ok (s1, o))
    (h' : run step s1 bs = .error e) : run step s (as ++ bs) = .error e := by
  induction as generalizing s o with
  | nil =>
    cases h
    exact h'
  | cons a as ih =>
    obtain ⟨s2, o1, o2, h1, h2, -⟩ := run_cons_ok.1 h
    refine (Except.bind_of_ok h1).trans ?_
    show (run step s2 (as ++ bs) >>= _) = _
    rw [ih h2]
    rfl

theorem guarded_append : Guarded step G s (as ++ bs) ↔
    Guarded step G s as ∧ ∀ s' o, run step s as = .ok (s', o) → Guarded step G s' bs := by
  induction as generalizing s with
  | nil =>
    refine ⟨fun h => ⟨trivial, fun s' o hr => ?_⟩, fun h => h.2 s [] rfl⟩
    cases hr
    exact h
  | cons a as ih =>
    constructor
    · intro h
      refine ⟨⟨h.1, fun s' o hs => (ih.1 (h.2 s' o hs)).1⟩, fun s' o hr => ?_⟩
      obtain ⟨s1, o1, o2, h1, h2, -⟩ := run_cons_ok.1 hr
      exact (ih.1 (h.2 s1 o1 h1)).2 s' o2 h2
    · rintro ⟨h, h'⟩
      refine ⟨h.1, fun s1 o1 h1 => ih.2 ⟨h.2 s1 o1 h1, fun s' o hr => ?_⟩⟩
      exact h' s' (o1 ++ o) (run_cons_ok.2 ⟨s1, o1, o, h1, hr, rfl⟩)

/-- Rounds that lead from one state of a sequence to the next. -/
theorem run_rounds {S : ℕ → σ} {f : ℕ → List α} {o : ℕ → List ω} {n : ℕ}
    (h : ∀ k < n, Guarded step G (S k) (f k) ∧ run step (S k) (f k) = .ok (S (k + 1), o k)) :
    Guarded step G (S 0) ((range n).flatMap f)
      ∧ run step (S 0) ((range n).flatMap f) = .ok (S n, (range n).flatMap o) := by
  induction n with
  | zero => exact ⟨trivial, rfl⟩
  | succ n ih =>
    obtain ⟨hG, hrun⟩ := ih fun k hk => h k (Nat.lt_succ_of_lt hk)
    obtain ⟨hG', hrun'⟩ := h n (Nat.lt_succ_self n)
    simp only [range_succ, flatMap_append, flatMap_singleton]
    refine ⟨guarded_append.2 ⟨hG, fun s' o' hr => ?_⟩,
      run_append_ok.2 ⟨S n, _, o n, hrun, hrun', rfl⟩⟩
    obtain ⟨rfl, -⟩ := Prod.mk.inj (Except.ok.inj (hrun.symm.trans hr))
    exact hG'

/-- A guard that every input meets in all states joins the guards of a run. -/
theorem guarded_of_mem {Q : α → Prop} (hQ : ∀ a ∈ as, Q a) (s : σ) :
    Guarded step (fun _ a => Q a) s as := by
  induction as generalizing s with
  | nil => trivial
  | cons a as ih =>
    obtain ⟨ha, hQ⟩ := forall_mem_cons.1 hQ
    exact ⟨ha, fun s' _ _ => ih hQ s'⟩

theorem Guarded.and {G' : σ → α → Prop} (h : Guarded step G s as) (h' : Guarded step G' s as) :
    Guarded step (fun s a => G s a ∧ G' s a) s as := by
  induction as generalizing s with
  | nil => trivial
  | cons a as ih => exact ⟨⟨h.1, h'.1⟩, fun s' o hs => ih (h.2 s' o hs) (h'.2 s' o hs)⟩

/-- The invariant rule for runs that may fail: where a step from a state of the invariant fails only
as its input does not meet `F`, so does a run. -/
theorem run_meets {P : List α → List ω → σ → Prop} {F : σ → α → Prop} (h0 : P [] [] s0)
    (hstep : ∀ as o s a, P as o s → G s a →
      Meets (step s a) (fun r => P (as ++ [a]) (o ++ r.2) r.1) fun e => E e ∧ ¬ F s a)
    (hG : Guarded step G s0 as) :
    Meets (run step s0 as) (fun r => P as r.2 r.1) fun e => E e ∧ ¬ Guarded step F s0 as := by
  suffices h : ∀ (as as0 : List α) (o0 : List ω) (s : σ), P as0 o0 s → Guarded step G s as →
      Meets (run step s as) (fun r => P (as0 ++ as) (o0 ++ r.2) r.1)
        fun e => E e ∧ ¬ Guarded step F s as from h as [] [] s0 h0 hG
  intro as
  induction as with
  | nil =>
    intro as0 o0 s hP _
    show P (as0 ++ []) (o0 ++ []) s
    rwa [append_nil, append_nil]
  | cons a as ih =>
    intro as0 o0 s hP hG
    have hs := hstep as0 o0 s a hP hG.1
    show Meets (step s a >>= _) _ _
    rcases hr : step s a with e | ⟨s1, o1⟩ <;> rw [hr] at hs
    · exact ⟨hs.1, fun hF => hs.2 hF.1⟩
    · have hrun := ih (as0 ++ [a]) (o0 ++ o1) s1 hs (hG.2 s1 o1 hr)
      show Meets (run step s1 as >>= _) _ _
      rcases hr' : run step s1 as with e | ⟨s2, o2⟩ <;> rw [hr'] at hrun
      · exact ⟨hrun.1, fun hF => hrun.2 (hF.2 s1 o1 hr)⟩
      · show P (as0 ++ a :: as) (o0 ++ (o1 ++ o2)) s2
        rwa [append_cons, ← append_assoc]

/-- The invariant rule: `P` of the inputs taken, the outputs given and the state. -/
theorem run_induction {P : List α → List ω → σ → Prop} (h0 : P [] [] s0)
    (hstep : ∀ as o s a s' o', P as o s → G s a → step s a = .ok (s', o') →
      P (as ++ [a]) (o ++ o') s') (hG : Guarded step G s0 as) (h : run step s0 as = .ok (s, o)) :
    P as o s := by
  refine (run_meets (P := P) (E := fun _ => True) (F := fun _ _ => False) h0 ?_ hG).of_ok h
  intro as o s a hP hG
  rcases hs : step s a with e | ⟨s', o'⟩
  · exact ⟨trivial, id⟩
  · exact hstep as o s a s' o' hP hG hs

theorem run_ok {P : List α → List ω → σ → Prop} (h0 : P [] [] s0)
    (hstep : ∀ as o s a, P as o s → G s a →
      ∃ s' o', step s a = .ok (s', o') ∧ P (as ++ [a]) (o ++ o') s')
    (hG : Guarded step G s0 as) : ∃ s o, run step s0 as = .ok (s, o) ∧ P as o s := by
  have h := run_meets (P := P) (E := fun _ => False) (F := fun _ _ => True) h0 ?_ hG
  · rcases hrun : run step s0 as with e | ⟨s, o⟩ <;> rw [hrun] at h
    · exact h.1.elim
    · exact ⟨s, o, rfl, h⟩
  · intro as o s a hP hG
    obtain ⟨s', o', hs, hP'⟩ := hstep as o s a hP hG
    rw [hs]
    exact hP'

/-- Simulation along a function: where every step commutes with it, so do the runs. The invariant may
speak of the inputs to come. -/
theorem run_eq_map {σ' : Type} {step' : σ' → α → Except ε (σ' × List ω)} {Φ : σ → σ'}
    {I : σ → List α → Prop} (hstep : ∀ s a as, I s (a :: as) →
      step' (Φ s) a = (step s a).map (fun r => (Φ r.1, r.2))
        ∧ ∀ s' o, step s a = .ok (s', o) → I s' as) (h : I s as) :
    run step' (Φ s) as = (run step s as).map fun r => (Φ r.1, r.2) := by
  induction as generalizing s with
  | nil => rfl
  | cons a as ih =>
    obtain ⟨heq, hI⟩ := hstep s a as h
    refine bind_eq_map heq fun r hr => ?_
    exact bind_eq_map (ih (hI r.1 r.2 hr)) fun r' _ => rfl

/-- Where an invariant makes the outputs of each step good just if its input meets the guard, the
outputs of a run are good just if all its inputs do. -/
theorem forall_outputs_iff_guarded {I : σ → Prop} {Q : ω → Prop}
    (hI : ∀ s a s' o, I s → step s a = .ok (s', o) → I s')
    (hQ : ∀ s a s' o, I s → step s a = .ok (s', o) → ((∀ x ∈ o, Q x) ↔ G s a)) (h0 : I s0)
    (h : run step s0 as = .ok (s, o)) :
    (∀ x ∈ o, Q x) ↔ Guarded step G s0 as := by
  induction as generalizing s0 o with
  | nil =>
    obtain ⟨-, rfl⟩ := h
    simp [Guarded]
  | cons a as ih =>
    obtain ⟨s1, o1, o2, h1, h2, rfl⟩ := run_cons_ok.1 h
    rw [guarded_cons, h1]
    simp only [mem_append, or_imp, forall_and]
    rw [hQ s0 a s1 o1 h0 h1, ih (hI s0 a s1 o1 h0 h1) h2]

end BlackBull
