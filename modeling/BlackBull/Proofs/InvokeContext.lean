import BlackBull.Proofs.CalleeAccounts

/-!
# Privileges along calls

An instruction that is called gets its flags from the one that calls it, or from the signers this
one gives.
-/

namespace BlackBull.Svm

open TransactionContext List

section Context

variable {s s' : TransactionContext}

def keysOf (s : TransactionContext) : List Pubkey := s.accounts.accounts.map (·.key)

def programsOf (s : TransactionContext) : List ℕ :=
  s.instructionTrace.map (·.programAccountIndexInTx)

/-- The program of an instruction of the trace. -/
def programAt (s : TransactionContext) (i : ℕ) : Except InstructionError Pubkey :=
  s.getInstructionContextAtIndexInTrace i >>= s.getProgramKey

lemma programAt_eq (s : TransactionContext) (i : ℕ) : programAt s i
    = match (programsOf s)[i]? with
      | none => .error .callDepth
      | some program => if program = u16Max then .error .missingAccount
        else match (keysOf s)[program]? with
          | none => .error .missingAccount
          | some key => .ok key := by
  unfold programAt getInstructionContextAtIndexInTrace programsOf keysOf
  rw [getElem?_map]
  rcases s.instructionTrace[i]? with _ | frame
  · rfl
  · change getProgramKey s _ = _
    unfold getProgramKey InstructionContext.getIndexOfProgramAccountInTransaction
    simp only [Option.map_some]
    split_ifs
    · rfl
    · change getKeyOfAccountAtIndex s _ = _
      unfold getKeyOfAccountAtIndex
      rw [getElem?_map]
      cases s.accounts.accounts[frame.programAccountIndexInTx]? <;> rfl

/-- What a push does: it enters the next top-level instruction or the one prepared. -/
structure Pushed (s s' : TransactionContext) : Prop where
  keys : keysOf s' = keysOf s
  accounts : s'.instructionAccounts = s.instructionAccounts
  maps : s'.deduplicationMaps = s.deduplicationMaps
  cases : s.instructionStack = []
      ∧ s'.instructionStack = [s.nextTopLevelInstructionIndex]
      ∧ s'.nextTopLevelInstructionIndex = s.nextTopLevelInstructionIndex + 1
      ∧ programsOf s' = programsOf s
    ∨ s.instructionStack ≠ []
      ∧ s'.instructionStack = s.instructionStack ++ [s.getInstructionTraceLength]
      ∧ s'.nextTopLevelInstructionIndex = s.nextTopLevelInstructionIndex
      ∧ programsOf s' = programsOf s ++ [0]

lemma map_modify_of_eq {α β : Type} {f : α → β} {g : α → α} (hg : ∀ a, f (g a) = f a) (l : List α)
    (i : ℕ) : (l.modify i g).map f = l.map f := by
  refine ext_getElem? fun j => ?_
  rw [getElem?_map, getElem?_modify, getElem?_map]
  rcases l[j]? with _ | a
  · rfl
  · split_ifs
    · exact congrArg some (hg a)
    · rfl

lemma storeCurrentIndex_frame (t : ℕ) : Triple (· = s) (storeCurrentIndex t)
    (fun _ s' => keysOf s' = keysOf s ∧ s' = { s with accounts := s'.accounts })
    fun _ _ => True := by
  refine get_bind ?_
  split
  · exact Triple.pure fun _ hs => hs ▸ ⟨rfl, rfl⟩
  · refine ofExcept_bind (fun _ _ => ?_) fun _ _ => trivial
    split
    · exact Triple.throw fun _ _ => trivial
    · rename_i account haccount
      refine ensure_bind (fun _ => ?_) fun _ => trivial
      refine ofExcept_bind (fun data _ => ?_) fun _ _ => trivial
      rintro s rfl
      exact ⟨map_set_of_eq haccount rfl, rfl⟩

lemma pushed_push : Triple (· = s) push (fun _ s' => Pushed s s') fun _ _ => True := by
  refine get_bind (ensure_bind (fun _ => ?_) fun _ => trivial)
  refine ensure_bind (fun _ => modify_bind ?_) fun _ => trivial
  have hprograms : (s.instructionTrace.modify (s.instructionTrace.length - 1) fun frame =>
      { frame with nestingLevel := s.instructionStack.length % 2 ^ 16 }).map
        (·.programAccountIndexInTx) = programsOf s := by
    refine map_modify_of_eq (fun _ => ?_) _ _
    rfl
  refine ensure_bind (fun _ => takeNextIndex_bind (fun hstack => ?_) fun hstack => ?_)
    fun _ => trivial
  all_goals
    refine ensure_bind (fun _ => modify_bind ?_) fun _ => trivial
    refine (storeCurrentIndex_frame _).conseq (fun _ h => h) fun _ s' h => ?_
    obtain ⟨hkeys, hframe⟩ := h
    rw [hframe]
  · have hstack' : s.instructionStack = [] := hstack
    refine ⟨hkeys, rfl, rfl, .inl ⟨hstack', ?_, rfl, hprograms⟩⟩
    rw [hstack', nil_append]
  · refine ⟨hkeys, rfl, rfl, .inr ⟨hstack, ?_, rfl, ?_⟩⟩
    · change s.instructionStack ++ [(s.instructionTrace.modify _ _).length - 1] = _
      rw [length_modify, getInstructionTraceLength]
    · change (s.instructionTrace.modify _ _ ++ [({} : InstructionFrame)]).map _ = _
      rw [map_append, hprograms]
      rfl

/-- What the preparation of a nested instruction does. -/
structure Prepared (instruction : Instruction) (signers : List Pubkey) (caller : ℕ)
    (callee : CalleeAccounts) (s s' : TransactionContext) : Prop where
  current : s.instructionStack.getLast? = some caller
  configured : ∃ c, s.getInstructionContextAtIndexInTrace caller = .ok c
    ∧ calleeAccounts s c signers instruction.accounts = .ok callee
  frame : ∃ f, s' = { s with
    instructionTrace := s.instructionTrace.modify s.getInstructionTraceLength f
    deduplicationMaps := s.deduplicationMaps ++ [callee.1]
    instructionAccounts := s.instructionAccounts ++ [callee.2] }

lemma ofStop_bind {α β : Type} {Q : β → TransactionContext → Prop}
    {E : ContextStop → TransactionContext → Prop} {x : Except ContextStop α} {f : α → ContextM β}
    (h : ∀ a, x = .ok a → Triple (· = s) (f a) Q E) (hE : ∀ e, x = .error e → E e s) :
    Triple (· = s) (ofStop x >>= f) Q E := by
  cases x with
  | ok a => exact h a rfl
  | error e =>
    rintro s rfl
    exact hE e rfl

lemma prepared_prepare (instruction : Instruction) (signers : List Pubkey) :
    Triple (· = s) (prepareNextCpiInstruction instruction signers)
      (fun _ s' => ∃ caller callee, Prepared instruction signers caller callee s s')
      fun _ _ => True := by
  refine get_bind (ofExcept_bind (fun c hc => ?_) fun _ _ => trivial)
  refine ofStop_bind (fun callee hcallee => ?_) fun _ _ => trivial
  refine ofStop_bind (fun program _ => ?_) fun _ _ => trivial
  refine ofExcept_bind (fun caller hcaller => ?_) fun _ _ => trivial
  refine get_bind (ensure_bind (fun _ => ?_) fun _ => trivial)
  rintro s rfl
  have hcurrent : s.instructionStack.getLast? = some caller := by
    unfold getCurrentInstructionIndex at hcaller
    split at hcaller <;> cases hcaller
    assumption
  refine ⟨caller, callee, hcurrent, ⟨c, ?_, hcallee⟩, _, rfl⟩
  rw [getCurrentInstructionContext, hcaller] at hc
  exact hc

/-- The instruction that a push enters. -/
def nextIndex (s : TransactionContext) : ℕ :=
  if s.instructionStack = [] then s.nextTopLevelInstructionIndex else s.getInstructionTraceLength

lemma runsProgram_iff {p : Pubkey} {c : Except InstructionError InstructionContext} :
    runsProgram s p c = true ↔ c >>= s.getProgramKey = .ok p := by
  unfold runsProgram
  split
  · rename_i key hkey
    rw [hkey, decide_eq_true_iff, Except.ok.injEq]
  · rename_i e he
    rw [he]
    simp

lemma pushed_invokePush : Triple (· = s) invokePush
    (fun _ s' => Pushed s s' ∧ ∃ p, programAt s (nextIndex s) = .ok p
      ∧ ((∀ i ∈ s.instructionStack, programAt s i ≠ .ok p)
        ∨ ∃ i, s.instructionStack.getLast? = some i ∧ programAt s i = .ok p))
    fun _ _ => True := by
  refine get_bind (ofExcept_bind (fun next hnext => ?_) fun _ _ => trivial)
  split
  · exact Triple.throw fun _ _ => trivial
  rename_i p hp
  refine ensure_bind (fun hcond => ?_) fun _ => trivial
  refine pushed_push.conseq (fun _ h => h) fun _ s' h => ⟨h, p, ?_, ?_⟩
  · have hat : s.getInstructionContextAtIndexInTrace (nextIndex s) = .ok next := by
      unfold getNextInstructionContext at hnext
      unfold nextIndex
      split_ifs at hnext ⊢ <;> exact hnext
    rw [programAt, hat]
    exact hp
  · rcases hcond with hnil | hany | hlast
    · rw [hnil]
      exact .inl nofun
    · refine .inl fun i hi hat => ?_
      obtain ⟨level, hlevel, rfl⟩ := getElem_of_mem hi
      rw [any_eq_false] at hany
      refine hany level (mem_range.2 hlevel) (runsProgram_iff.2 ?_)
      unfold getInstructionContextAtNestingLevel
      rw [getElem?_eq_getElem hlevel]
      exact hat
    · rw [runsProgram_iff, getCurrentInstructionContext, getCurrentInstructionIndex] at hlast
      rcases hget : s.instructionStack.getLast? with _ | i
      · rw [hget] at hlast
        cases hlast
      · rw [hget] at hlast
        exact .inr ⟨i, rfl, hlast⟩

lemma execute_ok {α : Type} {x : ContextM α} {Q : TransactionContext → Prop}
    (h : InvokeSession.execute x s = .ok s') (hx : Triple (· = s) x (fun _ => Q) fun _ _ => True) :
    Q s' := by
  have hx := hx s rfl
  unfold InvokeSession.execute at h
  split at h
  · rename_i heq
    rw [heq] at hx
    cases h
    exact hx
  · cases h

lemma length_programsOf (s : TransactionContext) :
    (programsOf s).length = s.instructionTrace.length := length_map _

lemma map_programAt (stack : List ℕ) (hkeys : keysOf s' = keysOf s)
    (hprograms : ∀ i ∈ stack, (programsOf s')[i]? = (programsOf s)[i]?) :
    stack.map (programAt s') = stack.map (programAt s) := by
  refine map_congr_left fun i hi => ?_
  rw [programAt_eq, programAt_eq, hkeys, hprograms i hi]

lemma Pushed.getElem?_programsOf (h : Pushed s s') {i : ℕ}
    (hi : i < (programsOf s).length) : (programsOf s')[i]? = (programsOf s)[i]? := by
  rcases h.cases with ⟨-, -, -, heq⟩ | ⟨-, -, -, heq⟩
  · rw [heq]
  · rw [heq, getElem?_append_left hi]

lemma getElem?_keysOf (hkeys : (keysOf s).length ≤ 2 ^ 16) {key : Pubkey}
    {i : ℕ} (h : s.findIndexOfAccount key = some i) : (keysOf s)[i]? = some key := by
  rw [findIndexOfAccount, Option.map_eq_some_iff] at h
  obtain ⟨j, hj, rfl⟩ := h
  rw [findIdx?_eq_some_iff_getElem] at hj
  obtain ⟨hlt, hkey, -⟩ := hj
  rw [keysOf, length_map] at hkeys
  rw [Nat.mod_eq_of_lt (by omega), keysOf, getElem?_map, getElem?_eq_getElem hlt,
    Option.map_some, of_decide_eq_true hkey]

end Context

section Privileges

variable {keys : List Pubkey} {message : SvmMessage} {accounts : List (List InstructionAccount)}
  {callers : List (Option (ℕ × List Pubkey))}

/-- Instruction `j` has called instruction `i`. -/
def Calls (callers : List (Option (ℕ × List Pubkey))) (i j : ℕ) : Prop :=
  ∃ signers, callers[i]? = some (some (j, signers))

/-- The callers of an instruction, and itself. -/
abbrev CallChain (callers : List (Option (ℕ × List Pubkey))) : ℕ → ℕ → Prop :=
  Relation.ReflTransGen (Calls callers)

/-- Callers come first, what is writable is so in the message and in all callers, and what signs is a
signer of the message or was given as one by a caller. -/
structure Privileges (message : SvmMessage) (keys : List Pubkey)
    (accounts : List (List InstructionAccount)) (callers : List (Option (ℕ × List Pubkey))) :
    Prop where
  order : ∀ i j, Calls callers i j → j < i
  writable : ∀ (i : ℕ) entries, accounts[i]? = some entries → ∀ e ∈ entries, e.isWritable = true →
    message.isWritable e.indexInTransaction = true
      ∧ ∀ j, CallChain callers i j → ∃ entries', accounts[j]? = some entries'
        ∧ ∃ e' ∈ entries', e'.indexInTransaction = e.indexInTransaction ∧ e'.isWritable = true
  signer : ∀ (i : ℕ) entries, accounts[i]? = some entries → ∀ e ∈ entries, e.isSigner = true →
    message.isSigner e.indexInTransaction = true
      ∨ ∃ k j signers key, CallChain callers i k ∧ callers[k]? = some (some (j, signers))
        ∧ key ∈ signers ∧ keys[e.indexInTransaction]? = some key

lemma getElem?_concat_eq_some {α : Type} {l : List α} {x y : α} {i : ℕ} :
    (l ++ [x])[i]? = some y ↔ l[i]? = some y ∨ i = l.length ∧ x = y := by
  rcases Nat.lt_trichotomy i l.length with h | rfl | h
  · simp [getElem?_append_left h, h.ne]
  · simp
  · rw [getElem?_eq_none h.le, getElem?_eq_none (by simpa using Nat.succ_le_of_lt h)]
    simp [h.ne']

lemma calls_append {c : Option (ℕ × List Pubkey)} {i j : ℕ} : Calls (callers ++ [c]) i j
    ↔ Calls callers i j ∨ i = callers.length ∧ ∃ signers, c = some (j, signers) := by
  simp only [Calls, getElem?_concat_eq_some, exists_or, exists_and_left]

lemma callChain_append {c : Option (ℕ × List Pubkey)} {i j : ℕ}
    (horder : ∀ i j, Calls callers i j → j < i) (hi : i < callers.length) :
    CallChain (callers ++ [c]) i j ↔ CallChain callers i j ∧ j < callers.length := by
  constructor
  · intro h
    induction h with
    | refl => exact ⟨.refl, hi⟩
    | tail _ hstep ih =>
      rcases calls_append.1 hstep with hstep | ⟨rfl, -⟩
      · exact ⟨ih.1.tail hstep, (horder _ _ hstep).trans ih.2⟩
      · exact absurd ih.2 (Nat.lt_irrefl _)
  · rintro ⟨h, -⟩
    exact Relation.ReflTransGen.mono (fun a b hab => calls_append.2 (.inl hab)) _ _ h

lemma callChain_last {c : ℕ × List Pubkey} {k : ℕ}
    (h : CallChain (callers ++ [some c]) callers.length k) :
    k = callers.length ∨ CallChain (callers ++ [some c]) c.1 k := by
  rcases h.cases_head with rfl | ⟨j, ⟨signers, hcalls⟩, hchain⟩
  · exact .inl rfl
  · rw [getElem?_concat_length] at hcalls
    cases hcalls
    exact .inr hchain

lemma Privileges.call (h : Privileges message keys accounts callers)
    (hlen : accounts.length = callers.length) {caller : ℕ} {signers : List Pubkey}
    {callerEntries entries : List InstructionAccount}
    (hcaller : accounts[caller]? = some callerEntries)
    (hderived : ∀ e ∈ entries, ∃ c ∈ callerEntries, c.indexInTransaction = e.indexInTransaction
      ∧ (e.isWritable = true → c.isWritable = true)
      ∧ (e.isSigner = true → c.isSigner = true
        ∨ ∃ key ∈ signers, keys[e.indexInTransaction]? = some key)) :
    Privileges message keys (accounts ++ [entries]) (callers ++ [some (caller, signers)]) := by
  have hlt : ∀ {i entries'}, accounts[i]? = some entries' → i < callers.length :=
    fun hget => hlen ▸ (List.getElem?_eq_some_iff.1 hget).1
  have hself : (callers ++ [some (caller, signers)])[callers.length]?
      = some (some (caller, signers)) := getElem?_concat_length
  refine ⟨fun i j hij => ?_, fun i entries' hget e he hw => ?_, fun i entries' hget e he hs => ?_⟩
  · rcases calls_append.1 hij with hij | ⟨rfl, signers', heq⟩
    · exact h.order i j hij
    · cases heq
      exact hlt hcaller
  · rcases getElem?_concat_eq_some.1 hget with hget | ⟨rfl, rfl⟩
    · obtain ⟨hmessage, hchain⟩ := h.writable i entries' hget e he hw
      refine ⟨hmessage, fun j hij => ?_⟩
      obtain ⟨entries'', hget'', hmem⟩ := hchain j ((callChain_append h.order (hlt hget)).1 hij).1
      exact ⟨entries'', getElem?_concat_eq_some.2 (.inl hget''), hmem⟩
    · obtain ⟨c, hc, hindex, hcw, -⟩ := hderived e he
      obtain ⟨hmessage, hchain⟩ := h.writable caller callerEntries hcaller c hc (hcw hw)
      rw [hindex] at hmessage hchain
      refine ⟨hmessage, fun j hij => ?_⟩
      rw [hlen] at hget hij
      rcases callChain_last hij with rfl | hij
      · exact ⟨_, hget, e, he, rfl, hw⟩
      · obtain ⟨entries'', hget'', hmem⟩ :=
          hchain j ((callChain_append h.order (hlt hcaller)).1 hij).1
        exact ⟨entries'', getElem?_concat_eq_some.2 (.inl hget''), hmem⟩
  · have hlift : ∀ {i k j signers'}, i < callers.length → CallChain callers i k →
        callers[k]? = some (some (j, signers')) →
        CallChain (callers ++ [some (caller, signers)]) i k
          ∧ (callers ++ [some (caller, signers)])[k]? = some (some (j, signers')) :=
      fun hi hik hk => ⟨(callChain_append h.order hi).2 ⟨hik, (List.getElem?_eq_some_iff.1 hk).1⟩,
        getElem?_concat_eq_some.2 (.inl hk)⟩
    rcases getElem?_concat_eq_some.1 hget with hget | ⟨rfl, rfl⟩
    · refine (h.signer i entries' hget e he hs).imp_right ?_
      rintro ⟨k, j, signers', key, hik, hk, hkey⟩
      obtain ⟨hik', hk'⟩ := hlift (hlt hget) hik hk
      exact ⟨k, j, signers', key, hik', hk', hkey⟩
    · obtain ⟨c, hc, hindex, -, hcs⟩ := hderived e he
      rw [hlen]
      have hfirst : CallChain (callers ++ [some (caller, signers)]) callers.length caller :=
        .single ⟨signers, hself⟩
      rcases hcs hs with hsigner | ⟨key, hkey, hat⟩
      · have hc' := h.signer caller callerEntries hcaller c hc hsigner
        rw [hindex] at hc'
        refine hc'.imp_right ?_
        rintro ⟨k, j, signers', key, hik, hk, hkey⟩
        obtain ⟨hik', hk'⟩ := hlift (hlt hcaller) hik hk
        exact ⟨k, j, signers', key, hfirst.trans hik', hk', hkey⟩
      · exact .inr ⟨callers.length, caller, signers, key, .refl, hself, hkey, hat⟩

lemma normal_concat {maps : List (List ℕ)} {entries : List InstructionAccount} {map : List ℕ}
    (hlen : accounts.length = maps.length)
    (h : ∀ (i : ℕ) entries map, accounts[i]? = some entries → maps[i]? = some map → Normal map entries)
    (hnew : Normal map entries) (i : ℕ) (entries' : List InstructionAccount) (map' : List ℕ)
    (hi : (accounts ++ [entries])[i]? = some entries') (hi' : (maps ++ [map])[i]? = some map') :
    Normal map' entries' := by
  rcases getElem?_concat_eq_some.1 hi with hi | ⟨hlast, rfl⟩ <;>
    rcases getElem?_concat_eq_some.1 hi' with hi' | ⟨hlast', rfl⟩
  · exact h i entries' map' hi hi'
  · exact absurd (List.getElem?_eq_some_iff.1 hi).1 (by omega)
  · exact absurd (List.getElem?_eq_some_iff.1 hi').1 (by omega)
  · exact hnew

lemma Privileges.start {n : ℕ}
    (h : ∀ (i : ℕ) entries, accounts[i]? = some entries → ∀ e ∈ entries, FromMessage message e) :
    Privileges message keys accounts (replicate n none) := by
  have hno : ∀ i j, ¬ Calls (replicate n none) i j := fun i j ⟨signers, hcalls⟩ => by
    cases eq_of_mem_replicate (mem_of_getElem? hcalls)
  refine ⟨fun i j hij => absurd hij (hno i j), fun i entries hget e he hw => ?_,
    fun i entries hget e he hs => .inl ((h i entries hget e he).1 ▸ hs)⟩
  refine ⟨(h i entries hget e he).2 ▸ hw, fun j hij => ?_⟩
  rcases hij.cases_head with rfl | ⟨k, hik, -⟩
  · exact ⟨entries, hget, e, he, rfl, hw⟩
  · exact absurd hik (hno i k)

end Privileges

section Blocks

/-- Between two levels that run a program there is only that program. -/
def Blocks (programs : List (Except InstructionError Pubkey)) : Prop :=
  ∀ (a b c : ℕ) (p : Pubkey), a ≤ b → b ≤ c → programs[a]? = some (.ok p) →
    programs[c]? = some (.ok p) → programs[b]? = some (.ok p)

variable {programs : List (Except InstructionError Pubkey)}

lemma Blocks.dropLast (h : Blocks programs) : Blocks programs.dropLast := by
  intro a b c p hab hbc ha hc
  have hlt := (List.getElem?_eq_some_iff.1 hc).1
  rw [getElem?_dropLast, if_pos (by rw [length_dropLast] at hlt; omega)] at ha hc ⊢
  exact h a b c p hab hbc ha hc

lemma Blocks.append (h : Blocks programs) {p : Pubkey}
    (hp : (∀ x ∈ programs, x ≠ .ok p) ∨ programs.getLast? = some (.ok p)) :
    Blocks (programs ++ [.ok p]) := by
  intro a b c q hab hbc ha hc
  rcases getElem?_concat_eq_some.1 hc with hc | ⟨rfl, hq⟩
  · have hlt := (List.getElem?_eq_some_iff.1 hc).1
    rw [getElem?_append_left (by omega)] at ha ⊢
    exact h a b c q hab hbc ha hc
  · cases hq
    rcases hbc.lt_or_eq with hb | rfl
    · rw [getElem?_append_left (by omega)] at ha ⊢
      rcases hp with hp | hp
      · exact absurd rfl (hp _ (mem_of_getElem? ha))
      · rw [getLast?_eq_getElem?] at hp
        exact h a b (programs.length - 1) p hab (by omega) ha hp
    · exact getElem?_concat_length

end Blocks

namespace InvokeSession

variable {message : SvmMessage} {keys : List Pubkey} {s s' : InvokeSession} {o : List Empty}

/-- An instruction is prepared by the current one and then entered, the instructions of the message
are entered one after the other, and no list of accounts is longer than `u16::MAX`. -/
def Allowed (message : SvmMessage) (s : InvokeSession) : InvokeOp → Prop
  | .prepare instruction _ => s.prepared = false ∧ instruction.accounts.length ≤ u16Max
  | .push => if s.context.instructionStack = [] then s.prepared = false
      ∧ s.context.nextTopLevelInstructionIndex < message.instructions.length
    else s.prepared = true
  | .pop => s.prepared = false

instance (message : SvmMessage) (s : InvokeSession) (op : InvokeOp) :
    Decidable (s.Allowed message op) := by
  unfold Allowed
  split <;> infer_instance

/-- The invariant of a transaction with its calls. -/
structure Inv (message : SvmMessage) (keys : List Pubkey) (s : InvokeSession) : Prop where
  keys_eq : keysOf s.context = keys
  accounts_length : s.context.instructionAccounts.length = s.callers.length
  maps_length : s.context.deduplicationMaps.length = s.callers.length
  trace_length : (programsOf s.context).length = s.callers.length + if s.prepared then 0 else 1
  topLevel : message.instructions.length < (programsOf s.context).length
  stack_lt : ∀ i ∈ s.context.instructionStack, i + 1 < (programsOf s.context).length
  small : ∀ entries ∈ s.context.instructionAccounts, entries.length ≤ u16Max
  normal : ∀ (i : ℕ) entries map, s.context.instructionAccounts[i]? = some entries →
    s.context.deduplicationMaps[i]? = some map → Normal map entries
  privileges : Privileges message keys s.context.instructionAccounts s.callers
  blocks : Blocks (s.context.instructionStack.map (programAt s.context))

lemma Inv.push (h : Inv message keys s) (hop : s.Allowed message .push)
    (hs : s.step .push = .ok (s', o)) : Inv message keys s' := by
  simp only [step, Except.bind_eq_ok] at hs
  obtain ⟨context, hexec, hs⟩ := hs
  cases hs
  obtain ⟨hpushed, p, hp, hcond⟩ := execute_ok hexec pushed_invokePush
  have hstack := map_programAt s.context.instructionStack hpushed.keys
    fun i hi => hpushed.getElem?_programsOf ((Nat.lt_succ_self i).trans (h.stack_lt i hi))
  obtain ⟨hstack', hlen, hle, hlt, hlt'⟩ :
      context.instructionStack = s.context.instructionStack ++ [nextIndex s.context]
      ∧ (programsOf context).length = s.callers.length + 1
      ∧ (programsOf s.context).length ≤ (programsOf context).length
      ∧ nextIndex s.context < (programsOf s.context).length
      ∧ nextIndex s.context + 1 < (programsOf context).length := by
    have htrace := h.trace_length
    have htop := h.topLevel
    unfold nextIndex
    rcases hpushed.cases with ⟨hnil, hstack', -, hprograms⟩ | ⟨hne, hstack', -, hprograms⟩
    · simp only [Allowed, hnil, if_true] at hop
      rw [hop.1] at htrace
      rw [hprograms, if_pos hnil, hnil]
      exact ⟨hstack', htrace, le_rfl, by omega, by omega⟩
    · simp only [Allowed, hne] at hop
      rw [hop] at htrace
      rw [hprograms, if_neg hne, length_append, length_singleton]
      refine ⟨hstack', congrArg (· + 1) htrace, Nat.le_succ _, ?_⟩
      rw [getInstructionTraceLength, ← length_programsOf]
      omega
  have hnext : programAt context (nextIndex s.context) = .ok p := by
    rw [← hp, programAt_eq, programAt_eq, hpushed.keys, hpushed.getElem?_programsOf hlt]
  refine ⟨hpushed.keys.trans h.keys_eq, hpushed.accounts ▸ h.accounts_length,
    hpushed.maps ▸ h.maps_length, hlen, h.topLevel.trans_le hle, ?_, hpushed.accounts ▸ h.small,
    hpushed.accounts ▸ hpushed.maps ▸ h.normal, hpushed.accounts ▸ h.privileges, ?_⟩
  · rw [hstack']
    exact forall_mem_append.2 ⟨fun i hi => (h.stack_lt i hi).trans_le hle, forall_mem_singleton.2 hlt'⟩
  · rw [hstack', map_append, hstack, map_singleton, hnext]
    refine h.blocks.append (hcond.imp forall_mem_map.2 ?_)
    rintro ⟨i, hi, hat⟩
    rw [getLast?_map, hi, Option.map_some, hat]

lemma Inv.pop (h : Inv message keys s) (hop : s.Allowed message .pop)
    (hs : s.step .pop = .ok (s', o)) : Inv message keys s' := by
  simp only [step, Except.bind_eq_ok] at hs
  obtain ⟨context, hexec, hs⟩ := hs
  cases hs
  obtain rfl := execute_ok (Q := (· = { s.context with
      instructionStack := s.context.instructionStack.dropLast })) hexec <| by
    refine get_bind (ensure_bind (fun _ => modify_bind ?_) fun _ => trivial)
    refine ofExcept_bind (fun _ _ => ?_) fun _ _ => trivial
    exact Triple.ite (fun _ => Triple.pure fun _ hs => hs) fun _ => Triple.throw fun _ _ => trivial
  have hprepared : s.prepared = false := hop
  have htrace := h.trace_length
  rw [hprepared] at htrace
  refine { h with trace_length := htrace, stack_lt := fun i hi => ?_, blocks := ?_ }
  · exact h.stack_lt i (mem_of_mem_dropLast hi)
  · rw [map_dropLast]
    exact h.blocks.dropLast

lemma Inv.prepare (h : Inv message keys s) (hkeys : keys.length ≤ 2 ^ 16)
    {instruction : Instruction} {signers : List Pubkey}
    (hop : s.Allowed message (.prepare instruction signers))
    (hs : s.step (.prepare instruction signers) = .ok (s', o)) : Inv message keys s' := by
  simp only [step, Except.bind_eq_ok] at hs
  obtain ⟨context, hexec, hs⟩ := hs
  cases hs
  obtain ⟨caller, callee, hprep⟩ := execute_ok hexec (prepared_prepare instruction signers)
  obtain ⟨c, hc, hcallee⟩ := hprep.configured
  obtain ⟨f, rfl⟩ := hprep.frame
  have htrace := h.trace_length
  rw [hop.1] at htrace
  have hcaller : caller < s.callers.length := by
    have := h.stack_lt caller (mem_of_getLast? hprep.current)
    simp at htrace
    omega
  obtain ⟨entries, hentries⟩ : ∃ entries, s.context.instructionAccounts[caller]? = some entries :=
    ⟨_, getElem?_eq_getElem (h.accounts_length ▸ hcaller)⟩
  obtain ⟨map, hmap⟩ : ∃ map, s.context.deduplicationMaps[caller]? = some map :=
    ⟨_, getElem?_eq_getElem (h.maps_length ▸ hcaller)⟩
  obtain ⟨hcAccounts, hcMap⟩ : c.instructionAccounts = entries ∧ c.dedupMap = map := by
    unfold getInstructionContextAtIndexInTrace at hc
    rw [hentries, hmap] at hc
    split at hc <;> cases hc
    exact ⟨rfl, rfl⟩
  obtain ⟨hnormal, hlength, hderived⟩ := calleeAccounts_spec hop.2
    (hcAccounts ▸ hcMap ▸ h.normal caller entries map hentries hmap)
    (hcAccounts ▸ h.small entries (mem_of_getElem? hentries)) hcallee
  have hlen : ((s.context.instructionTrace.modify s.context.getInstructionTraceLength f).map
      (·.programAccountIndexInTx)).length = (programsOf s.context).length := by
    rw [length_map, length_modify, length_programsOf]
  simp only [hprep.current]
  refine ⟨h.keys_eq, ?_, ?_, ?_, ?_, fun i hi => ?_,
    forall_mem_append.2 ⟨h.small, forall_mem_singleton.2 (hlength.trans_le hop.2)⟩,
    normal_concat (h.accounts_length.trans h.maps_length.symm) h.normal hnormal, ?_, ?_⟩
  · rw [length_append, length_append, h.accounts_length]
    rfl
  · rw [length_append, length_append, h.maps_length]
    rfl
  · rw [length_append]
    exact hlen.trans htrace
  · exact h.topLevel.trans_eq hlen.symm
  · exact (h.stack_lt i hi).trans_eq hlen.symm
  · refine h.privileges.call h.accounts_length hentries fun e he => ?_
    obtain ⟨d, hd, hindex, hw, hsigner⟩ := hderived e he
    refine ⟨d, hcAccounts ▸ hd, hindex, hw, fun hes => (hsigner hes).imp_right ?_⟩
    rintro ⟨key, hkey, hfound⟩
    exact ⟨key, hkey, h.keys_eq ▸ getElem?_keysOf (h.keys_eq ▸ hkeys) hfound⟩
  · have hblocks := h.blocks
    rwa [← map_programAt s.context.instructionStack] at hblocks
    · rfl
    · intro i hi
      have hi := h.stack_lt i hi
      rw [length_programsOf] at hi
      have hne : s.context.getInstructionTraceLength ≠ i := by
        rw [getInstructionTraceLength]
        omega
      rw [programsOf, programsOf, getElem?_map, getElem?_modify_ne _ _ hne, getElem?_map]

lemma Inv.step (h : Inv message keys s) (hkeys : keys.length ≤ 2 ^ 16) {op : InvokeOp}
    (hop : s.Allowed message op) (hs : s.step op = .ok (s', o)) :
    Inv message keys s' := by
  cases op with
  | prepare instruction signers => exact h.prepare hkeys hop hs
  | push => exact h.push hop hs
  | pop => exact h.pop hop hs

/-- What holds once `k` top-level instructions are prepared. -/
structure Preparing (message : SvmMessage) (keys : List Pubkey) (k : ℕ) (s : TransactionContext) :
    Prop where
  keys_eq : keysOf s = keys
  accounts_length : s.instructionAccounts.length = k
  maps_length : s.deduplicationMaps.length = k
  trace_length : s.instructionTrace.length = message.instructions.length + 1
  stack_nil : s.instructionStack = []
  small : ∀ entries ∈ s.instructionAccounts, entries.length ≤ u16Max
  fromMessage : ∀ entries ∈ s.instructionAccounts, ∀ e ∈ entries, FromMessage message e
  normal : ∀ (i : ℕ) entries map, s.instructionAccounts[i]? = some entries →
    s.deduplicationMaps[i]? = some map → Normal map entries

lemma preparing_prepare {instruction : CompiledInstruction} {i k : ℕ}
    (hlen : instruction.accounts.length ≤ u16Max) (hi : i < message.instructions.length) :
    Triple (Preparing message keys k) (prepareTopLevelInstruction message (instruction, i))
      (fun _ => Preparing message keys (k + 1)) fun _ _ => False := by
  intro s hs
  obtain ⟨callee, hcallee, htop⟩ := topLevelAccounts_spec message hlen
  suffices Triple (· = s) _ (fun _ => Preparing message keys (k + 1)) fun _ _ => False from this s rfl
  refine ofStop_bind (fun callee' hok => ?_) fun e herror => ?_
  rotate_left
  · cases hcallee.symm.trans herror
  cases hcallee.symm.trans hok
  refine get_bind (ensure_bind (fun _ => ?_) fun hlt => hlt ?_)
  · rintro s rfl
    refine ⟨hs.keys_eq, ?_, ?_, ?_, hs.stack_nil,
      forall_mem_append.2 ⟨hs.small, forall_mem_singleton.2 (htop.length_eq.trans_le hlen)⟩,
      forall_mem_append.2 ⟨hs.fromMessage, forall_mem_singleton.2 htop.fromMessage⟩,
      normal_concat (hs.accounts_length.trans hs.maps_length.symm) hs.normal htop.normal⟩
    · rw [length_append, hs.accounts_length]
      rfl
    · rw [length_append, hs.maps_length]
      rfl
    · rw [length_modify, hs.trace_length]
  · rw [hs.trace_length]
    omega

lemma inv_start (accounts : List TransactionAccount) (sdk : ContextSdk)
    (stackCapacity traceCapacity : ℕ)
    (hmessage : ∀ instruction ∈ message.instructions, instruction.accounts.length ≤ u16Max) :
    ∃ s, start accounts sdk stackCapacity traceCapacity message = .ok s
      ∧ Inv message (accounts.map (·.key)) s := by
  have hprepare : Triple (Preparing message (accounts.map (·.key)) 0)
      (prepareTopLevelInstructions message)
      (fun _ => Preparing message (accounts.map (·.key)) message.instructions.zipIdx.length)
      fun _ _ => False := by
    refine Triple.forM (I := fun done => Preparing message (accounts.map (·.key)) done.length)
      fun done b hb => ?_
    obtain ⟨instruction, i⟩ := b
    have hmem := mem_zipIdx hb
    rw [length_append]
    refine preparing_prepare (hmessage instruction ?_) (by omega)
    exact hmem.2.2 ▸ getElem_mem _
  have h := hprepare (.new accounts sdk stackCapacity traceCapacity
    message.instructions.length) ⟨rfl, rfl, rfl, length_replicate, rfl, nofun, nofun, nofun⟩
  split at h
  · rename_i u context hok
    rw [length_zipIdx] at h
    refine ⟨⟨context, replicate message.instructions.length none, false⟩, ?_, ?_⟩
    · rw [start, execute, hok]
      rfl
    · have hprograms := length_programsOf context
      refine ⟨h.keys_eq, ?_, ?_, ?_, ?_, fun i hi => ?_, h.small, h.normal,
        .start fun i entries hi => h.fromMessage entries (mem_of_getElem? hi), ?_⟩
      · rw [length_replicate, h.accounts_length]
      · rw [length_replicate, h.maps_length]
      · rw [length_replicate, hprograms, h.trace_length]
        rfl
      · rw [hprograms, h.trace_length]
        exact Nat.lt_succ_self _
      · exact absurd (h.stack_nil ▸ hi) not_mem_nil
      · simp only [h.stack_nil]
        intro a b c p _ _ ha
        exact nomatch ha
  · exact h.elim

/-- For every message and every tree of calls: the entries of an account in an instruction have the
same flags, and the map has the first of them; the flags come from the message, the callers or the
signers these give; and a program is on the stack in one block only. -/
theorem invocation_privileges (accounts : List TransactionAccount) (sdk : ContextSdk)
    (stackCapacity traceCapacity : ℕ) (message : SvmMessage) (haccounts : accounts.length ≤ 2 ^ 16)
    (hmessage : ∀ instruction ∈ message.instructions, instruction.accounts.length ≤ u16Max) :
    ∃ s₀, start accounts sdk stackCapacity traceCapacity message = .ok s₀
      ∧ ∀ ops s o, Guarded step (Allowed message) s₀ ops → run step s₀ ops = .ok (s, o) →
        (∀ (i : ℕ) entries map, s.context.instructionAccounts[i]? = some entries →
          s.context.deduplicationMaps[i]? = some map → ∀ e ∈ entries,
          (∀ e' ∈ entries, e'.indexInTransaction = e.indexInTransaction →
            e'.isSigner = e.isSigner ∧ e'.isWritable = e.isWritable)
          ∧ map[e.indexInTransaction]?
            = some ((entries.map (·.indexInTransaction)).idxOf e.indexInTransaction))
        ∧ Privileges message (accounts.map (·.key)) s.context.instructionAccounts s.callers
        ∧ Blocks (s.context.instructionStack.map (programAt s.context)) := by
  obtain ⟨s₀, hstart, h0⟩ := inv_start accounts sdk stackCapacity traceCapacity hmessage
  refine ⟨s₀, hstart, fun ops s o hops hrun => ?_⟩
  have hkeys : (accounts.map TransactionAccount.key).length ≤ 2 ^ 16 := by rwa [length_map]
  have h : Inv message (accounts.map TransactionAccount.key) s := run_induction
    (P := fun _ _ s => Inv message (accounts.map TransactionAccount.key) s) h0
    (fun _ _ s op s' o' h hop hs => h.step hkeys hop hs) hops hrun
  refine ⟨fun i entries map hi hi' e he => ?_, h.privileges, h.blocks⟩
  have hnormal := h.normal i entries map hi hi'
  refine ⟨fun e' he' heq => ?_, hnormal.dedup.getElem? (mem_indicesOf he)⟩
  rw [hnormal.same e' he' e he heq]
  exact ⟨rfl, rfl⟩

open ContextSession (sampleKey sampleSdk)

def sampleAccount (byte : UInt8) : TransactionAccount := ⟨sampleKey byte, sampleKey 9, 0, [], true⟩

def sampleAccounts : List TransactionAccount := [sampleAccount 0, sampleAccount 1, sampleAccount 2]

def oneInstruction (accounts : List UInt8) : SvmMessage := ⟨[⟨0, accounts⟩], (· == 1), (· == 1)⟩

def callTwice : List InvokeOp :=
  [.push, .prepare ⟨sampleKey 2, [⟨sampleKey 1, true, false⟩, ⟨sampleKey 1, false, true⟩]⟩ [],
    .push]

/-- Both entries of the account are writable in the callee, as they are in the message. -/
theorem invocation_privileges_twice : ∃ s₀ s o,
    start sampleAccounts sampleSdk 5 64 (oneInstruction [1, 2]) = .ok s₀
    ∧ run step s₀ callTwice = .ok (s, o)
    ∧ ∀ (i : ℕ) entries, s.context.instructionAccounts[i]? = some entries → ∀ e ∈ entries,
      e.isWritable = true → (oneInstruction [1, 2]).isWritable e.indexInTransaction = true := by
  obtain ⟨s₀, hstart, h⟩ := invocation_privileges sampleAccounts sampleSdk 5 64
    (oneInstruction [1, 2]) (by decide) (by decide)
  obtain ⟨s1, hstart', hops, hrun⟩ := Except.exists_of_any
    (p := fun s₀ => Guarded step (Allowed (oneInstruction [1, 2])) s₀ callTwice
      ∧ (run step s₀ callTwice).toOption.isSome = true)
    (x := start sampleAccounts sampleSdk 5 64 (oneInstruction [1, 2])) (by decide +kernel)
  cases hstart.symm.trans hstart'
  rcases hrun' : run step s₀ callTwice with e | ⟨s, o⟩
  · rw [hrun'] at hrun
    cases hrun
  · exact ⟨s₀, s, o, hstart, hrun', fun i entries hi e he hw =>
      ((h callTwice s o hops hrun').2.1.writable i entries hi e he hw).1⟩

lemma foldlM_replicate_zero (message : SvmMessage) (k : ℕ) :
    (replicate (k + 1) 0).foldlM (addTopLevelAccount message) emptyCallee
      = .ok (emptyCallee.1.set 0 0,
        replicate (k + 1) ⟨0, message.isSigner 0, message.isWritable 0⟩) := by
  induction k with
  | zero => rfl
  | succ k ih =>
    rw [replicate_succ', foldlM_append, ih]
    rw [replicate_succ' (n := k + 1)]
    rfl

lemma start_oneInstruction {accounts : List UInt8} {callee : CalleeAccounts}
    (h : accounts.foldlM (addTopLevelAccount (oneInstruction accounts)) emptyCallee = .ok callee) :
    ∃ s0, start [sampleAccount 0, sampleAccount 1] sampleSdk 5 64 (oneInstruction accounts)
        = .ok s0
      ∧ s0.context.instructionAccounts = [callee.2]
      ∧ s0.context.deduplicationMaps = [callee.1] := by
  have hprepare : prepareTopLevelInstructions (oneInstruction accounts)
      = (configureInstructionAtIndex 0 0 callee.2 callee.1 none >>= fun _ => pure ()) := by
    change (prepareTopLevelInstruction (oneInstruction accounts) (⟨0, accounts⟩, 0)
      >>= fun _ => pure ()) = _
    rw [prepareTopLevelInstruction, h]
    rfl
  unfold start
  rw [hprepare]
  exact ⟨_, rfl, rfl, rfl⟩

/-- Behind 65536 entries of another account the position of an account is not kept. -/
theorem first_position_lost : ∃ accounts : List UInt8, ∃ s₀,
    start [sampleAccount 0, sampleAccount 1] sampleSdk 5 64 (oneInstruction accounts)
      = .ok s₀
    ∧ ∃ entries map, s₀.context.instructionAccounts[0]? = some entries
      ∧ s₀.context.deduplicationMaps[0]? = some map
      ∧ ∃ e ∈ entries, map[e.indexInTransaction]?
        ≠ some ((entries.map (·.indexInTransaction)).idxOf e.indexInTransaction) := by
  obtain ⟨k, hk⟩ : ∃ k, k = u16Max := ⟨_, rfl⟩
  have hfold : (replicate (k + 1) (0 : UInt8) ++ [1]).foldlM
      (addTopLevelAccount (oneInstruction (replicate (k + 1) 0 ++ [1]))) emptyCallee
      = .ok (emptyCallee.1.set 0 0,
        replicate (k + 1) ⟨0, false, false⟩ ++ [⟨1, true, true⟩]) := by
    rw [foldlM_append, foldlM_replicate_zero]
    change (addTopLevelAccount _ (emptyCallee.1.set 0 0,
      replicate (k + 1) ⟨0, false, false⟩) 1 >>= fun c => .ok c) = _
    unfold addTopLevelAccount
    have hget : (emptyCallee.1.set 0 0)[(1 : UInt8).toNat]? = some u16Max := rfl
    rw [hget]
    simp
    rw [if_neg (by omega)]
    rfl
  obtain ⟨s₀, hstart, haccounts, hmaps⟩ := start_oneInstruction hfold
  refine ⟨_, s₀, hstart, _, _, by rw [haccounts]; rfl, by rw [hmaps]; rfl, ⟨1, true, true⟩,
    mem_concat_self, ?_⟩
  have hget : (emptyCallee.1.set 0 0)[1]? = some u16Max := rfl
  have hnot : (1 : ℕ) ∉ replicate (k + 1) 0 := fun hmem =>
    absurd (eq_of_mem_replicate hmem) one_ne_zero
  rw [map_append, map_replicate, idxOf_append_of_notMem hnot,
    length_replicate]
  intro heq
  have := Option.some.inj heq
  omega

end InvokeSession

end BlackBull.Svm
