import BlackBull.Proofs.OwnVotes

/-!
# The certificates of two nodes

The pools of two nodes count what they receive.
-/

namespace BlackBull

open ConsensusPool Handler List

variable (stakes : ℕ → EpochStakes) (c c' : Certificate)

/-- A pool may build the certificate, whatever it receives. -/
def Certificate.Built [SignerStore] : Prop :=
  ∃ bank ops p trace, run (step stakes) (newFromRootBank bank) ops = .ok (p, trace)
    ∧ ∃ e ∈ trace, c ∈ e.2.built e.1

variable {stakes c c'}

namespace Certificate

lemma Built.sound [SignerStore] (h : c.Built stakes) (hgenesis : ∀ s b, c.certType ≠ .genesis s b) :
    c.Sound stakes := by
  obtain ⟨bank, ops, p, trace, hrun, e, he, hc⟩ := h
  refine (forall_outputs_iff_guarded (I := fun p => ∃ l, HoldsBallots stakes l p)
    (Q := fun e => ∀ c ∈ e.2.built e.1, (∀ s b, c.certType ≠ .genesis s b) → c.Sound stakes)
    (G := fun _ _ => True) (fun _ _ _ _ h hs => holdsBallots_step h hs) ?_
    ⟨[], holdsBallots_new bank⟩ hrun).2 (guarded_of_mem (fun _ _ => trivial) _) e he c hc hgenesis
  rintro p op p' trace ⟨l, h⟩ hs
  refine iff_of_true (fun e he c hc hgenesis => ?_) trivial
  obtain ⟨reply, rfl, ⟨-, hnil⟩ | ⟨rootBank, my, m, rfl, h', hbuilt⟩⟩ := step_ballots h hs <;>
    rw [mem_singleton.1 he] at hc
  · simp [hnil] at hc
  · obtain ⟨hct, hb⟩ := hbuilt c hc
    refine (sound_iff h'.ballots hb).2 fun m' hm' b hb' => block_of_not_genesis hct ?_ hm' hb'
    cases hv : m.vote <;> simp_all [voteToCertTypes, Vote.getType]

namespace Sound

variable (h : c.Sound stakes) (h' : c'.Sound stakes)
include h

include h'

end Sound

end Certificate

def notarized (b : Hash) : Certificate :=
  ⟨.notarize 1 b, [⟨.notarize 1 b, 0⟩, ⟨.notarize 1 b, 2⟩], [2, 1, 0, 1]⟩

open PlainStore

end BlackBull
