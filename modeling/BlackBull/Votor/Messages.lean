import Mathlib

/-!
# Votes, certificates and stake fractions

The message types of `votor-messages` and the tables of `votor/src/common.rs`.
-/

namespace BlackBull

abbrev Hash := ℕ

abbrev Pubkey := ℕ

abbrev Block := ℕ × Hash

instance : LawfulBEq Block := inferInstance

def u64Max : ℕ := 2 ^ 64 - 1

def saturatingAdd (a b : ℕ) : ℕ := min (a + b) u64Max

def numConsecutiveLeaderSlots : ℕ := 4

/-- Numerator / denominator, for precise comparisons without floating point. -/
structure Fraction where
  numerator : ℕ
  denominator : ℕ
  denominator_pos : 0 < denominator

namespace Fraction

/-- `Ord` of the source cross-multiplies in 128 bits, which two 64-bit factors never overflow. -/
def lt (a b : Fraction) : Prop := a.numerator * b.denominator < b.numerator * a.denominator

instance (a b : Fraction) : Decidable (a.lt b) := inferInstanceAs (Decidable (_ < _))

def ge (a b : Fraction) : Prop := b.numerator * a.denominator ≤ a.numerator * b.denominator

instance (a b : Fraction) : Decidable (a.ge b) := inferInstanceAs (Decidable (_ ≤ _))

def fromPercentage (pct : ℕ) : Fraction := ⟨pct, 100, by decide⟩

def toRat (a : Fraction) : ℚ := a.numerator / a.denominator

theorem not_lt {a b : Fraction} : ¬ a.lt b ↔ a.ge b := by
  simp [lt, ge]

theorem ge_iff_toRat (a b : Fraction) : a.ge b ↔ b.toRat ≤ a.toRat := by
  have ha : (0 : ℚ) < a.denominator := by exact_mod_cast a.denominator_pos
  have hb : (0 : ℚ) < b.denominator := by exact_mod_cast b.denominator_pos
  unfold ge toRat
  rw [div_le_div_iff₀ hb ha]
  exact_mod_cast Iff.rfl

end Fraction

inductive Vote
  | notarize (slot : ℕ) (blockId : Hash)
  | finalize (slot : ℕ)
  | skip (slot : ℕ)
  | notarizeFallback (slot : ℕ) (blockId : Hash)
  | skipFallback (slot : ℕ)
  | genesis (slot : ℕ) (blockId : Hash)
  deriving DecidableEq, Repr

/-- Enum of different types of votes, in the order the source derives. -/
inductive VoteType
  | finalize
  | notarize
  | notarizeFallback
  | skip
  | skipFallback
  | genesis
  deriving DecidableEq, Repr

namespace Vote

def slot : Vote → ℕ
  | notarize s _ | finalize s | skip s | notarizeFallback s _ | skipFallback s | genesis s _ => s

def blockId : Vote → Option Hash
  | notarize _ b | notarizeFallback _ b | genesis _ b => some b
  | finalize _ | skip _ | skipFallback _ => none

def getType : Vote → VoteType
  | notarize _ _ => .notarize
  | notarizeFallback _ _ => .notarizeFallback
  | skip _ => .skip
  | skipFallback _ => .skipFallback
  | finalize _ => .finalize
  | genesis _ _ => .genesis

/-- A notarization or a skip vote: the first vote of a node in a slot. -/
def IsFirst (v : Vote) : Prop := v.getType = .notarize ∨ v.getType = .skip

instance (v : Vote) : Decidable v.IsFirst := inferInstanceAs (Decidable (_ ∨ _))

end Vote

inductive CertificateType
  | finalize (slot : ℕ)
  | finalizeFast (slot : ℕ) (blockId : Hash)
  | notarize (slot : ℕ) (blockId : Hash)
  | notarizeFallback (slot : ℕ) (blockId : Hash)
  | skip (slot : ℕ)
  | genesis (slot : ℕ) (blockId : Hash)
  deriving DecidableEq, Repr

namespace VoteType

def index : VoteType → ℕ
  | finalize => 0
  | notarize => 1
  | notarizeFallback => 2
  | skip => 3
  | skipFallback => 4
  | genesis => 5

theorem index_injective : Function.Injective index := by
  intro a b h
  cases a <;> cases b <;> first | rfl | simp [index] at h

instance : LinearOrder VoteType := LinearOrder.lift' index index_injective

end VoteType

/-- The type of the votes a vote pool holds and their slot, in the order the source derives. -/
abbrev PoolId := ℕ ×ₗ VoteType

namespace CertificateType

def slot : CertificateType → ℕ
  | finalize s | finalizeFast s _ | notarize s _ | notarizeFallback s _ | genesis s _ | skip s => s

def toBlock : CertificateType → Option Block
  | finalize _ | skip _ => none
  | notarize s b | notarizeFallback s b | genesis s b | finalizeFast s b => some (s, b)

/-- The place in the derived order: the variant, then its fields. -/
def key : CertificateType → ℕ ×ₗ ℕ ×ₗ ℕ
  | finalize s => toLex (0, toLex (s, 0))
  | finalizeFast s b => toLex (1, toLex (s, b))
  | notarize s b => toLex (2, toLex (s, b))
  | notarizeFallback s b => toLex (3, toLex (s, b))
  | skip s => toLex (4, toLex (s, 0))
  | genesis s b => toLex (5, toLex (s, b))

theorem key_injective : Function.Injective key := by
  intro a b h
  cases a <;> cases b <;> simp_all [key]

instance : LinearOrder CertificateType := LinearOrder.lift' key key_injective

def genesisVoteThreshold : Fraction := .fromPercentage 82

/-- Returns the stake fraction required for certificate completion and the vote types that
contribute to this certificate. -/
def limitsAndVoteTypes : CertificateType → Fraction × List VoteType
  | notarize _ _ => (.fromPercentage 60, [.notarize])
  | notarizeFallback _ _ => (.fromPercentage 60, [.notarize, .notarizeFallback])
  | finalizeFast _ _ => (.fromPercentage 80, [.notarize])
  | finalize _ => (.fromPercentage 60, [.finalize])
  | skip _ => (.fromPercentage 60, [.skip, .skipFallback])
  | genesis _ _ => (genesisVoteThreshold, [.genesis])

end CertificateType

def conflictingTypes : VoteType → List VoteType
  | .finalize => [.notarizeFallback, .skip, .skipFallback]
  | .notarize => [.skip, .notarizeFallback]
  | .notarizeFallback => [.finalize, .notarize]
  | .skip => [.finalize, .notarize, .skipFallback]
  | .skipFallback => [.skip, .finalize]
  | .genesis => [.finalize, .notarize, .notarizeFallback, .skip, .skipFallback]

def voteToCertTypes : Vote → List CertificateType
  | .notarize s b => [.notarize s b, .notarizeFallback s b, .finalizeFast s b]
  | .notarizeFallback s b => [.notarizeFallback s b]
  | .finalize s => [.finalize s]
  | .skip s => [.skip s]
  | .skipFallback s => [.skip s]
  | .genesis s b => [.genesis s b]

def maxEntriesPerPubkeyForOtherTypes : ℕ := 1

def maxEntriesPerPubkeyForNotarizeLite : ℕ := 3

def maxNotarFallbackBlocks : ℕ := 7

def safeToNotarMinNotarizeOnly : Fraction := .fromPercentage 40

def safeToNotarMinNotarizeForNotarizeOrSkip : Fraction := .fromPercentage 20

def safeToNotarMinNotarizeAndSkip : Fraction := .fromPercentage 60

def safeToSkipThreshold : Fraction := .fromPercentage 40

end BlackBull
