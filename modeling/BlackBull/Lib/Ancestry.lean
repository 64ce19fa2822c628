import Mathlib

/-!
# Ancestors in a forest

A forest is given by the parents of its nodes.
-/

namespace BlackBull

variable {α : Type} {parent : α → Option α} {a b c : α}

/-- `a` is `b`, or stands above it. -/
def Ancestor (parent : α → Option α) : α → α → Prop :=
  Relation.ReflTransGen fun a b => parent b = some a

namespace Ancestor

protected theorem refl (a : α) : Ancestor parent a a := Relation.ReflTransGen.refl

protected theorem trans (h : Ancestor parent a b) (h' : Ancestor parent b c) : Ancestor parent a c :=
  Relation.ReflTransGen.trans h h'

theorem cases_parent (h : Ancestor parent a b) :
    a = b ∨ ∃ p, parent b = some p ∧ Ancestor parent a p := by
  rcases Relation.ReflTransGen.cases_tail h with rfl | ⟨p, hap, hpb⟩
  · exact .inl rfl
  · exact .inr ⟨p, hpb, hap⟩

end Ancestor

end BlackBull
