import Mathlib.Data.Int.Order.Basic
import Mathlib.Data.Prod.Lex
import Snapshots.Time.Instant

/-! # Order by time and name

Instants are in order of their seconds, and of their parts below a second in the same second. What
has a time and a name is listed by time, and by name at the same time.
-/

namespace Snapshots.Time

namespace Instant

/-- What instants are ordered by. -/
def parts (t : Instant) : Int ×ₗ Nat :=
  toLex (t.seconds, t.nanos)

theorem parts_injective : Function.Injective parts := by
  intro a b h
  have hparts : (a.seconds, a.nanos) = (b.seconds, b.nanos) := h
  exact eq_of_parts (congrArg Prod.fst hparts) (congrArg Prod.snd hparts)

theorem parts_lt_parts_iff {a b : Instant} : a.parts < b.parts ↔ a < b :=
  Prod.Lex.toLex_lt_toLex

theorem parts_le_parts_iff {a b : Instant} : a.parts ≤ b.parts ↔ a ≤ b := by
  rw [le_iff, ← parts_lt_parts_iff, not_lt]

instance : LinearOrder Instant where
  le_refl a := parts_le_parts_iff.1 (le_refl a.parts)
  le_trans a b c hab hbc :=
    parts_le_parts_iff.1 ((parts_le_parts_iff.2 hab).trans (parts_le_parts_iff.2 hbc))
  le_antisymm a b hab hba :=
    parts_injective ((parts_le_parts_iff.2 hab).antisymm (parts_le_parts_iff.2 hba))
  le_total a b := by
    simp only [← parts_le_parts_iff]
    exact le_total a.parts b.parts
  lt_iff_le_not_ge a b := by
    simp only [← parts_le_parts_iff, ← parts_lt_parts_iff]
    exact lt_iff_le_not_ge
  toDecidableLE := inferInstance
  toDecidableEq := inferInstance
  toDecidableLT := inferInstance

end Instant

def Precedes (a b : Instant × String) : Prop :=
  a.1 < b.1 ∨ (a.1 = b.1 ∧ a.2 ≤ b.2)

variable {a b c : Instant × String}

theorem Precedes.trans (h₁ : Precedes a b) (h₂ : Precedes b c) : Precedes a c := by
  rcases h₁ with h₁ | ⟨h₁, hab⟩
  · rcases h₂ with h₂ | ⟨h₂, -⟩
    · exact .inl (h₁.trans h₂)
    · exact .inl (h₂ ▸ h₁)
  · rw [Precedes, h₁]
    exact h₂.imp_right fun h => ⟨h.1, String.le_trans hab h.2⟩

theorem Precedes.total (a b : Instant × String) : Precedes a b ∨ Precedes b a := by
  rcases lt_trichotomy a.1 b.1 with h | h | h
  · exact .inl (.inl h)
  · rcases String.le_total a.2 b.2 with hab | hba
    · exact .inl (.inr ⟨h, hab⟩)
    · exact .inr (.inr ⟨h.symm, hba⟩)
  · exact .inr (.inl h)

theorem Precedes.antisymm (h₁ : Precedes a b) (h₂ : Precedes b a) : a = b := by
  rcases h₁ with h₁ | ⟨h₁, hab⟩
  · rcases h₂ with h₂ | ⟨h₂, -⟩
    · exact absurd h₂ h₁.asymm
    · exact absurd h₁ (h₂ ▸ lt_irrefl _)
  · rcases h₂ with h₂ | ⟨-, hba⟩
    · exact absurd h₂ (h₁ ▸ lt_irrefl _)
    · exact Prod.ext h₁ (String.le_antisymm hab hba)

def StrictlyPrecedes (a b : Instant × String) : Prop :=
  a.1 < b.1 ∨ (a.1 = b.1 ∧ a.2 < b.2)

theorem strictlyPrecedes_iff : StrictlyPrecedes a b ↔ Precedes a b ∧ a ≠ b := by
  constructor
  · rintro (h | ⟨h, hab⟩)
    · refine ⟨.inl h, ?_⟩
      rintro rfl
      exact lt_irrefl _ h
    · refine ⟨.inr ⟨h, fun h => String.lt_asymm hab h⟩, ?_⟩
      rintro rfl
      exact String.lt_irrefl _ hab
  · rintro ⟨h | ⟨h, hab⟩, hne⟩
    · exact .inl h
    · refine .inr ⟨h, ?_⟩
      apply Decidable.byContradiction
      intro hlt
      exact hne (Prod.ext h (String.le_antisymm hab hlt))

end Snapshots.Time
