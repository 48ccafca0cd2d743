import Mathlib.Tactic.FieldSimp
import PolyRoots.Proofs.Cplx.Roots
import PolyRoots.Proofs.Solve.Vieta
import PolyRoots.Solve.Quadratic

universe u

namespace PolyRoots

namespace Solve

section Formula

variable {F : Type u} [Field F] {a b c k s : F}

def bothRoots (first : Prop) [Decidable first] (a k s : F) : Row 2 F :=
  if first then ⟨[(-k - s) / a, (-k + s) / a], rfl⟩ else ⟨[(-k + s) / a, (-k - s) / a], rfl⟩

section Order

variable {first : Prop} [Decidable first]

theorem bothRoots_of_pos (h : first) :
    bothRoots first a k s = ⟨[(-k - s) / a, (-k + s) / a], rfl⟩ := if_pos h

theorem bothRoots_of_neg (h : ¬first) :
    bothRoots first a k s = ⟨[(-k + s) / a, (-k - s) / a], rfl⟩ := if_neg h

end Order

theorem vieta₂_formula [CharZero F] (ha : a ≠ 0) (hs : s * s = b / 2 * (b / 2) - a * c) :
    Vieta₂ a b c ⟨[(-(b / 2) - s) / a, (-(b / 2) + s) / a], rfl⟩ := by
  constructor
  · change a * ((-(b / 2) - s) / a + (-(b / 2) + s) / a) = -b
    field_simp
    ring
  · change a * ((-(b / 2) - s) / a * ((-(b / 2) + s) / a)) = c
    field_simp
    linear_combination -4 * hs

theorem vieta₂_bothRoots [CharZero F] (first : Prop) [Decidable first] (ha : a ≠ 0)
    (hs : s * s = b / 2 * (b / 2) - a * c) : Vieta₂ a b c (bothRoots first a (b / 2) s) := by
  by_cases h : first
  · rw [bothRoots_of_pos h]
    exact vieta₂_formula ha hs
  · have hneg := vieta₂_formula ha ((neg_mul_neg s s).trans hs)
    rw [sub_neg_eq_add, ← sub_eq_add_neg] at hneg
    rwa [bothRoots_of_neg h]

theorem bothRoots_map {G : Type u} [Field G] (φ : F →+* G) (first : Prop) [Decidable first] (a k s : F) :
    bothRoots first (φ a) (φ k) (φ s) = (bothRoots first a k s).map φ := by
  by_cases h : first
  · simp only [bothRoots_of_pos h, ← map_neg, ← map_sub, ← map_add, ← map_div₀]
    rfl
  · simp only [bothRoots_of_neg h, ← map_neg, ← map_sub, ← map_add, ← map_div₀]
    rfl

end Formula

variable {K : Type u} [Field K] [LinearOrder K] [IsStrictOrderedRing K] [Elementary K]

theorem quadraticComplex_eq (a b c : Cplx K) : quadraticComplex a b c =
    bothRoots (0 < a.re) a (b / 2) ((b / 2 * (b / 2) - a * c).power (1 / 2)) := by
  have hk : b.divReal 2 = b / 2 := by rw [Cplx.divReal_eq, Cplx.ofReal_ofNat]
  rw [← hk]
  rfl

theorem vieta₂_quadraticComplex (hpower : ∀ z : Cplx K, z.power (1 / 2) * z.power (1 / 2) = z) {a : Cplx K}
    (ha : a ≠ 0) (b c : Cplx K) : Vieta₂ a b c (quadraticComplex a b c) := by
  rw [quadraticComplex_eq]
  exact vieta₂_bothRoots (0 < a.re) ha (hpower _)

end Solve

end PolyRoots
