import PolyRoots.Proofs.Cplx.Polar
import PolyRoots.Proofs.Scalar.Real

universe u

namespace PolyRoots

namespace Cplx

open Elementary

variable {K : Type u} [Field K] [LinearOrder K] [Elementary K] [Lawful K] [IsStrictOrderedRing K]
  [ZeroExponent K]

theorem power_zero (z : Cplx K) : z.power 0 = 1 := by
  have hpow : pow z.normSq (0 : K) = 1 := by
    by_cases hz : z = 0
    · rw [normSq_eq_zero.2 hz]
      exact ZeroExponent.zero_pow_zero
    · exact pow_exponent_zero (normSq_pos hz)
  rw [power, zero_div, mul_zero, hpow, polar_zero]
  rfl

theorem power_natCast (z : Cplx K) (n : Nat) : z.power n = z ^ n := by
  by_cases hz : z = 0
  · cases n with
    | zero => rw [Nat.cast_zero, power_zero, pow_zero]
    | succ n => rw [hz, zero_power (Nat.cast_ne_zero.2 n.succ_ne_zero), zero_pow n.succ_ne_zero]
  · rw [← mul_one (n : K), power_natCast_mul hz, power_one hz]

/-- The power with a natural number as exponent is the product of that many factors, for zero as well. For all
other scalars the sum of two exponents gives the product of the powers. -/
theorem power_laws :
    (∀ (z : Cplx K) (n : Nat), z.power n = z ^ n) ∧
      ∀ (z : Cplx K) (d e : K), z ≠ 0 → z.power (d + e) = z.power d * z.power e :=
  ⟨power_natCast, fun _ d e hz => power_add hz d e⟩

theorem power_laws_imaginary :
    Lawful ℝ ∧ ZeroExponent ℝ ∧ (⟨0, 1⟩ : Cplx ℝ) ≠ 0 ∧
      (0 : Cplx ℝ).power ((0 : Nat) : ℝ) = 0 ^ 0 ∧ (⟨0, 1⟩ : Cplx ℝ).power ((3 : Nat) : ℝ) = ⟨0, 1⟩ ^ 3 ∧
      (⟨0, 1⟩ : Cplx ℝ).power (1 / 2 + 1 / 2) = (⟨0, 1⟩ : Cplx ℝ).power (1 / 2) * (⟨0, 1⟩ : Cplx ℝ).power (1 / 2) := by
  have hne : (⟨0, 1⟩ : Cplx ℝ) ≠ 0 := fun h => one_ne_zero (congrArg im h)
  obtain ⟨hnat, hadd⟩ := power_laws (K := ℝ)
  exact ⟨inferInstance, inferInstance, hne, hnat 0 0, hnat _ 3, hadd _ _ _ hne⟩

end Cplx

end PolyRoots
