import PolyRoots.Proofs.Cplx.Polar
import PolyRoots.Proofs.Scalar.Principal

universe u

namespace PolyRoots

namespace Cplx

open Elementary

variable {K : Type u} [Field K] [LinearOrder K] [Elementary K]

/-- Every complex scalar has a square root. That of a real scalar which is not negative is real and not negative. -/
class PrincipalSqrt (K : Type u) [Field K] [LinearOrder K] [Elementary K] : Prop extends ExactSqrt K where
  power_half (z : Cplx K) : z.power (1 / 2) * z.power (1 / 2) = z
  power_half_real {x : K} : 0 ≤ x → ∃ y, 0 ≤ y ∧ (ofReal x).power (1 / 2) = ofReal y

variable [IsStrictOrderedRing K]

theorem power_half_ofReal [PrincipalSqrt K] {x : K} (hx : 0 ≤ x) :
    (ofReal x).power (1 / 2) = ofReal (sqrt x) := by
  obtain ⟨y, hy, hpower⟩ := PrincipalSqrt.power_half_real hx
  have hsq := PrincipalSqrt.power_half (ofReal x)
  rw [hpower, ← ofReal_mul] at hsq
  have hyx : y * y = x := congrArg re hsq
  have hroot : sqrt x * sqrt x = x := ExactSqrt.sqrt_mul_self hx
  rw [hpower, (mul_self_inj hy (ExactSqrt.sqrt_nonneg hx)).1 (hyx.trans hroot.symm)]

variable [Lawful K] [Principal K]

theorem angle_ofReal {x : K} (hx : 0 < x) : (ofReal x).angle = 0 := by
  have hnorm : 0 < sqrt (x * x + 0 * 0) := sqrt_pos (by rw [mul_zero, add_zero]; exact mul_pos hx hx)
  have hcos : sqrt (x * x + 0 * 0) * cos (ofReal x).angle = x := Lawful.mul_cos_atan2 x 0
  have hsin : sqrt (x * x + 0 * 0) * sin (ofReal x).angle = 0 := Lawful.mul_sin_atan2 x 0
  refine eq_zero_of_sin_eq_zero (Principal.neg_pi_lt_atan2 0 x) (Principal.atan2_le_pi 0 x) ?_ ?_
  · exact (mul_eq_zero.1 hsin).resolve_left hnorm.ne'
  · exact (mul_pos_iff_of_pos_left hnorm).1 (by rwa [hcos])

instance instPrincipalSqrt : PrincipalSqrt K where
  power_half := power_half_mul_self
  power_half_real {x} hx := by
    rcases hx.lt_or_eq with hpos | rfl
    · have hnorm : 0 < (ofReal x).normSq := normSq_pos (ofReal_ne_zero hpos.ne')
      refine ⟨pow (ofReal x).normSq (1 / 2 / 2), (Lawful.pow_pos _ hnorm).le, ?_⟩
      rw [power, angle_ofReal hpos, zero_mul, polar_zero]
    · refine ⟨0, le_rfl, ?_⟩
      have hsq := power_half_mul_self (ofReal (0 : K))
      exact mul_self_eq_zero.1 hsq

end Cplx

end PolyRoots
