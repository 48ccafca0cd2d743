import Mathlib.Analysis.SpecialFunctions.Complex.Arg
import Mathlib.Analysis.SpecialFunctions.Pow.Real
import PolyRoots.Proofs.Scalar.Exact
import PolyRoots.Proofs.Scalar.Lawful

namespace PolyRoots

noncomputable instance instExtendedReal : Extended ℝ where
  isNaN _ := false
  isInf _ := false
  nan := 0
  infinity := 0
  sign x := if 0 < x then 1 else if x < 0 then -1 else 0

instance instExactReal : Extended.Exact ℝ where
  isNaN_eq_false _ := rfl
  isInf_eq_false _ := rfl

namespace Elementary

noncomputable instance instElementaryReal : Elementary ℝ where
  sqrt := Real.sqrt
  pow x e := x ^ e
  atan2 y x := Complex.arg ⟨x, y⟩
  cos := Real.cos
  sin := Real.sin
  pi := Real.pi

theorem sqrt_eq_norm (x y : ℝ) : sqrt (x * x + y * y) = ‖(⟨x, y⟩ : ℂ)‖ := by
  rw [Complex.norm_def, Complex.normSq_mk]
  rfl

instance instLawfulReal : Lawful ℝ where
  sqrt_nonneg _ := Real.sqrt_nonneg _
  sqrt_mul_self := Real.mul_self_sqrt
  pow_pos e hx := Real.rpow_pos_of_pos hx e
  pow_add d e hx := Real.rpow_add hx d e
  pow_one _ := Real.rpow_one _
  zero_pow := Real.zero_rpow
  cos_add := Real.cos_add
  sin_add := Real.sin_add
  cos_sq_add_sin_sq x := by
    rw [← pow_two, ← pow_two]
    exact Real.cos_sq_add_sin_sq x
  cos_zero := Real.cos_zero
  pi_pos := Real.pi_pos
  cos_pi := Real.cos_pi
  sin_pos := Real.sin_pos_of_pos_of_lt_pi
  mul_cos_atan2 x y := by
    rw [sqrt_eq_norm]
    exact Complex.norm_mul_cos_arg ⟨x, y⟩
  mul_sin_atan2 x y := by
    rw [sqrt_eq_norm]
    exact Complex.norm_mul_sin_arg ⟨x, y⟩

instance instZeroExponentReal : ZeroExponent ℝ where
  zero_pow_zero := Real.rpow_zero 0

end Elementary

end PolyRoots
