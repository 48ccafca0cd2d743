import Mathlib.Algebra.Order.Field.Basic
import Mathlib.Tactic.Linarith
import Mathlib.Tactic.LinearCombination
import Mathlib.Tactic.Ring
import PolyRoots.Scalar.Classes

universe u

namespace PolyRoots

namespace Elementary

variable {K : Type u} [Field K] [LinearOrder K] [Elementary K]

class ExactSqrt (K : Type u) [Field K] [LinearOrder K] [Elementary K] : Prop where
  sqrt_nonneg {x : K} : 0 ≤ x → 0 ≤ sqrt x
  sqrt_mul_self {x : K} : 0 ≤ x → sqrt x * sqrt x = x

class Lawful (K : Type u) [Field K] [LinearOrder K] [Elementary K] : Prop where
  sqrt_nonneg {x : K} : 0 ≤ x → 0 ≤ sqrt x
  sqrt_mul_self {x : K} : 0 ≤ x → sqrt x * sqrt x = x
  pow_pos {x : K} (e : K) : 0 < x → 0 < pow x e
  pow_add {x : K} (d e : K) : 0 < x → pow x (d + e) = pow x d * pow x e
  pow_one {x : K} : 0 < x → pow x 1 = x
  zero_pow {e : K} : e ≠ 0 → pow 0 e = 0
  cos_add (x y : K) : cos (x + y) = cos x * cos y - sin x * sin y
  sin_add (x y : K) : sin (x + y) = sin x * cos y + cos x * sin y
  cos_sq_add_sin_sq (x : K) : cos x * cos x + sin x * sin x = 1
  cos_zero : cos (0 : K) = 1
  pi_pos : 0 < (pi : K)
  cos_pi : cos (pi : K) = -1
  sin_pos {x : K} : 0 < x → x < pi → 0 < sin x
  mul_cos_atan2 (x y : K) : sqrt (x * x + y * y) * cos (atan2 y x) = x
  mul_sin_atan2 (x y : K) : sqrt (x * x + y * y) * sin (atan2 y x) = y

class ZeroExponent (K : Type u) [Field K] [Elementary K] : Prop where
  zero_pow_zero : pow (0 : K) 0 = 1

theorem sqrt_zero [ExactSqrt K] : sqrt (0 : K) = 0 := mul_self_eq_zero.1 (ExactSqrt.sqrt_mul_self le_rfl)

theorem sqrt_pos [ExactSqrt K] {x : K} (hx : 0 < x) : 0 < sqrt x := by
  refine lt_of_le_of_ne (ExactSqrt.sqrt_nonneg hx.le) ?_
  intro hzero
  have hsq := ExactSqrt.sqrt_mul_self hx.le
  rw [← hzero, mul_zero] at hsq
  exact hx.ne hsq

variable [Lawful K]

instance instExactSqrt : ExactSqrt K where
  sqrt_nonneg := Lawful.sqrt_nonneg
  sqrt_mul_self := Lawful.sqrt_mul_self

theorem sin_zero : sin (0 : K) = 0 := by
  have h := Lawful.cos_sq_add_sin_sq (0 : K)
  rw [Lawful.cos_zero] at h
  exact mul_self_eq_zero.1 (by linear_combination h)

theorem sin_pi : sin (pi : K) = 0 := by
  have h := Lawful.cos_sq_add_sin_sq (pi : K)
  rw [Lawful.cos_pi] at h
  exact mul_self_eq_zero.1 (by linear_combination h)

theorem cos_add_two_pi (x : K) : cos (x + 2 * pi) = cos x := by
  rw [two_mul, ← add_assoc, Lawful.cos_add, Lawful.cos_add, Lawful.sin_add, Lawful.cos_pi, sin_pi]
  ring

theorem sin_add_two_pi (x : K) : sin (x + 2 * pi) = sin x := by
  rw [two_mul, ← add_assoc, Lawful.sin_add, Lawful.sin_add, Lawful.cos_add, Lawful.cos_pi, sin_pi]
  ring

theorem pow_exponent_zero {x : K} (hx : 0 < x) : pow x 0 = 1 := by
  have h := Lawful.pow_add 0 0 hx
  rw [add_zero] at h
  exact mul_left_cancel₀ (Lawful.pow_pos 0 hx).ne' (h.symm.trans (mul_one _).symm)

theorem pow_natCast_mul {x : K} (hx : 0 < x) (n : Nat) (e : K) : pow x (n * e) = pow x e ^ n := by
  induction n with
  | zero => rw [Nat.cast_zero, zero_mul, pow_exponent_zero hx, pow_zero]
  | succ n ih => rw [Nat.cast_succ, add_mul, one_mul, Lawful.pow_add _ _ hx, ih, pow_succ]

variable [IsStrictOrderedRing K]

theorem pow_one_div_pow {x : K} (hx : 0 < x) {n : Nat} (hn : n ≠ 0) : pow x (1 / n) ^ n = x := by
  rw [← pow_natCast_mul hx, mul_one_div_cancel (Nat.cast_ne_zero.2 hn), Lawful.pow_one hx]

theorem cos_ne_one {x : K} (hpos : 0 < x) (hlt : x < 2 * pi) : cos x ≠ 1 := by
  have hsin : 0 < sin (x / 2) := Lawful.sin_pos (by linarith) (by linarith)
  have hcos : cos x = 1 - 2 * (sin (x / 2) * sin (x / 2)) := by
    have hadd := Lawful.cos_add (x / 2) (x / 2)
    have hone := Lawful.cos_sq_add_sin_sq (x / 2)
    rw [add_halves] at hadd
    linear_combination hadd + hone
  have hsq := mul_pos hsin hsin
  rw [hcos]
  linarith

theorem pow_half {x : K} (hx : 0 < x) : pow x (1 / 2) = sqrt x := by
  have hpow : pow x (1 / 2) * pow x (1 / 2) = x := by
    rw [← Lawful.pow_add _ _ hx, add_halves, Lawful.pow_one hx]
  have hsqrt := Lawful.sqrt_mul_self hx.le
  exact (mul_self_inj (Lawful.pow_pos _ hx).le (Lawful.sqrt_nonneg hx.le)).1 (hpow.trans hsqrt.symm)

end Elementary

end PolyRoots
