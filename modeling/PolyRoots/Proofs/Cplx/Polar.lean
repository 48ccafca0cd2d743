import PolyRoots.Cplx.Polar
import PolyRoots.Proofs.Cplx.Ring
import PolyRoots.Proofs.Scalar.Lawful

universe u

namespace PolyRoots

namespace Cplx

open Elementary

variable {K : Type u} [Field K] [LinearOrder K] [Elementary K] [Lawful K]

theorem polar_mul (r s a b : K) : polar r a * polar s b = polar (r * s) (a + b) := by
  apply Cplx.ext
  · change r * cos a * (s * cos b) - r * sin a * (s * sin b) = r * s * cos (a + b)
    rw [Lawful.cos_add]
    ring
  · change r * cos a * (s * sin b) + r * sin a * (s * cos b) = r * s * sin (a + b)
    rw [Lawful.sin_add]
    ring

theorem polar_zero (r : K) : polar r 0 = ofReal r := by
  apply Cplx.ext
  · change r * cos 0 = r
    rw [Lawful.cos_zero, mul_one]
  · change r * sin 0 = 0
    rw [sin_zero, mul_zero]

theorem polar_pow (r a : K) (n : Nat) : polar r a ^ n = polar (r ^ n) (n * a) := by
  induction n with
  | zero => rw [pow_zero, pow_zero, Nat.cast_zero, zero_mul, polar_zero]; rfl
  | succ n ih => rw [pow_succ, ih, polar_mul, pow_succ, Nat.cast_succ, add_mul, one_mul]

theorem polar_turns (r a : K) (k : Nat) : polar r (a + 2 * pi * k) = polar r a := by
  induction k with
  | zero => rw [Nat.cast_zero, mul_zero, add_zero]
  | succ k ih =>
      have hturn : a + 2 * pi * ((k + 1 : Nat) : K) = a + 2 * pi * k + 2 * pi := by push_cast; ring
      rw [← ih, hturn, polar, cos_add_two_pi, sin_add_two_pi, polar]

theorem polar_sqrt_angle (z : Cplx K) : polar (sqrt z.normSq) z.angle = z := by
  apply Cplx.ext
  · exact Lawful.mul_cos_atan2 z.re z.im
  · exact Lawful.mul_sin_atan2 z.re z.im

theorem normSq_polar (r a : K) : (polar r a).normSq = r * r := by
  have h := Lawful.cos_sq_add_sin_sq a
  simp only [normSq, polar]
  linear_combination r * r * h

variable [IsStrictOrderedRing K]

theorem polar_ne {r a b : K} (hr : r ≠ 0) (hab : a < b) (hturn : b < a + 2 * pi) :
    polar r a ≠ polar r b := by
  intro h
  have hne : polar r a ≠ 0 := by
    intro hzero
    have hsq := normSq_polar r a
    rw [normSq_eq_zero.2 hzero] at hsq
    exact hr (mul_self_eq_zero.1 hsq.symm)
  have hmul : polar r a * polar 1 (b - a) = polar r a * 1 := by
    rw [polar_mul, mul_one, mul_one, add_sub_cancel, h]
  have hcos : 1 * cos (b - a) = 1 := congrArg re (mul_left_cancel₀ hne hmul)
  rw [one_mul] at hcos
  exact cos_ne_one (sub_pos.2 hab) (by linarith) hcos

theorem power_add {z : Cplx K} (hz : z ≠ 0) (d e : K) : z.power (d + e) = z.power d * z.power e := by
  rw [power, power, power, polar_mul, ← Lawful.pow_add _ _ (normSq_pos hz), add_div, mul_add]

theorem power_natCast_mul {z : Cplx K} (hz : z ≠ 0) (n : Nat) (e : K) : z.power (n * e) = z.power e ^ n := by
  rw [power, power, polar_pow, ← pow_natCast_mul (normSq_pos hz), mul_div_assoc, mul_left_comm]

theorem power_one {z : Cplx K} (hz : z ≠ 0) : z.power 1 = z := by
  rw [power, pow_half (normSq_pos hz), mul_one, polar_sqrt_angle]

theorem zero_power {e : K} (he : e ≠ 0) : (0 : Cplx K).power e = 0 := by
  have hpow : pow (0 : Cplx K).normSq (e / 2) = 0 := by
    rw [normSq_eq_zero.2 rfl]
    exact Lawful.zero_pow (div_ne_zero he two_ne_zero)
  rw [power, hpow]
  apply Cplx.ext
  · exact zero_mul _
  · exact zero_mul _

theorem power_half_mul_self (z : Cplx K) : z.power (1 / 2) * z.power (1 / 2) = z := by
  by_cases hz : z = 0
  · rw [hz, zero_power (by norm_num), zero_mul]
  · rw [← power_add hz, add_halves, power_one hz]

theorem power_one_div_pow {z : Cplx K} (hz : z ≠ 0) {n : Nat} (hn : n ≠ 0) :
    z.power (1 / n) ^ n = z := by
  rw [← power_natCast_mul hz, mul_one_div_cancel (Nat.cast_ne_zero.2 hn), power_one hz]

theorem power_third_mul_self {z : Cplx K} (hz : z ≠ 0) :
    z.power (1 / 3) * z.power (1 / 3) * z.power (1 / 3) = z := by
  have h := power_one_div_pow hz three_ne_zero
  rw [Nat.cast_ofNat] at h
  rw [← pow_two, ← pow_succ]
  exact h

end Cplx

end PolyRoots
