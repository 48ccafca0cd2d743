import Mathlib.Algebra.Polynomial.Derivative
import PolyRoots.Coeffs.Calculus
import PolyRoots.Proofs.Coeffs.Denotation
import PolyRoots.Proofs.Scalar.Exact

universe u v

namespace PolyRoots

namespace Coeffs

open Polynomial

variable {R : Type u} [CommRing R]

theorem fallingFactor_succ {α : Type v} [One α] [Sub α] [Mul α] [NatCast α] (i k : Nat) :
    (fallingFactor i (k + 1) : α) = fallingFactor i k * ((i : α) - (k : α)) := by
  rw [fallingFactor, List.range_succ, List.foldl_append]
  rfl

theorem fallingFactor_eq (i k : Nat) : (fallingFactor i k : R) = i.descFactorial k := by
  induction k with
  | zero => simp [fallingFactor]
  | succ k ih =>
      rw [fallingFactor_succ, ih, Nat.descFactorial_succ, Nat.cast_mul, mul_comm]
      rcases le_or_gt k i with hk | hk
      · rw [Nat.cast_sub hk]
      -- the factors beyond `i` are negative, but by then the product has met zero
      · rw [Nat.descFactorial_of_lt hk, Nat.cast_zero, mul_zero, mul_zero]

theorem getD_derivative (k : Nat) (p : List R) (i : Nat) :
    (derivative k p).getD i 0 = p.getD (i + k) 0 * (i + k).descFactorial k := by
  unfold derivative
  split
  next hk => simp [hk]
  next hk =>
    split
    next hlen =>
      rw [List.getD_eq_default p _ (by omega), zero_mul]
      cases i <;> rfl
    next hlen =>
      rcases Nat.lt_or_ge (i + k) p.length with hi | hi
      · rw [List.getD_eq_getElem _ _ (by rw [List.length_mapIdx, List.length_drop]; omega),
          List.getElem_mapIdx, List.getElem_drop, fallingFactor_eq, List.getD_eq_getElem _ _ hi]
        simp only [Nat.add_comm]
      · rw [List.getD_eq_default p _ hi, zero_mul,
          List.getD_eq_default _ _ (by rw [List.length_mapIdx, List.length_drop]; omega)]

@[simp]
theorem polynomial_derivative (k : Nat) (p : List R) :
    polynomial (derivative k p) = Polynomial.derivative^[k] (polynomial p) := by
  ext i
  rw [coeff_polynomial, getD_derivative, coeff_iterate_derivative, nsmul_eq_mul, coeff_polynomial,
    mul_comm]

section Ordinary

variable {α : Type v} [Zero α] [One α] [Add α] [Sub α] [Mul α] [NatCast α] [BEq α] [Extended α]
  {φ : R → α}

theorem fallingFactor_ordinary (h : Ordinary φ) (i k : Nat) :
    (fallingFactor i k : α) = φ (fallingFactor i k) := by
  induction k with
  | zero => exact h.one.symm
  | succ k ih =>
      rw [fallingFactor_succ, fallingFactor_succ, ih, h.mul, h.sub, h.natCast, h.natCast]

theorem derivative_ordinary (h : Ordinary φ) (k : Nat) (p : List R) :
    derivative k (p.map φ) = (derivative k p).map φ := by
  unfold derivative
  rw [List.length_map]
  split
  · rfl
  · split
    · rw [List.map_singleton, h.zero]
    · apply List.ext_getElem
      · simp
      · intro i _ _
        simp [fallingFactor_ordinary h, h.mul]

end Ordinary

end Coeffs

end PolyRoots
