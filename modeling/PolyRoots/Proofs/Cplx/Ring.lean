import Mathlib.Algebra.Order.Field.Basic
import Mathlib.Algebra.Order.Ring.Abs
import Mathlib.Tactic.FieldSimp
import Mathlib.Tactic.Linarith
import Mathlib.Tactic.Ring
import PolyRoots.Cplx.Basic

universe u

namespace PolyRoots

namespace Cplx

variable {R : Type u}

section Ring

variable [CommRing R]

instance instZero : Zero (Cplx R) := ⟨⟨0, 0⟩⟩

instance instOne : One (Cplx R) := ⟨⟨1, 0⟩⟩

@[simp] theorem zero_re : (0 : Cplx R).re = 0 := rfl

@[simp] theorem zero_im : (0 : Cplx R).im = 0 := rfl

@[simp] theorem one_re : (1 : Cplx R).re = 1 := rfl

@[simp] theorem one_im : (1 : Cplx R).im = 0 := rfl

@[simp] theorem add_re (z w : Cplx R) : (z + w).re = z.re + w.re := rfl

@[simp] theorem add_im (z w : Cplx R) : (z + w).im = z.im + w.im := rfl

@[simp] theorem sub_re (z w : Cplx R) : (z - w).re = z.re - w.re := rfl

@[simp] theorem sub_im (z w : Cplx R) : (z - w).im = z.im - w.im := rfl

@[simp] theorem neg_re (z : Cplx R) : (-z).re = -z.re := rfl

@[simp] theorem neg_im (z : Cplx R) : (-z).im = -z.im := rfl

@[simp] theorem mul_re (z w : Cplx R) : (z * w).re = z.re * w.re - z.im * w.im := rfl

@[simp] theorem mul_im (z w : Cplx R) : (z * w).im = z.re * w.im + z.im * w.re := rfl

@[simp] theorem ofReal_re (x : R) : (ofReal x).re = x := rfl

@[simp] theorem ofReal_im (x : R) : (ofReal x).im = 0 := rfl

instance instCommRing : CommRing (Cplx R) where
  add_assoc z w v := by ext <;> simp [add_assoc]
  zero_add z := by ext <;> simp
  add_zero z := by ext <;> simp
  add_comm z w := by ext <;> simp [add_comm]
  neg_add_cancel z := by ext <;> simp
  sub_eq_add_neg z w := by ext <;> simp [sub_eq_add_neg]
  mul_assoc z w v := by ext <;> simp <;> ring
  one_mul z := by ext <;> simp
  mul_one z := by ext <;> simp
  zero_mul z := by ext <;> simp
  mul_zero z := by ext <;> simp
  left_distrib z w v := by ext <;> simp <;> ring
  right_distrib z w v := by ext <;> simp <;> ring
  mul_comm z w := by ext <;> simp <;> ring
  nsmul := nsmulRec
  zsmul := zsmulRec

def ofRealHom : R →+* Cplx R where
  toFun := ofReal
  map_zero' := rfl
  map_one' := rfl
  map_add' x y := by ext <;> simp
  map_mul' x y := by ext <;> simp

theorem ofRealHom_apply (x : R) : ofRealHom x = ofReal x := rfl

theorem ofReal_add (x y : R) : ofReal (x + y) = ofReal x + ofReal y := map_add ofRealHom x y

theorem ofReal_sub (x y : R) : ofReal (x - y) = ofReal x - ofReal y := map_sub ofRealHom x y

theorem ofReal_neg (x : R) : ofReal (-x) = -ofReal x := map_neg ofRealHom x

theorem ofReal_mul (x y : R) : ofReal (x * y) = ofReal x * ofReal y := map_mul ofRealHom x y

theorem ofReal_ofNat (n : Nat) [n.AtLeastTwo] : ofReal (OfNat.ofNat n : R) = OfNat.ofNat n :=
  map_ofNat ofRealHom n

theorem ofReal_ne_zero {x : R} (hx : x ≠ 0) : ofReal x ≠ 0 := fun h => hx (congrArg re h)

theorem normSq_mul (z w : Cplx R) : (z * w).normSq = z.normSq * w.normSq := by
  simp only [normSq, mul_re, mul_im]
  ring

instance instCharZero [CharZero R] : CharZero (Cplx R) where
  cast_injective m n h := by
    have hre (k : Nat) : (k : Cplx R) = ofReal (k : R) := (map_natCast ofRealHom k).symm
    rw [hre, hre] at h
    exact Nat.cast_injective (congrArg re h)

end Ring

section Field

variable [Field R] [LinearOrder R] [IsStrictOrderedRing R]

theorem normSq_nonneg (z : Cplx R) : 0 ≤ z.normSq :=
  add_nonneg (mul_self_nonneg _) (mul_self_nonneg _)

theorem normSq_eq_zero {z : Cplx R} : z.normSq = 0 ↔ z = 0 := by
  constructor
  · intro h
    have hre := mul_self_nonneg z.re
    have him := mul_self_nonneg z.im
    simp only [normSq] at h
    exact Cplx.ext (mul_self_eq_zero.1 (by linarith)) (mul_self_eq_zero.1 (by linarith))
  · rintro rfl
    simp [normSq]

theorem normSq_pos {z : Cplx R} (hz : z ≠ 0) : 0 < z.normSq :=
  lt_of_le_of_ne (normSq_nonneg z) fun h => hz (normSq_eq_zero.1 h.symm)

instance instInv : Inv (Cplx R) := ⟨fun z => ⟨z.re / z.normSq, -z.im / z.normSq⟩⟩

theorem mul_inv_cancel_of_ne_zero {z : Cplx R} (hz : z ≠ 0) : z * z⁻¹ = 1 := by
  have hn : z.normSq ≠ 0 := fun h => hz (normSq_eq_zero.1 h)
  apply Cplx.ext
  · change z.re * (z.re / z.normSq) - z.im * (-z.im / z.normSq) = 1
    field_simp
    simp only [normSq]
    ring
  · change z.re * (-z.im / z.normSq) + z.im * (z.re / z.normSq) = 0
    ring

theorem div_eq_mul_inv_parts (z w : Cplx R) : z / w = z * w⁻¹ := by
  apply Cplx.ext
  · change (z.re * w.re + z.im * w.im) / w.normSq =
      z.re * (w.re / w.normSq) - z.im * (-w.im / w.normSq)
    ring
  · change (z.im * w.re - z.re * w.im) / w.normSq =
      z.re * (-w.im / w.normSq) + z.im * (w.re / w.normSq)
    ring

/-- Division by zero gives zero here, as it does for the parts. -/
instance instField : Field (Cplx R) where
  inv := Inv.inv
  div := Div.div
  div_eq_mul_inv := div_eq_mul_inv_parts
  exists_pair_ne := ⟨0, 1, fun h => zero_ne_one (congrArg re h)⟩
  mul_inv_cancel _ := mul_inv_cancel_of_ne_zero
  inv_zero := by
    apply Cplx.ext
    · change (0 : R) / normSq 0 = 0
      exact zero_div _
    · change -(0 : R) / normSq 0 = 0
      rw [neg_zero, zero_div]
  nnqsmul := _
  nnqsmul_def _ _ := rfl
  qsmul := _
  qsmul_def _ _ := rfl

theorem ofReal_div (x y : R) : ofReal (x / y) = ofReal x / ofReal y := map_div₀ ofRealHom x y

theorem divReal_eq (z : Cplx R) (x : R) : z.divReal x = z / ofReal x := by
  by_cases hx : x = 0
  · subst hx
    change (⟨z.re / 0, z.im / 0⟩ : Cplx R) = ⟨_ / normSq (ofReal 0), _ / normSq (ofReal 0)⟩
    simp [normSq]
  · apply Cplx.ext
    · change z.re / x = (z.re * x + z.im * 0) / (x * x + 0 * 0)
      field_simp
      ring
    · change z.im / x = (z.im * x - z.re * 0) / (x * x + 0 * 0)
      field_simp
      ring

end Field

end Cplx

end PolyRoots
