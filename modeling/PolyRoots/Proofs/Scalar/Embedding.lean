import Mathlib.Algebra.Order.Field.Basic
import PolyRoots.Scalar.Classes

universe u

namespace PolyRoots

/-- The rules of signs, and that small numerals are not zero, as far as divisors, square roots and powers
need them. Sums and products may be rounded, and undefined scalars compare with nothing. -/
class Signed (α : Type u) [Zero α] [One α] [Add α] [Neg α] [Mul α] [Div α] [NatCast α] [BEq α] [LT α] [LE α] :
    Prop where
  two_beq_zero : ((2 : α) == 0) = false
  three_beq_zero : ((3 : α) == 0) = false
  not_three_lt_zero : ¬(3 : α) < 0
  not_third_lt_zero : ¬(1 / 3 : α) < 0
  not_half_third_lt_zero : ¬(1 / 3 / 2 : α) < 0
  three_mul_beq_zero {x : α} : (x == 0) = false → (3 * x == 0) = false
  four_mul_beq_zero {x : α} : (x == 0) = false → (4 * x == 0) = false
  not_lt_zero_of_le {x : α} : 0 ≤ x → ¬x < 0
  not_neg_lt_zero_of_lt {x : α} : x < 0 → ¬-x < 0
  not_neg_lt_zero_of_not_le {x : α} : ¬0 ≤ x → ¬-x < 0
  not_sum_of_squares_lt_zero (x y : α) : ¬x * x + y * y < 0

instance instSignedOrderedField {K : Type u} [Field K] [LinearOrder K] [IsStrictOrderedRing K] [BEq K]
    [LawfulBEq K] : Signed K where
  two_beq_zero := beq_eq_false_iff_ne.2 two_ne_zero
  three_beq_zero := beq_eq_false_iff_ne.2 three_ne_zero
  not_three_lt_zero := zero_le_three.not_gt
  not_third_lt_zero := (one_div_nonneg.2 zero_le_three).not_gt
  not_half_third_lt_zero := (div_nonneg (one_div_nonneg.2 zero_le_three) zero_le_two).not_gt
  three_mul_beq_zero hx := beq_eq_false_iff_ne.2 (mul_ne_zero three_ne_zero (beq_eq_false_iff_ne.1 hx))
  four_mul_beq_zero hx := beq_eq_false_iff_ne.2 (mul_ne_zero four_ne_zero (beq_eq_false_iff_ne.1 hx))
  not_lt_zero_of_le h := h.not_gt
  not_neg_lt_zero_of_lt h := (neg_pos.2 h).not_gt
  not_neg_lt_zero_of_not_le h := (neg_pos.2 (not_le.1 h)).not_gt
  not_sum_of_squares_lt_zero x y := (add_nonneg (mul_self_nonneg x) (mul_self_nonneg y)).not_gt

theorem magnitude_eq_abs {K : Type u} [Field K] [LinearOrder K] [IsStrictOrderedRing K] (x : K) :
    magnitude x = |x| := by
  rw [magnitude]
  split
  next h => exact (abs_of_neg h).symm
  next h => exact (abs_of_nonneg (not_lt.1 h)).symm

section Structures

variable {α β : Type u} [Zero α] [One α] [Add α] [Sub α] [Neg α] [Mul α] [Div α] [NatCast α] [BEq α] [LT α]
  [Zero β] [One β] [Add β] [Sub β] [Neg β] [Mul β] [Div β] [NatCast β] [BEq β] [LT β]

/-- Operations and comparisons correspond, quotients where the divisor is not zero. -/
structure Embedding (φ : α → β) : Prop where
  zero : φ 0 = 0
  one : φ 1 = 1
  natCast (n : Nat) : φ n = n
  neg (x : α) : φ (-x) = -φ x
  add (x y : α) : φ (x + y) = φ x + φ y
  sub (x y : α) : φ (x - y) = φ x - φ y
  mul (x y : α) : φ (x * y) = φ x * φ y
  div (x : α) {y : α} : (y == 0) = false → φ (x / y) = φ x / φ y
  beq (x y : α) : (φ x == φ y) = (x == y)
  lt (x y : α) : φ x < φ y ↔ x < y

/-- The elementary functions correspond too, square roots and powers where no operand is negative. -/
structure ElementaryEmbedding [LE α] [LE β] [Elementary α] [Elementary β] (φ : α → β) : Prop
    extends Embedding φ where
  le (x y : α) : φ x ≤ φ y ↔ x ≤ y
  sqrt {x : α} : ¬x < 0 → φ (Elementary.sqrt x) = Elementary.sqrt (φ x)
  pow {x e : α} : ¬x < 0 → ¬e < 0 → φ (Elementary.pow x e) = Elementary.pow (φ x) (φ e)
  atan2 (y x : α) : φ (Elementary.atan2 y x) = Elementary.atan2 (φ y) (φ x)
  cos (x : α) : φ (Elementary.cos x) = Elementary.cos (φ x)
  sin (x : α) : φ (Elementary.sin x) = Elementary.sin (φ x)

namespace Embedding

variable {φ : α → β} (h : Embedding φ)

include h

theorem two : φ 2 = 2 := h.natCast 2

theorem three : φ 3 = 3 := h.natCast 3

theorem beq_zero (x : α) : (φ x == 0) = (x == 0) := by rw [← h.zero, h.beq]

theorem bne_zero (x : α) : (φ x != 0) = (x != 0) := by rw [bne, bne, h.beq_zero]

theorem lt_zero (x : α) : φ x < 0 ↔ x < 0 := by rw [← h.zero, h.lt]

theorem zero_lt (x : α) : 0 < φ x ↔ 0 < x := by rw [← h.zero, h.lt]

theorem magnitude [DecidableLT α] [DecidableLT β] (x : α) : φ (magnitude x) = PolyRoots.magnitude (φ x) := by
  simp only [PolyRoots.magnitude, h.lt_zero, ← h.neg]
  split <;> rfl

section Signed

variable [LE α] [Signed α]

theorem div_two (x : α) : φ (x / 2) = φ x / 2 := by rw [h.div x Signed.two_beq_zero, h.two]

theorem third : φ (1 / 3) = 1 / 3 := by rw [h.div 1 Signed.three_beq_zero, h.one, h.three]

theorem div_three_mul {a : α} (ha : (a == 0) = false) (x : α) : φ (x / (3 * a)) = φ x / (3 * φ a) := by
  rw [h.div x (Signed.three_mul_beq_zero ha), h.mul, h.three]

end Signed

end Embedding

end Structures

end PolyRoots
