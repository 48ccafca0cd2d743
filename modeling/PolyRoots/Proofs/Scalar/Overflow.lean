import Mathlib.Data.Sign.Defs
import PolyRoots.Proofs.Scalar.Line

universe u

namespace PolyRoots

def direction {α : Type u} [Zero α] [LT α] [DecidableLT α] (x : α) : SignType :=
  if 0 < x then 1 else if x < 0 then -1 else 0

def infiniteTo {α : Type u} [Neg α] [Extended α] : SignType → α
  | .pos => Extended.infinity
  | .neg => -Extended.infinity
  | .zero => Extended.nan

/-- Sums and products of finite scalars are finite or infinite. Which of them overflow is left open,
and so is the rounding of the others, but a zero is exact: as a factor it gives zero, and as a summand
it does not make a finite scalar infinite. -/
class Overflowing (α : Type u) [Zero α] [Add α] [Neg α] [Mul α] [BEq α] [LT α] [DecidableLT α]
    [Extended α] : Prop where
  zero_beq_zero : (0 : α) == 0
  isFinite_of_beq_zero {x : α} : x == 0 → Extended.isFinite x
  direction_eq_zero {x : α} : Extended.isNaN x = false → direction x = 0 → x == 0
  direction_ne_zero {x : α} : Extended.isInf x → direction x ≠ 0
  isNaN_of_isInf {x : α} : Extended.isInf x → Extended.isNaN x = false
  isInf_infiniteTo {s : SignType} : s ≠ 0 → Extended.isInf (infiniteTo s : α)
  direction_infiniteTo (s : SignType) : direction (infiniteTo s : α) = s
  isFinite_sign {x : α} : Extended.isNaN x = false → Extended.isFinite (Extended.sign x)
  direction_sign {x : α} : Extended.isNaN x = false → direction (Extended.sign x) = direction x
  isNaN_add {x y : α} :
    Extended.isFinite x → Extended.isFinite y → Extended.isNaN (x + y) = false
  isNaN_mul {x y : α} :
    Extended.isFinite x → Extended.isFinite y → Extended.isNaN (x * y) = false
  isFinite_zero_add {x y : α} : x == 0 → Extended.isFinite y → Extended.isFinite (x + y)
  mul_beq_zero {x y : α} : Extended.isFinite x → y == 0 → x * y == 0
  beq_zero_mul {x y : α} : x == 0 → Extended.isFinite y → x * y == 0
  infinite_add {x y : α} :
    Extended.isInf x → Extended.isFinite y → x + y = infiniteTo (direction x)
  infinite_mul {x y : α} : Extended.isInf x → Extended.isFinite y → direction y ≠ 0 →
    x * y = infiniteTo (direction x * direction y)
  finite_mul {x y : α} : Extended.isFinite x → direction x ≠ 0 → Extended.isInf y →
    x * y = infiniteTo (direction x * direction y)

namespace Extended

variable {α : Type u} [Extended α] {x : α}

theorem isFinite_iff : isFinite x ↔ isNaN x = false ∧ isInf x = false := by
  simp [isFinite]

theorem isNaN_of_isFinite (h : isFinite x) : isNaN x = false := (isFinite_iff.1 h).1

theorem isInf_of_isFinite (h : isFinite x) : isInf x = false := (isFinite_iff.1 h).2

theorem isFinite_of_isInf_eq_false (hnan : isNaN x = false) (hinf : isInf x = false) : isFinite x :=
  isFinite_iff.2 ⟨hnan, hinf⟩

end Extended

theorem Overflowing.direction_ne_zero_of_isFinite {α : Type u} [Zero α] [Add α] [Neg α] [Mul α] [BEq α]
    [LT α] [DecidableLT α] [Extended α] [Overflowing α] {x : α} (hx : Extended.isFinite x)
    (hne : (x == 0) = false) : direction x ≠ 0 := fun h =>
  Bool.eq_false_iff.1 hne (direction_eq_zero (Extended.isNaN_of_isFinite hx) h)

namespace Line

variable {K : Type u} [Field K] [LinearOrder K]

theorem isFinite_iff (x : Line K) : Extended.isFinite x ↔ ∃ k, x = finite k := by
  cases x <;> simp [Extended.isFinite, Extended.isNaN, Extended.isInf]

theorem isInf_iff (x : Line K) : Extended.isInf x ↔ x = posInf ∨ x = negInf := by
  cases x <;> simp [Extended.isInf]

theorem beq_zero_iff (x : Line K) : x == 0 ↔ x = finite 0 := by
  cases x <;> simp [BEq.beq, equal, OfNat.ofNat]

theorem direction_finite (k : K) : direction (finite k) = SignType.sign k := by
  have hpos : (0 : Line K) < finite k ↔ 0 < k := finite_lt_finite 0 k
  have hneg : finite k < (0 : Line K) ↔ k < 0 := finite_lt_finite k 0
  simp only [direction, hpos, hneg, sign_apply]

theorem infiniteTo_sign (k : K) : infiniteTo (SignType.sign k) = infinite k := by
  simp only [sign_apply, infinite]
  split
  · rfl
  · split <;> rfl

theorem direction_posInf : direction (posInf : Line K) = 1 := rfl

theorem direction_negInf : direction (negInf : Line K) = -1 := rfl

theorem posInf_mul_finite (k : K) : posInf * finite k = infiniteTo (SignType.sign k) :=
  (infiniteTo_sign k).symm

theorem finite_mul_posInf (k : K) : finite k * posInf = infiniteTo (SignType.sign k) :=
  (infiniteTo_sign k).symm

variable [IsStrictOrderedRing K]

theorem negInf_mul_finite (k : K) : negInf * finite k = infiniteTo (-SignType.sign k) := by
  rw [← Left.sign_neg, infiniteTo_sign]
  rfl

theorem finite_mul_negInf (k : K) : finite k * negInf = infiniteTo (-SignType.sign k) := by
  rw [← Left.sign_neg, infiniteTo_sign]
  rfl

instance instOverflowing : Overflowing (Line K) where
  zero_beq_zero := (beq_zero_iff _).2 rfl
  isFinite_of_beq_zero h := (isFinite_iff _).2 ⟨0, (beq_zero_iff _).1 h⟩
  direction_eq_zero {x} hnan h := by
    cases x with
    | finite k => rw [direction_finite, sign_eq_zero_iff] at h; rw [h, beq_zero_iff]
    | undefined => cases hnan
    | posInf | negInf => cases h
  direction_ne_zero {x} h := by
    cases x with
    | posInf | negInf => exact nofun
    | finite k => cases h
    | undefined => cases h
  isNaN_of_isInf {x} h := by
    cases x with
    | undefined => cases h
    | posInf | negInf | finite k => rfl
  isInf_infiniteTo {s} hs := by
    cases s with
    | zero => exact absurd rfl hs
    | pos | neg => rfl
  direction_infiniteTo s := by cases s <;> rfl
  isFinite_sign {x} hnan := by
    cases x with
    | undefined => cases hnan
    | posInf | negInf | finite k => rfl
  direction_sign {x} hnan := by
    cases x with
    | undefined => cases hnan
    | posInf => exact (direction_finite 1).trans sign_one
    | negInf => exact (direction_finite (-1)).trans ((Left.sign_neg 1).trans (congrArg _ sign_one))
    | finite k =>
        rw [direction_finite, sign_apply]
        refine (direction_finite _).trans ?_
        split
        · exact sign_one
        · split
          · exact (Left.sign_neg 1).trans (congrArg _ sign_one)
          · exact sign_zero
  isNaN_add hx hy := by
    obtain ⟨x, rfl⟩ := (isFinite_iff _).1 hx
    obtain ⟨y, rfl⟩ := (isFinite_iff _).1 hy
    rfl
  isNaN_mul hx hy := by
    obtain ⟨x, rfl⟩ := (isFinite_iff _).1 hx
    obtain ⟨y, rfl⟩ := (isFinite_iff _).1 hy
    rfl
  isFinite_zero_add hx hy := by
    obtain ⟨y, rfl⟩ := (isFinite_iff _).1 hy
    rw [(beq_zero_iff _).1 hx]
    rfl
  mul_beq_zero hx hy := by
    obtain ⟨x, rfl⟩ := (isFinite_iff _).1 hx
    rw [(beq_zero_iff _).1 hy, finite_mul, mul_zero, beq_zero_iff]
  beq_zero_mul hx hy := by
    obtain ⟨y, rfl⟩ := (isFinite_iff _).1 hy
    rw [(beq_zero_iff _).1 hx, finite_mul, zero_mul, beq_zero_iff]
  infinite_add hx hy := by
    obtain ⟨y, rfl⟩ := (isFinite_iff _).1 hy
    rcases (isInf_iff _).1 hx with rfl | rfl <;> rfl
  infinite_mul hx hy _ := by
    obtain ⟨y, rfl⟩ := (isFinite_iff _).1 hy
    rcases (isInf_iff _).1 hx with rfl | rfl
    · rw [posInf_mul_finite, direction_finite, direction_posInf, one_mul]
    · rw [negInf_mul_finite, direction_finite, direction_negInf, neg_one_mul]
  finite_mul hx _ hy := by
    obtain ⟨x, rfl⟩ := (isFinite_iff _).1 hx
    rcases (isInf_iff _).1 hy with rfl | rfl
    · rw [finite_mul_posInf, direction_finite, direction_posInf, mul_one]
    · rw [finite_mul_negInf, direction_finite, direction_negInf, mul_neg_one]

end Line

end PolyRoots
