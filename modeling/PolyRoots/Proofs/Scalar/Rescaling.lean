import Mathlib.Algebra.Ring.Defs
import Mathlib.Data.Sign.Basic
import PolyRoots.Proofs.Scalar.Overflow

universe u

namespace PolyRoots

section Laws

variable {α : Type u} [Zero α] [Add α] [Neg α] [Mul α] [Div α] [BEq α] [LT α] [DecidableLT α]
  [Extended α]

/-- A change of the unit: sums, and products with scalars that are no values, follow it; quotients,
comparisons of magnitudes and the signs of products do not notice it. -/
structure Rescaling (g : α → α) : Prop where
  nan : g Extended.nan = Extended.nan
  zero : g 0 = 0
  add (x y : α) : g (x + y) = g x + g y
  mul (x y : α) : g (x * y) = g x * y
  beq_zero (x : α) : (g x == 0) = (x == 0)
  isInf (x : α) : Extended.isInf (g x) = Extended.isInf x
  div (x : α) {y : α} : (y == 0) = false → g x / g y = x / y
  magnitude_lt (x y : α) : magnitude (g x) < magnitude (g y) ↔ magnitude x < magnitude y
  pos_mul (x y : α) : 0 < g x * g y ↔ 0 < x * y

theorem Rescaling.comp {g h : α → α} (hg : Rescaling g) (hh : Rescaling h) : Rescaling fun x => g (h x) where
  nan := by rw [hh.nan, hg.nan]
  zero := by rw [hh.zero, hg.zero]
  add x y := by rw [hh.add, hg.add]
  mul x y := by rw [hh.mul, hg.mul]
  beq_zero x := by rw [hg.beq_zero, hh.beq_zero]
  isInf x := by rw [hg.isInf, hh.isInf]
  div x y hy := by rw [hg.div _ (by rwa [hh.beq_zero]), hh.div x hy]
  magnitude_lt x y := by rw [hg.magnitude_lt, hh.magnitude_lt]
  pos_mul x y := by rw [hg.pos_mul, hh.pos_mul]

end Laws

namespace Line

variable {K : Type u} [Field K] [LinearOrder K]

theorem ne_zero_of_beq_eq_false {k : K} (h : (finite k == 0) = false) : k ≠ 0 := by
  rwa [finite_beq_zero, beq_eq_false_iff_ne] at h

theorem posInf_div {k : K} (hk : k ≠ 0) : posInf / finite k = infinite k := if_neg hk

theorem negInf_div {k : K} (hk : k ≠ 0) : negInf / finite k = infinite (-k) := if_neg hk

variable [IsStrictOrderedRing K]

theorem magnitude_finite (k : K) : magnitude (finite k) = finite |k| := by
  rw [← embedding_finite.magnitude, magnitude_eq_abs]

theorem infinite_mul_pos {c : K} (hc : 0 < c) (k : K) : (infinite (c * k) : Line K) = infinite k := by
  rw [← infiniteTo_sign, ← infiniteTo_sign, sign_mul, sign_pos hc, one_mul]

theorem neg_infinite (k : K) : -(infinite k : Line K) = infinite (-k) := by
  rw [← infiniteTo_sign, ← infiniteTo_sign, Left.sign_neg]
  cases SignType.sign k <;> rfl

instance instCommMagma : CommMagma (Line K) where
  mul_comm x y := by
    cases x with
    | finite a =>
        cases y with
        | finite b => exact congrArg finite (mul_comm a b)
        | posInf | negInf | undefined => rfl
    | posInf | negInf | undefined => cases y <;> rfl

theorem negate_mul (x y : Line K) : -x * y = -(x * y) := by
  cases x with
  | finite a =>
      cases y with
      | finite b => exact congrArg finite (neg_mul a b)
      | posInf => exact (neg_infinite a).symm
      | negInf => exact (neg_infinite (-a)).symm
      | undefined => rfl
  | posInf =>
      cases y with
      | finite b => exact (neg_infinite b).symm
      | posInf | negInf | undefined => rfl
  | negInf =>
      cases y with
      | finite b => exact (congrArg infinite (neg_neg b)).symm.trans (neg_infinite (-b)).symm
      | posInf | negInf | undefined => rfl
  | undefined => cases y <;> rfl

instance instHasDistribNeg : HasDistribNeg (Line K) where
  neg_neg x := by
    cases x with
    | finite a => exact congrArg finite (neg_neg a)
    | posInf | negInf | undefined => rfl
  neg_mul := negate_mul
  mul_neg x y := by rw [mul_comm, negate_mul, mul_comm]

theorem rescaling_neg : Rescaling (fun x : Line K => -x) where
  nan := rfl
  zero := congrArg finite neg_zero
  add x y := by
    cases x with
    | finite a =>
        cases y with
        | finite b => exact congrArg finite (neg_add a b)
        | posInf | negInf | undefined => rfl
    | posInf | negInf | undefined => cases y <;> rfl
  mul x y := (neg_mul x y).symm
  beq_zero x := by
    cases x with
    | finite a =>
        change (-a == 0) = (a == 0)
        rw [Bool.eq_iff_iff, beq_iff_eq, beq_iff_eq, neg_eq_zero]
    | posInf | negInf | undefined => rfl
  isInf x := by cases x <;> rfl
  div x y hy := by
    cases y with
    | finite b =>
        have hb : b ≠ 0 := ne_zero_of_beq_eq_false hy
        have hb' : -b ≠ 0 := neg_ne_zero.2 hb
        cases x with
        | finite a =>
            refine (finite_div (-a) (-b) hb').trans ?_
            rw [finite_div a b hb, neg_div_neg_eq]
        | posInf =>
            refine (negInf_div hb').trans ?_
            rw [posInf_div hb, neg_neg]
        | negInf => exact (posInf_div hb').trans (negInf_div hb).symm
        | undefined => rfl
    | posInf | negInf | undefined => cases x <;> rfl
  magnitude_lt x y := by
    have h (x : Line K) : magnitude (-x) = magnitude x := by
      cases x with
      | finite a =>
          refine (magnitude_finite (-a)).trans ?_
          rw [magnitude_finite, abs_neg]
      | posInf | negInf | undefined => rfl
    rw [h, h]
  pos_mul x y := by rw [neg_mul_neg]

def stretch (c : K) : Line K → Line K
  | finite k => finite (c * k)
  | x => x

variable {c : K}

theorem finite_mul_of_pos (hc : 0 < c) (x : Line K) : finite c * x = stretch c x := by
  cases x with
  | finite k | undefined => rfl
  | posInf => exact if_pos hc
  | negInf =>
      rw [finite_mul_negInf, sign_pos hc]
      rfl

omit [IsStrictOrderedRing K] in
theorem stretch_infinite (k : K) : stretch c (infinite k) = infinite k := by
  rw [← infiniteTo_sign]
  cases SignType.sign k <;> rfl

theorem stretch_mul (hc : 0 < c) (x y : Line K) : stretch c (x * y) = stretch c x * y := by
  cases x with
  | finite a =>
      cases y with
      | finite b => exact congrArg finite (mul_assoc c a b).symm
      | posInf => exact (stretch_infinite a).trans (infinite_mul_pos hc a).symm
      | negInf =>
          refine (stretch_infinite (-a)).trans ?_
          rw [← infinite_mul_pos hc, mul_neg]
          rfl
      | undefined => rfl
  | posInf =>
      cases y with
      | finite b => exact stretch_infinite b
      | posInf | negInf | undefined => rfl
  | negInf =>
      cases y with
      | finite b => exact stretch_infinite (-b)
      | posInf | negInf | undefined => rfl
  | undefined => cases y <;> rfl

theorem stretch_lt (hc : 0 < c) (x y : Line K) : stretch c x < stretch c y ↔ x < y := by
  cases x with
  | finite a =>
      cases y with
      | finite b =>
          refine (finite_lt_finite (c * a) (c * b)).trans ?_
          rw [finite_lt_finite, mul_lt_mul_iff_right₀ hc]
      | posInf | negInf | undefined => rfl
  | posInf | negInf | undefined => cases y <;> rfl

theorem rescaling_stretch (hc : 0 < c) : Rescaling (stretch c) where
  nan := rfl
  zero := congrArg finite (mul_zero c)
  add x y := by
    cases x with
    | finite a =>
        cases y with
        | finite b => exact congrArg finite (mul_add c a b)
        | posInf | negInf | undefined => rfl
    | posInf | negInf | undefined => cases y <;> rfl
  mul := stretch_mul hc
  beq_zero x := by
    cases x with
    | finite a =>
        change (c * a == 0) = (a == 0)
        rw [Bool.eq_iff_iff, beq_iff_eq, beq_iff_eq, mul_eq_zero, or_iff_right hc.ne']
    | posInf | negInf | undefined => rfl
  isInf x := by cases x <;> rfl
  div x y hy := by
    cases y with
    | finite b =>
        have hb : b ≠ 0 := ne_zero_of_beq_eq_false hy
        have hb' : c * b ≠ 0 := mul_ne_zero hc.ne' hb
        cases x with
        | finite a =>
            refine (finite_div (c * a) (c * b) hb').trans ?_
            rw [finite_div a b hb, mul_div_mul_left _ _ hc.ne']
        | posInf =>
            refine (posInf_div hb').trans ?_
            rw [posInf_div hb, infinite_mul_pos hc]
        | negInf =>
            refine (negInf_div hb').trans ?_
            rw [negInf_div hb, ← mul_neg, infinite_mul_pos hc]
        | undefined => rfl
    | posInf | negInf | undefined => cases x <;> rfl
  magnitude_lt x y := by
    have h (x : Line K) : magnitude (stretch c x) = stretch c (magnitude x) := by
      cases x with
      | finite a =>
          refine (magnitude_finite (c * a)).trans ?_
          rw [magnitude_finite, abs_mul, abs_of_pos hc]
          rfl
      | posInf | negInf | undefined => rfl
    rw [h, h, stretch_lt hc]
  pos_mul x y := by
    have hzero : stretch c 0 = 0 := congrArg finite (mul_zero c)
    have hpos (z : Line K) : 0 < stretch c z ↔ 0 < z := by
      have h := stretch_lt hc 0 z
      rwa [hzero] at h
    rw [← stretch_mul hc, hpos, mul_comm, ← stretch_mul hc, hpos, mul_comm]

theorem rescaling_finite_mul {t : K} (ht : t ≠ 0) : Rescaling (fun x : Line K => finite t * x) := by
  rcases lt_or_gt_of_ne ht with hneg | hpos
  · have h : (fun x : Line K => finite t * x) = fun x => -stretch (-t) x := by
      funext x
      rw [← finite_mul_of_pos (neg_pos.2 hneg), ← neg_mul]
      exact congrArg (· * x) (congrArg finite (neg_neg t).symm)
    rw [h]
    exact rescaling_neg.comp (rescaling_stretch (neg_pos.2 hneg))
  · have h : (fun x : Line K => finite t * x) = stretch t := funext (finite_mul_of_pos hpos)
    rw [h]
    exact rescaling_stretch hpos

end Line

end PolyRoots
