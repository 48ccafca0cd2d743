import PolyRoots.Proofs.Scalar.Real

universe u

namespace PolyRoots

namespace Elementary

variable {K : Type u} [Field K] [LinearOrder K] [Elementary K]

class Principal (K : Type u) [Field K] [LinearOrder K] [Elementary K] : Prop where
  neg_pi_lt_atan2 (y x : K) : -pi < atan2 y x
  atan2_le_pi (y x : K) : atan2 y x ≤ pi

noncomputable instance instPrincipalReal : Principal ℝ where
  neg_pi_lt_atan2 y x := Complex.neg_pi_lt_arg ⟨x, y⟩
  atan2_le_pi y x := Complex.arg_le_pi ⟨x, y⟩

variable [Lawful K]

theorem sin_neg (x : K) : sin (-x) = -sin x := by
  have hone := Lawful.cos_sq_add_sin_sq x
  have hcos := Lawful.cos_add x (-x)
  have hsin := Lawful.sin_add x (-x)
  rw [add_neg_cancel, Lawful.cos_zero] at hcos
  rw [add_neg_cancel, sin_zero] at hsin
  linear_combination -sin (-x) * hone + sin x * hcos - cos x * hsin

theorem sin_add_self (x : K) : sin (x + x) = 2 * (sin x * cos x) := by
  rw [Lawful.sin_add]
  ring

theorem sin_three_mul (x : K) : sin (3 * x) = sin x * (3 * (cos x * cos x) - sin x * sin x) := by
  have hthree : 3 * x = x + x + x := by ring
  rw [hthree, Lawful.sin_add (x + x), sin_add_self, Lawful.cos_add]
  ring

variable [IsStrictOrderedRing K]

theorem upper_of_sin_pos {x : K} (hlow : -pi < x) (hhigh : x ≤ pi) (hsin : 0 < sin x) : 0 < x ∧ x < pi := by
  constructor
  · by_contra hle
    rcases (not_lt.1 hle).lt_or_eq with hneg | rfl
    · have hpos := Lawful.sin_pos (neg_pos.2 hneg) (neg_lt.1 hlow)
      rw [sin_neg] at hpos
      linarith
    · rw [sin_zero] at hsin
      exact lt_irrefl 0 hsin
  · refine lt_of_le_of_ne hhigh ?_
    rintro rfl
    rw [sin_pi] at hsin
    exact lt_irrefl 0 hsin

theorem eq_zero_of_sin_eq_zero {x : K} (hlow : -pi < x) (hhigh : x ≤ pi) (hsin : sin x = 0)
    (hcos : 0 < cos x) : x = 0 := by
  rcases lt_trichotomy x 0 with hneg | hzero | hpos
  · have hupper := Lawful.sin_pos (neg_pos.2 hneg) (neg_lt.1 hlow)
    rw [sin_neg, hsin, neg_zero] at hupper
    exact absurd hupper (lt_irrefl 0)
  · exact hzero
  · rcases hhigh.lt_or_eq with hlt | rfl
    · exact absurd hsin (Lawful.sin_pos hpos hlt).ne'
    · rw [Lawful.cos_pi] at hcos
      exact absurd hcos (not_lt.2 (neg_nonpos.2 zero_le_one))

/-- A third of an angle in the upper half plane is less than a third of half a turn: both coordinates are
positive, and their ratio is less than the square root of three. -/
theorem third_of_upper {x : K} (hx : 0 < x) (hpi : x < pi) :
    0 < sin (x * (1 / 3)) ∧ 0 < cos (x * (1 / 3)) ∧
      sin (x * (1 / 3)) * sin (x * (1 / 3)) < 3 * (cos (x * (1 / 3)) * cos (x * (1 / 3))) := by
  obtain ⟨t, ht⟩ : ∃ t, x * (1 / 3) = t := ⟨_, rfl⟩
  have hxt : x = 3 * t := by linear_combination 3 * ht
  rw [ht]
  have hsin : 0 < sin t := Lawful.sin_pos (by linarith) (by linarith)
  have hdouble : 0 < 2 * (sin t * cos t) := by
    rw [← sin_add_self]
    exact Lawful.sin_pos (by linarith) (by linarith)
  have htriple : 0 < sin t * (3 * (cos t * cos t) - sin t * sin t) := by
    rw [← sin_three_mul, ← hxt]
    exact Lawful.sin_pos hx hpi
  refine ⟨hsin, ?_, ?_⟩
  · exact (mul_pos_iff_of_pos_left hsin).1 ((mul_pos_iff_of_pos_left two_pos).1 hdouble)
  · exact sub_pos.1 ((mul_pos_iff_of_pos_left hsin).1 htriple)

end Elementary

end PolyRoots
