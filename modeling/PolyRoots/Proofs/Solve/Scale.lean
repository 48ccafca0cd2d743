import PolyRoots.Proofs.Scalar.Real
import PolyRoots.Proofs.Solve.CubicReal
import PolyRoots.Proofs.Solve.FiniteForms

universe u

namespace PolyRoots

namespace Solve

open Coeffs Elementary Line

section Field

variable {K : Type u} [Field K] {a b c d u s t : K}

theorem radicand_scale (hu : u = 3 * a * c - b * b) :
    u * (t * t) = 3 * (a * t) * (c * t) - b * t * (b * t) := by
  rw [hu]
  ring

theorem resolvent_scale (hs : s = 2 * b * b * b - 9 * a * b * c + 27 * a * a * d) :
    s * (t * t * t) = 2 * (b * t) * (b * t) * (b * t) - 9 * (a * t) * (b * t) * (c * t) +
      27 * (a * t) * (a * t) * (d * t) := by
  rw [hs]
  ring

theorem disc_scale :
    4 * (u * (t * t)) * (u * (t * t)) * (u * (t * t)) + s * (t * t * t) * (s * (t * t * t)) =
      (4 * u * u * u + s * s) * (t * t * t * (t * t * t)) := by
  ring

theorem cube_ne_zero (ht : t ≠ 0) : t * t * t ≠ 0 := mul_ne_zero (mul_ne_zero ht ht) ht

theorem root_scale (ht : t ≠ 0) (x : K) : (x * t - b * t) / (3 * (a * t)) = (x - b) / (3 * a) := by
  rw [← sub_mul, ← mul_assoc, mul_div_mul_right _ _ ht]

end Field

section Real

variable {K : Type u} [Field K] [LinearOrder K]

section Quadratic

variable [Elementary K]

/-- Both roots in ascending order, or the vertex. -/
def quadraticRoots (multiple : Bool) (a k disc : K) : List K :=
  if disc < 0 then []
  else if multiple || disc != 0 then
    if 0 < a then [(-k - sqrt disc) / a, (-k + sqrt disc) / a]
    else [(-k + sqrt disc) / a, (-k - sqrt disc) / a]
  else [-k / a]

theorem quadraticReal_eq (multiple : Bool) {a : K} (ha : a ≠ 0) (b c : K) :
    quadraticReal multiple a b c = .ok (quadraticRoots multiple a (b / 2) (b / 2 * (b / 2) - a * c)) := by
  have hlead : ¬ (a == 0) = true := by rwa [beq_iff_eq]
  rw [quadraticReal, if_neg hlead, quadraticRoots]
  dsimp only
  split_ifs <;> rfl

variable [IsStrictOrderedRing K] [Lawful K]

theorem sqrt_mul_self_mul (t : K) {x : K} (hx : 0 ≤ x) : sqrt (x * (t * t)) = sqrt x * |t| := by
  have hpos : 0 ≤ x * (t * t) := mul_nonneg hx (mul_self_nonneg t)
  have habs : 0 ≤ sqrt x * |t| := mul_nonneg (Lawful.sqrt_nonneg hx) (abs_nonneg t)
  refine (mul_self_inj (Lawful.sqrt_nonneg hpos) habs).1 ?_
  rw [Lawful.sqrt_mul_self hpos, mul_mul_mul_comm, abs_mul_abs_self, Lawful.sqrt_mul_self hx]

theorem quadraticRoots_scale (multiple : Bool) {a t : K} (ha : a ≠ 0) (ht : t ≠ 0) (k disc : K) :
    quadraticRoots multiple (a * t) (k * t) (disc * (t * t)) = quadraticRoots multiple a k disc := by
  have htt : 0 < t * t := mul_self_pos.2 ht
  have hneg : disc * (t * t) < 0 ↔ disc < 0 := lt_iff_lt_of_le_iff_le (mul_nonneg_iff_of_pos_right htt)
  have hne : (disc * (t * t) != 0) = (disc != 0) := by
    rw [Bool.eq_iff_iff, bne_iff_ne, bne_iff_ne, mul_ne_zero_iff_right htt.ne']
  have hdiv (x : K) : x * t / (a * t) = x / a := mul_div_mul_right x a ht
  have hvertex : -(k * t) / (a * t) = -k / a := by rw [← neg_mul, hdiv]
  rw [quadraticRoots, quadraticRoots, hne, hvertex]
  simp only [hneg]
  split
  next => rfl
  next hdisc =>
    rw [sqrt_mul_self_mul t (not_lt.1 hdisc)]
    congr 1
    -- the square root keeps its sign, so the order turns with that of the leading coefficient
    rcases lt_or_gt_of_ne ht with hneg | hpos
    · have hlead : 0 < a * t ↔ ¬ 0 < a := by
        rw [← neg_mul_neg, mul_pos_iff_of_pos_right (neg_pos.2 hneg), neg_pos, not_lt, le_iff_lt_or_eq,
          or_iff_left ha]
      rw [abs_of_neg hneg, mul_neg, sub_neg_eq_add, ← sub_eq_add_neg, ← neg_mul, ← sub_mul, ← add_mul, hdiv,
        hdiv]
      simp only [hlead, ite_not]
    · rw [abs_of_pos hpos, ← neg_mul, ← sub_mul, ← add_mul, hdiv, hdiv]
      simp only [mul_pos_iff_of_pos_right hpos]

theorem quadraticReal_scale (multiple : Bool) {a t : K} (ha : a ≠ 0) (ht : t ≠ 0) (b c : K) :
    quadraticReal multiple (a * t) (b * t) (c * t) = quadraticReal multiple a b c := by
  have hk : b * t / 2 = b / 2 * t := by ring
  have hdisc : b / 2 * t * (b / 2 * t) - a * t * (c * t) = (b / 2 * (b / 2) - a * c) * (t * t) := by ring
  rw [quadraticReal_eq multiple (mul_ne_zero ha ht), quadraticReal_eq multiple ha, hk, hdisc,
    quadraticRoots_scale multiple ha ht]

end Quadratic

section Cubic

variable [IsStrictOrderedRing K] {a b c d u s t : K} {multiple : Bool}

theorem cubicRepeated_scale (ht : t ≠ 0) (r : K) :
    cubicRepeated multiple (a * t) (b * t) (u * (t * t)) (s * (t * t * t)) (r * t) =
      cubicRepeated multiple a b u s r := by
  have htest : (s * (t * t * t) == 9 * (a * t) * (u * (t * t))) = (s == 9 * a * u) := by
    have hprod : 9 * (a * t) * (u * (t * t)) = 9 * a * u * (t * t * t) := by ring
    rw [hprod, Bool.eq_iff_iff, beq_iff_eq, beq_iff_eq, mul_left_inj' (cube_ne_zero ht)]
  have hsign : 0 < r * t * (a * t) ↔ 0 < r * a := by
    rw [mul_mul_mul_comm, mul_pos_iff_of_pos_right (mul_self_pos.2 ht)]
  have hdouble : -(b * t) - r * t = -r * t - b * t := by ring
  have hdouble' : -b - r = -r - b := by ring
  have hsingle : 2 * (r * t) = 2 * r * t := (mul_assoc 2 r t).symm
  rw [cubicRepeated, cubicRepeated, hdouble, hdouble', hsingle, root_scale ht, root_scale ht, htest]
  simp only [hsign]

variable [Elementary K] [Lawful K]

theorem cbrt_scale (t x : K) : cbrt (x * (t * t * t)) = cbrt x * t := by
  apply cube_inj
  have h := cbrt_cube x
  rw [cbrt_cube]
  linear_combination -(t * t * t) * h

theorem cubicReal_scale_of_disc_zero (ha : a ≠ 0) (ht : t ≠ 0) (hu : u = 3 * a * c - b * b)
    (hs : s = 2 * b * b * b - 9 * a * b * c + 27 * a * a * d) (hdisc : 4 * u * u * u + s * s = 0) :
    cubicReal multiple (a * t) (b * t) (c * t) (d * t) = cubicReal multiple a b c d := by
  obtain ⟨r, hr, hl⟩ := cubicReal_of_disc_zero multiple ha hu hs hdisc
  obtain ⟨r', hr', hl'⟩ := cubicReal_of_disc_zero multiple (mul_ne_zero ha ht) (radicand_scale hu)
    (resolvent_scale hs) (by rw [disc_scale, hdisc, zero_mul])
  have heq : r' = r * t := by
    apply cube_inj
    linear_combination hr' - t * t * t * hr
  rw [hl', hl, heq, cubicRepeated_scale ht]

theorem cubicReal_scale_of_disc_pos (ha : a ≠ 0) (ht : t ≠ 0) (hu : u = 3 * a * c - b * b)
    (hs : s = 2 * b * b * b - 9 * a * b * c + 27 * a * a * d) (hdisc : 0 < 4 * u * u * u + s * s) :
    cubicReal multiple (a * t) (b * t) (c * t) (d * t) = cubicReal multiple a b c d := by
  have hpos : 0 < (4 * u * u * u + s * s) * (t * t * t * (t * t * t)) :=
    mul_pos hdisc (mul_self_pos.2 (cube_ne_zero ht))
  have hsqrt := sqrt_mul_self_mul (t * t * t) hdisc.le
  rw [← disc_scale] at hpos
  rw [cubicReal_of_disc_pos (mul_ne_zero ha ht) (radicand_scale hu) (resolvent_scale hs) hpos,
    cubicReal_of_disc_pos ha hu hs hdisc, disc_scale, hsqrt]
  generalize sqrt (4 * u * u * u + s * s) = q
  have hminus : (-(q * (t * t * t)) - s * (t * t * t)) / 2 = (-q - s) / 2 * (t * t * t) := by ring
  have hplus : (q * (t * t * t) - s * (t * t * t)) / 2 = (q - s) / 2 * (t * t * t) := by ring
  -- for a negative factor the two cube roots trade places
  rcases abs_choice (t * t * t) with habs | habs
  · rw [habs, hminus, hplus, cbrt_scale, cbrt_scale, ← add_mul, root_scale ht]
  · rw [habs, mul_neg, neg_neg, hminus, hplus, cbrt_scale, cbrt_scale, add_comm, ← add_mul, root_scale ht]

end Cubic

end Real

section Angle

theorem angle_mul_pos (x y : ℝ) {r : ℝ} (hr : 0 < r) :
    Cplx.angle ⟨x * r, y * r⟩ = Cplx.angle ⟨x, y⟩ := by
  have h : (⟨x * r, y * r⟩ : ℂ) = r * ⟨x, y⟩ := by
    apply Complex.ext
    · simp [mul_comm]
    · simp [mul_comm]
  exact (congrArg Complex.arg h).trans (Complex.arg_real_mul _ hr)

theorem angle_reflect (x : ℝ) {y : ℝ} (hy : 0 < y) :
    Cplx.angle ⟨-x, y⟩ = Real.pi - Cplx.angle ⟨x, y⟩ := by
  have h : (⟨-x, y⟩ : ℂ) = starRingEnd ℂ (-⟨x, y⟩) := by
    apply Complex.ext
    · simp
    · simp
  have hneg : Complex.arg (-⟨x, y⟩) = Complex.arg ⟨x, y⟩ - Real.pi :=
    Complex.arg_neg_eq_arg_sub_pi_of_im_pos hy
  have hne : ¬ Complex.arg ⟨x, y⟩ - Real.pi = Real.pi := by
    have := Complex.arg_le_pi ⟨x, y⟩
    have := Real.pi_pos
    linarith
  refine (congrArg Complex.arg h).trans ?_
  rw [Complex.arg_conj, hneg, if_neg hne, neg_sub]
  rfl

theorem pow_sixth {x t : ℝ} (hx : 0 ≤ x) (ht : 0 ≤ t) :
    pow (x * (t * t * t * (t * t * t))) (1 / 3 / 2) = pow x (1 / 3 / 2) * t := by
  have hsix : t * t * t * (t * t * t) = t ^ 6 := by ring
  have hexp : (1 / 3 / 2 : ℝ) = ((6 : ℕ) : ℝ)⁻¹ := by norm_num
  change (x * _) ^ (1 / 3 / 2 : ℝ) = x ^ (1 / 3 / 2 : ℝ) * t
  rw [hsix, hexp, Real.mul_rpow hx (pow_nonneg ht 6), Real.pow_rpow_inv_natCast ht (by norm_num)]

theorem power_mul_cube (x y : ℝ) {t : ℝ} (ht : 0 < t) :
    Cplx.power ⟨x * (t * t * t), y * (t * t * t)⟩ (1 / 3) = (Cplx.power ⟨x, y⟩ (1 / 3)).map (· * t) := by
  have hnorm : Cplx.normSq ⟨x * (t * t * t), y * (t * t * t)⟩ =
      Cplx.normSq ⟨x, y⟩ * (t * t * t * (t * t * t)) := by
    simp only [Cplx.normSq]
    ring
  have hnonneg : 0 ≤ Cplx.normSq ⟨x, y⟩ := add_nonneg (mul_self_nonneg x) (mul_self_nonneg y)
  rw [Cplx.power, hnorm, pow_sixth hnonneg ht.le, angle_mul_pos x y (mul_pos (mul_pos ht ht) ht),
    Cplx.power, Cplx.polar, Cplx.polar, Cplx.map, mul_right_comm, mul_right_comm _ t]

/-- The principal cube root of a number on the other side of the imaginary axis: the conjugate, turned by
a sixth of the circle. -/
theorem power_reflect (x : ℝ) {y : ℝ} (hy : 0 < y) {w : Cplx ℝ} (hw : Cplx.power ⟨x, y⟩ (1 / 3) = w) :
    Cplx.power ⟨-x, y⟩ (1 / 3) = ⟨(w.re + sqrt 3 * w.im) / 2, (sqrt 3 * w.re - w.im) / 2⟩ := by
  have hnorm : Cplx.normSq ⟨-x, y⟩ = Cplx.normSq ⟨x, y⟩ := by
    simp only [Cplx.normSq]
    ring
  have hthird : (Real.pi - Cplx.angle ⟨x, y⟩) * (1 / 3) = Real.pi / 3 - Cplx.angle ⟨x, y⟩ * (1 / 3) := by
    ring
  have hsqrt : sqrt (3 : ℝ) = √3 := rfl
  subst hw
  rw [Cplx.power, hnorm, angle_reflect x hy, hthird, Cplx.power, hsqrt]
  generalize Cplx.angle ⟨x, y⟩ * (1 / 3) = φ
  generalize pow (Cplx.normSq ⟨x, y⟩) (1 / 3 / 2) = ρ
  apply Cplx.ext
  · change ρ * Real.cos (Real.pi / 3 - φ) = (ρ * Real.cos φ + √3 * (ρ * Real.sin φ)) / 2
    rw [Real.cos_sub, Real.cos_pi_div_three, Real.sin_pi_div_three]
    ring
  · change ρ * Real.sin (Real.pi / 3 - φ) = (√3 * (ρ * Real.cos φ) - ρ * Real.sin φ) / 2
    rw [Real.sin_sub, Real.cos_pi_div_three, Real.sin_pi_div_three]
    ring

end Angle

section ThreeRoots

noncomputable def threeRoots (a b : ℝ) (w : Cplx ℝ) : List ℝ :=
  [(-w.re - sqrt 3 * w.im - b) / (3 * a), (-w.re + sqrt 3 * w.im - b) / (3 * a), (2 * w.re - b) / (3 * a)]

variable {a b s disc t : ℝ}

theorem cubicThree_eq : cubicThree a b s disc =
    if a < 0 then (threeRoots a b (Cplx.power ⟨-s / 2, sqrt (-disc) / 2⟩ (1 / 3))).reverse
    else threeRoots a b (Cplx.power ⟨-s / 2, sqrt (-disc) / 2⟩ (1 / 3)) := rfl

theorem threeRoots_map (ht : t ≠ 0) (w : Cplx ℝ) :
    threeRoots (a * t) (b * t) (w.map (· * t)) = threeRoots a b w := by
  have hminus : -(w.re * t) - sqrt 3 * (w.im * t) = (-w.re - sqrt 3 * w.im) * t := by ring
  have hplus : -(w.re * t) + sqrt 3 * (w.im * t) = (-w.re + sqrt 3 * w.im) * t := by ring
  have htwo : 2 * (w.re * t) = 2 * w.re * t := (mul_assoc 2 w.re t).symm
  simp only [threeRoots, Cplx.map, hminus, hplus, htwo, root_scale ht]

theorem threeRoots_reflect (w : Cplx ℝ) :
    threeRoots (-a) (-b) ⟨(w.re + sqrt 3 * w.im) / 2, (sqrt 3 * w.re - w.im) / 2⟩ =
      (threeRoots a b w).reverse := by
  have hthree : sqrt (3 : ℝ) * sqrt 3 = 3 := Lawful.sqrt_mul_self (by norm_num)
  have h (x y : ℝ) (hxy : x = -y) : (x - -b) / (3 * -a) = (y - b) / (3 * a) := by
    rw [hxy, mul_neg, ← neg_add', neg_div_neg_eq, ← sub_eq_add_neg]
  simp only [threeRoots, List.reverse_cons, List.reverse_nil, List.nil_append, List.cons_append]
  rw [h _ (2 * w.re), h _ (-w.re + sqrt 3 * w.im), h _ (-w.re - sqrt 3 * w.im)]
  · ring
  · linear_combination w.re * hthree / 2
  · linear_combination -w.re * hthree / 2

theorem cubicThree_scale_pos (ht : 0 < t) (hdisc : disc < 0) :
    cubicThree (a * t) (b * t) (s * (t * t * t)) (disc * (t * t * t * (t * t * t))) =
      cubicThree a b s disc := by
  have hcube : 0 < t * t * t := mul_pos (mul_pos ht ht) ht
  have hre : -(s * (t * t * t)) / 2 = -s / 2 * (t * t * t) := by ring
  have hsqrt := sqrt_mul_self_mul (t * t * t) (neg_nonneg.2 hdisc.le)
  have him : sqrt (-(disc * (t * t * t * (t * t * t)))) / 2 = sqrt (-disc) / 2 * (t * t * t) := by
    rw [← neg_mul, hsqrt, abs_of_pos hcube]
    ring
  have hneg : a * t < 0 ↔ a < 0 := lt_iff_lt_of_le_iff_le (mul_nonneg_iff_of_pos_right ht)
  rw [cubicThree_eq, cubicThree_eq, hre, him, power_mul_cube _ _ ht, threeRoots_map ht.ne']
  simp only [hneg]

theorem cubicThree_neg (ha : a ≠ 0) (hdisc : disc < 0) :
    cubicThree (-a) (-b) (-s) disc = cubicThree a b s disc := by
  have him : 0 < sqrt (-disc) / 2 := half_pos (Real.sqrt_pos.2 (neg_pos.2 hdisc))
  have hneg : -a < 0 ↔ ¬ a < 0 := by rw [neg_lt_zero, not_lt, le_iff_lt_or_eq, or_iff_left ha.symm]
  rw [cubicThree_eq, cubicThree_eq, neg_div, power_reflect _ him rfl, threeRoots_reflect,
    List.reverse_reverse]
  simp only [hneg, ite_not]

theorem cubicThree_scale (ha : a ≠ 0) (ht : t ≠ 0) (hdisc : disc < 0) :
    cubicThree (a * t) (b * t) (s * (t * t * t)) (disc * (t * t * t * (t * t * t))) =
      cubicThree a b s disc := by
  rcases lt_or_gt_of_ne ht with hneg | hpos
  · have hcube : -t * -t * -t = -(t * t * t) := by ring
    have h := cubicThree_scale_pos (a := -a) (b := -b) (s := -s) (neg_pos.2 hneg) hdisc
    rwa [cubicThree_neg ha hdisc, neg_mul_neg, neg_mul_neg, hcube, neg_mul_neg, neg_mul_neg] at h
  · exact cubicThree_scale_pos hpos hdisc

theorem cubicReal_scale (multiple : Bool) (ha : a ≠ 0) (ht : t ≠ 0) (b c d : ℝ) :
    cubicReal multiple (a * t) (b * t) (c * t) (d * t) = cubicReal multiple a b c d := by
  obtain ⟨u, hu⟩ : ∃ u, u = 3 * a * c - b * b := ⟨_, rfl⟩
  obtain ⟨s, hs⟩ : ∃ s, s = 2 * b * b * b - 9 * a * b * c + 27 * a * a * d := ⟨_, rfl⟩
  rcases lt_trichotomy (4 * u * u * u + s * s) 0 with hneg | hzero | hpos
  · have hneg' : (4 * u * u * u + s * s) * (t * t * t * (t * t * t)) < 0 :=
      mul_neg_of_neg_of_pos hneg (mul_self_pos.2 (cube_ne_zero ht))
    rw [← disc_scale] at hneg'
    rw [cubicReal_of_disc_neg (mul_ne_zero ha ht) (radicand_scale hu) (resolvent_scale hs) hneg', disc_scale,
      cubicThree_scale ha ht hneg, cubicReal_of_disc_neg ha hu hs hneg]
  · exact cubicReal_scale_of_disc_zero ha ht hu hs hzero
  · exact cubicReal_scale_of_disc_pos ha ht hu hs hpos

end ThreeRoots

section Quartic

variable {K : Type u} [Field K] [LinearOrder K] [IsStrictOrderedRing K] {a t : K}

theorem depress_scale (ha : a ≠ 0) (ht : t ≠ 0) (b c d e : K) :
    depress (a * t) (b * t) (c * t) (d * t) (e * t) = depress a b c d e := by
  have hp : (8 * (a * t) * (c * t) - 3 * (b * t) * (b * t)) / (8 * (a * t * (a * t))) =
      (8 * a * c - 3 * b * b) / (8 * (a * a)) := by
    field_simp
  have hq : (8 * (a * t * (a * t)) * (d * t) + b * t * (b * t) * (b * t) -
      4 * (a * t) * (b * t) * (c * t)) / (8 * (a * t * (a * t)) * (a * t)) =
        (8 * (a * a) * d + b * b * b - 4 * a * b * c) / (8 * (a * a) * a) := by
    field_simp
  have hr : (16 * (a * t) * (b * t) * (b * t) * (c * t) - 64 * (a * t * (a * t)) * (b * t) * (d * t) -
      3 * (b * t) * (b * t) * (b * t) * (b * t) + 256 * (a * t * (a * t)) * (a * t) * (e * t)) /
        (256 * (a * t * (a * t)) * (a * t * (a * t))) =
      (16 * a * b * b * c - 64 * (a * a) * b * d - 3 * b * b * b * b + 256 * (a * a) * a * e) /
        (256 * (a * a) * (a * a)) := by
    field_simp
  rw [depress_eq (mul_ne_zero ha ht), hp, hq, hr, depress_eq ha]

theorem quarticReal_scale [Elementary K] (tol : Line K) (ha : a ≠ 0) (ht : t ≠ 0) (b c d e : K) :
    quarticReal tol (finite (a * t)) (finite (b * t)) (finite (c * t)) (finite (d * t)) (finite (e * t)) =
      quarticReal tol (finite a) (finite b) (finite c) (finite d) (finite e) := by
  have hat : a * t ≠ 0 := mul_ne_zero ha ht
  have hlead {a : K} (ha : a ≠ 0) : ¬ (finite a == 0) = true := by rwa [finite_beq_zero, beq_iff_eq]
  have hshift : -finite (b * t) / (4 * finite (a * t)) = -finite b / (4 * finite a) := by
    refine (finite_div (-(b * t)) (4 * (a * t)) (mul_ne_zero four_ne_zero hat)).trans ?_
    refine .trans ?_ (finite_div (-b) (4 * a) (mul_ne_zero four_ne_zero ha)).symm
    rw [← neg_mul, ← mul_assoc, mul_div_mul_right _ _ ht]
  rw [quarticReal, quarticComplex, if_neg (hlead hat), depress_map embedding_finite, depress_scale ha ht, hshift,
    quarticReal, quarticComplex, if_neg (hlead ha), depress_map embedding_finite]

end Quartic

theorem closedForm_scale (tol : Line ℝ) (multiple : Bool) {q : List ℝ} {a t : ℝ} (hq : q.length < 5)
    (ha : a ≠ 0) (ht : t ≠ 0) :
    closedForm tol multiple ((scale t (q ++ [a])).map finite) =
      closedForm tol multiple ((q ++ [a]).map finite) := by
  have hat : a * t ≠ 0 := mul_ne_zero ha ht
  have hlead : (a == 0) = false := beq_eq_false_iff_ne.2 ha
  have hlead' : (a * t == 0) = false := beq_eq_false_iff_ne.2 hat
  match q, hq with
  | [], _ => rfl
  | [b], _ =>
      have hroot : -finite (b * t) / finite (a * t) = -finite b / finite a := by
        rw [finite_neg, finite_neg, finite_div _ _ hat, finite_div _ _ ha, ← neg_mul,
          mul_div_mul_right _ _ ht]
      exact congrArg (fun x => Except.ok [x]) hroot
  | [c, b], _ =>
      change quadraticReal multiple (finite (a * t)) (finite (b * t)) (finite (c * t)) =
        quadraticReal multiple (finite a) (finite b) (finite c)
      rw [quadraticReal_map elementaryEmbedding_finite multiple hlead', quadraticReal_scale multiple ha ht,
        quadraticReal_map elementaryEmbedding_finite multiple hlead]
  | [d, c, b], _ =>
      change cubicReal multiple (finite (a * t)) (finite (b * t)) (finite (c * t)) (finite (d * t)) =
        cubicReal multiple (finite a) (finite b) (finite c) (finite d)
      rw [cubicReal_map elementaryEmbedding_finite multiple hlead', cubicReal_scale multiple ha ht,
        cubicReal_map elementaryEmbedding_finite multiple hlead]
  | [e, d, c, b], _ => exact quarticReal_scale tol ha ht b c d e

end Solve

end PolyRoots
