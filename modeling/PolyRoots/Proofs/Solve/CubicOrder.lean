import PolyRoots.Proofs.Scalar.Principal
import PolyRoots.Proofs.Solve.CubicReal

universe u

namespace PolyRoots

namespace Solve

open Elementary

theorem pairwise_triple {α : Type u} [Preorder α] {x y z : α} (hxy : x ≤ y) (hyz : y ≤ z) :
    [x, y, z].Pairwise (· ≤ ·) := by
  refine .cons ?_ (.cons ?_ (List.pairwise_singleton _ z))
  · simp [hxy, hxy.trans hyz]
  · simp [hyz]

variable {K : Type u} [Field K] [LinearOrder K] [IsStrictOrderedRing K] {a b c d u s t : K}

theorem root_le_root {x y : K} (hxy : x ≤ y) :
    (0 < a → (x - b) / (3 * a) ≤ (y - b) / (3 * a)) ∧ (a < 0 → (y - b) / (3 * a) ≤ (x - b) / (3 * a)) := by
  have hle : x - b ≤ y - b := sub_le_sub_right hxy b
  constructor
  · intro ha
    exact div_le_div_of_nonneg_right hle (mul_pos three_pos ha).le
  · intro ha
    exact (div_le_div_right_of_neg (mul_neg_of_pos_of_neg three_pos ha)).2 hle

theorem pairwise_cubicRepeated [BEq K] (multiple : Bool) (ha : a ≠ 0) :
    (cubicRepeated multiple a b u s t).Pairwise (· ≤ ·) := by
  have hdiff : (2 * t - b) / (3 * a) - (-b - t) / (3 * a) = t / a := by
    field_simp
    ring
  rw [cubicRepeated]
  dsimp only
  split
  · cases multiple <;> simp
  · split
    next hpos =>
      have hle : (-b - t) / (3 * a) ≤ (2 * t - b) / (3 * a) := by
        rw [← sub_nonneg, hdiff]
        exact (div_pos_iff.2 (mul_pos_iff.1 hpos)).le
      cases multiple <;> simp [hle]
    next hneg =>
      have hle : (2 * t - b) / (3 * a) ≤ (-b - t) / (3 * a) := by
        rw [← sub_nonpos, hdiff]
        exact div_nonpos_iff.2 (mul_nonpos_iff.1 (not_lt.1 hneg))
      cases multiple <;> simp [hle]

section ThreeRoots

variable [Elementary K] [Lawful K] [Principal K]

theorem power_third_upper {z w : Cplx K} (hz : 0 < z.im) (hw : z.power (1 / 3) = w) :
    0 < w.im ∧ 0 < w.re ∧ w.im * w.im < 3 * (w.re * w.re) := by
  have hne : z ≠ 0 := by
    rintro rfl
    exact lt_irrefl 0 hz
  have hnorm := Cplx.normSq_pos hne
  have hangle : 0 < sin z.angle := by
    have him : sqrt z.normSq * sin z.angle = z.im := Lawful.mul_sin_atan2 z.re z.im
    rw [← him] at hz
    exact pos_of_mul_pos_right hz (Lawful.sqrt_nonneg hnorm.le)
  have hupper : 0 < z.angle ∧ z.angle < pi :=
    upper_of_sin_pos (Principal.neg_pi_lt_atan2 z.im z.re) (Principal.atan2_le_pi z.im z.re) hangle
  obtain ⟨hsin, hcos, hratio⟩ := third_of_upper hupper.1 hupper.2
  have hr : 0 < pow z.normSq (1 / 3 / 2) := Lawful.pow_pos _ hnorm
  subst hw
  refine ⟨mul_pos hr hsin, mul_pos hr hcos, ?_⟩
  have hscaled := mul_lt_mul_of_pos_left hratio (mul_pos hr hr)
  simp only [Cplx.power, Cplx.polar]
  linear_combination hscaled

theorem pairwise_cubicThree (ha : a ≠ 0) (hdisc : 4 * u * u * u + s * s < 0) :
    (cubicThree a b s (4 * u * u * u + s * s)).Pairwise (· ≤ ·) := by
  have hneg : 0 < -(4 * u * u * u + s * s) := neg_pos.2 hdisc
  have hroot : 0 < sqrt (-(4 * u * u * u + s * s)) := sqrt_pos hneg
  obtain ⟨w, hw⟩ : ∃ w, Cplx.power ⟨-s / 2, sqrt (-(4 * u * u * u + s * s)) / 2⟩ (1 / 3) = w := ⟨_, rfl⟩
  obtain ⟨him, hre, hratio⟩ := power_third_upper (div_pos hroot two_pos) hw
  have hthree : sqrt (3 : K) * sqrt 3 = 3 := Lawful.sqrt_mul_self zero_le_three
  have hturn : 0 ≤ sqrt 3 * w.im := mul_nonneg (Lawful.sqrt_nonneg zero_le_three) him.le
  have hbelow : sqrt 3 * w.im < 3 * w.re := by
    refine lt_of_mul_self_lt_mul_self₀ (mul_pos three_pos hre).le ?_
    linear_combination 3 * hratio + w.im * w.im * hthree
  have hlow : -w.re - sqrt 3 * w.im ≤ -w.re + sqrt 3 * w.im := by linarith
  have hhigh : -w.re + sqrt 3 * w.im ≤ 2 * w.re := by linarith
  have hlist : cubicThree a b s (4 * u * u * u + s * s) =
      if a < 0 then
        [(2 * w.re - b) / (3 * a), (-w.re + sqrt 3 * w.im - b) / (3 * a),
          (-w.re - sqrt 3 * w.im - b) / (3 * a)]
      else
        [(-w.re - sqrt 3 * w.im - b) / (3 * a), (-w.re + sqrt 3 * w.im - b) / (3 * a),
          (2 * w.re - b) / (3 * a)] := by
    rw [← hw]
    rfl
  rw [hlist]
  rcases lt_or_gt_of_ne ha with hlead | hlead
  · rw [if_pos hlead]
    exact pairwise_triple ((root_le_root hhigh).2 hlead) ((root_le_root hlow).2 hlead)
  · rw [if_neg hlead.not_gt]
    exact pairwise_triple ((root_le_root hlow).1 hlead) ((root_le_root hhigh).1 hlead)

variable [BEq K] [LawfulBEq K]

theorem cubicReal_pairwise (ha : a ≠ 0) (b c d : K) (multiple : Bool) {l : List K}
    (hl : cubicReal multiple a b c d = .ok l) : l ≠ [] ∧ l.Pairwise (· ≤ ·) := by
  obtain ⟨u, hu⟩ : ∃ u, u = 3 * a * c - b * b := ⟨_, rfl⟩
  obtain ⟨s, hs⟩ : ∃ s, s = 2 * b * b * b - 9 * a * b * c + 27 * a * a * d := ⟨_, rfl⟩
  rcases lt_trichotomy (4 * u * u * u + s * s) 0 with hdisc | hdisc | hdisc
  · rw [cubicReal_of_disc_neg ha hu hs hdisc] at hl
    cases hl
    refine ⟨?_, pairwise_cubicThree ha hdisc⟩
    rw [cubicThree]
    split_ifs <;> simp
  · obtain ⟨t, _, ht⟩ := cubicReal_of_disc_zero multiple ha hu hs hdisc
    rw [ht] at hl
    cases hl
    refine ⟨?_, pairwise_cubicRepeated multiple ha⟩
    rw [cubicRepeated]
    split_ifs <;> simp
  · rw [cubicReal_of_disc_pos ha hu hs hdisc] at hl
    cases hl
    exact ⟨List.cons_ne_nil _ _, List.pairwise_singleton _ _⟩

omit [Principal K] in
theorem mem_roots_of_mem_cubicReal (ha : a ≠ 0) (b c d : K) (multiple : Bool) {l : List K}
    (hl : cubicReal multiple a b c d = .ok l) :
    ∀ x ∈ l, x ∈ (Coeffs.polynomial [d, c, b, a]).roots := by
  intro x hx
  obtain ⟨l', hl', hspec⟩ := cubicReal_spec ha b c d multiple
  obtain rfl : l = l' := Except.ok.inj (hl.symm.trans hl')
  obtain ⟨hroots, _⟩ | ⟨y, z, hroots, hlist⟩ := hspec
  · rwa [← hroots]
  · rw [hroots]
    split at hlist
    · rw [hlist] at hx
      cases multiple <;> simp_all
    · rw [← Multiset.mem_coe, hlist] at hx
      cases multiple <;> simp_all

/-- The list is not empty, it is in ascending order, and it holds roots only. -/
theorem cubicReal_sound_ordered (ha : a ≠ 0) (b c d : K) (multiple : Bool) :
    ∃ l, cubicReal multiple a b c d = .ok l ∧ l ≠ [] ∧ l.Pairwise (· ≤ ·) ∧
      ∀ x ∈ l, a * x ^ 3 + b * x ^ 2 + c * x + d = 0 := by
  obtain ⟨l, hl, _⟩ := cubicReal_spec ha b c d multiple
  obtain ⟨hne, hsorted⟩ := cubicReal_pairwise ha b c d multiple hl
  refine ⟨l, hl, hne, hsorted, fun x hx => ?_⟩
  have hroot := Polynomial.isRoot_of_mem_roots (mem_roots_of_mem_cubicReal ha b c d multiple hl x hx)
  simp only [Polynomial.IsRoot.def, Coeffs.polynomial_cons, Coeffs.polynomial_nil, Polynomial.eval_add,
    Polynomial.eval_mul, Polynomial.eval_C, Polynomial.eval_X, Polynomial.eval_zero] at hroot
  linear_combination hroot

theorem cubicReal_sound_ordered_descending :
    Lawful ℝ ∧ Principal ℝ ∧ (-1 : ℝ) ≠ 0 ∧
      ∃ l, cubicReal true (-1 : ℝ) 0 3 (-1) = .ok l ∧ l ≠ [] ∧ l.Pairwise (· ≤ ·) ∧
        ∀ x ∈ l, -1 * x ^ 3 + 0 * x ^ 2 + 3 * x + -1 = 0 := by
  have hlead : (-1 : ℝ) ≠ 0 := neg_ne_zero.2 one_ne_zero
  exact ⟨inferInstance, inferInstance, hlead, cubicReal_sound_ordered hlead 0 3 (-1) true⟩

end ThreeRoots

end Solve

end PolyRoots
