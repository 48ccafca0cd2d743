import Mathlib.Analysis.Calculus.Deriv.Polynomial
import Mathlib.Analysis.Convex.Deriv
import Mathlib.Topology.Algebra.Polynomial
import PolyRoots.Proofs.Coeffs.Calculus
import PolyRoots.Proofs.Coeffs.Evaluate
import PolyRoots.Proofs.Solve.Newton

namespace PolyRoots

namespace Solve

open Polynomial
open Coeffs (polynomial)

/-- What a search is documented to assume of an interval with finite ends. -/
structure Bracket (p : ℝ[X]) (a b : ℝ) : Prop where
  increasing : a < b
  slope : ∀ x ∈ Set.Ioo a b, (derivative p).eval x ≠ 0
  curvature : ∀ x ∈ Set.Ioo a b, (derivative^[2] p).eval x ≠ 0
  change : p.eval a * p.eval b < 0

theorem pos_or_neg_of_ne_zero {q : ℝ[X]} {a b : ℝ} (h : ∀ x ∈ Set.Ioo a b, q.eval x ≠ 0) :
    (∀ x ∈ Set.Ioo a b, 0 < q.eval x) ∨ ∀ x ∈ Set.Ioo a b, q.eval x < 0 := by
  by_contra hno
  push Not at hno
  obtain ⟨⟨x, hx, hx0⟩, y, hy, hy0⟩ := hno
  obtain ⟨z, hz, hz0⟩ :=
    isPreconnected_Ioo.intermediate_value hx hy q.continuous.continuousOn ⟨hx0, hy0⟩
  exact h z hz hz0

theorem aboveTangents_of_curvature {q : ℝ[X]} {a b : ℝ}
    (h : ∀ x ∈ Set.Ioo a b, 0 < (derivative^[2] q).eval x) :
    AboveTangents (q.eval ·) ((derivative q).eval ·) a b := by
  have hconvex : ConvexOn ℝ (Set.Icc a b) (q.eval ·) := by
    apply convexOn_of_hasDerivWithinAt2_nonneg (convex_Icc a b) q.continuous.continuousOn
    · exact fun x _ => (q.hasDerivAt x).hasDerivWithinAt
    · exact fun x _ => ((derivative q).hasDerivAt x).hasDerivWithinAt
    · intro x hx
      rw [interior_Icc] at hx
      exact (h x hx).le
  intro x hx y hy
  rcases lt_trichotomy x y with hlt | rfl | hlt
  · have hslope := hconvex.le_slope_of_hasDerivAt hx hy hlt (q.hasDerivAt x)
    rw [slope_def_field, le_div_iff₀ (sub_pos.2 hlt)] at hslope
    linarith
  · simp
  · have hslope := hconvex.slope_le_of_hasDerivAt hy hx hlt (q.hasDerivAt x)
    rw [slope_def_field, div_le_iff₀ (sub_pos.2 hlt)] at hslope
    linarith

namespace Bracket

variable {p : ℝ[X]} {a b : ℝ} (h : Bracket p a b)

include h

theorem middle_mem : (a + b) / 2 ∈ Set.Ioo a b := by
  have hab := h.increasing
  constructor <;> linarith

theorem exists_root : ∃ r ∈ Set.Icc a b, p.eval r = 0 := by
  have hcont : ContinuousOn (p.eval ·) (Set.Icc a b) := p.continuous.continuousOn
  rcases mul_neg_iff.1 h.change with ⟨ha, hb⟩ | ⟨ha, hb⟩
  · exact intermediate_value_Icc' h.increasing.le hcont ⟨hb.le, ha.le⟩
  · exact intermediate_value_Icc h.increasing.le hcont ⟨ha.le, hb.le⟩

theorem curvature_cases :
    ((∀ x ∈ Set.Ioo a b, 0 < (derivative^[2] p).eval x) ∧
        AboveTangents (p.eval ·) ((derivative p).eval ·) a b) ∨
      (∀ x ∈ Set.Ioo a b, (derivative^[2] p).eval x < 0) ∧
        AboveTangents (fun t => -p.eval t) (fun t => -(derivative p).eval t) a b := by
  rcases pos_or_neg_of_ne_zero h.curvature with hpos | hneg
  · exact .inl ⟨hpos, aboveTangents_of_curvature hpos⟩
  · have habove : AboveTangents ((-p).eval ·) ((derivative (-p)).eval ·) a b := by
      apply aboveTangents_of_curvature
      intro x hx
      rw [iterate_derivative_neg, eval_neg]
      exact neg_pos.2 (hneg x hx)
    simp only [derivative_neg, eval_neg] at habove
    exact .inr ⟨hneg, habove⟩

theorem oneSided : OneSided (p.eval ·) ((derivative p).eval ·) a b := by
  rcases h.curvature_cases with ⟨_, habove⟩ | ⟨_, habove⟩
  · exact .inl habove
  · exact .inr habove

end Bracket

/-- The point that the first step of a search in `[a, b]` leads to. -/
noncomputable def firstStep (p : ℝ[X]) (a b : ℝ) : ℝ :=
  newtonPoint (p.eval ·) ((derivative p).eval ·) ((a + b) / 2)

/-- The first step makes the polynomial smaller, unless the search begins at a root. -/
def FirstStepGains (p : ℝ[X]) (a b : ℝ) : Prop :=
  p.eval ((a + b) / 2) = 0 ∨ |p.eval (firstStep p a b)| < |p.eval ((a + b) / 2)|

/-- The search begins where the polynomial has the sign of its curvature, so that a tangent meets the
axis before the root or at it. -/
def ConvexSide (p : ℝ[X]) (a b : ℝ) : Prop :=
  0 ≤ p.eval ((a + b) / 2) * (derivative^[2] p).eval ((a + b) / 2)

theorem Bracket.firstStep_of_convexSide {p : ℝ[X]} {a b : ℝ} (h : Bracket p a b)
    (hside : ConvexSide p a b) : firstStep p a b ∈ Set.Icc a b ∧ FirstStepGains p a b := by
  obtain ⟨r, hr, hroot⟩ := h.exists_root
  have hmid := h.middle_mem
  have hmid' := Set.Ioo_subset_Icc_self hmid
  rcases h.curvature_cases with ⟨hpos, habove⟩ | ⟨hneg, habove⟩
  · exact habove.good_step hmid' hr hroot (nonneg_of_mul_nonneg_left hside (hpos _ hmid))
  · have hgood := habove.good_step hmid' hr (neg_eq_zero.2 hroot)
      (neg_nonneg.2 (nonpos_of_mul_nonneg_left hside (hneg _ hmid)))
    rwa [newtonPoint_neg, neg_eq_zero, abs_neg, abs_neg] at hgood

noncomputable def bracketSearch (p : List ℝ) (a b : ℝ) (n : Nat) : Search (Line ℝ) :=
  search (Coeffs.evaluate (p.map .finite)) (Coeffs.evaluate (Coeffs.derivative 1 (p.map .finite)))
    (.finite a) (.finite b) n

theorem bracketSearch_eq (p : List ℝ) {a b : ℝ} (h : Bracket (polynomial p) a b) (n : Nat) :
    bracketSearch p a b n =
      ((newtonSteps ((polynomial p).eval ·) ((derivative (polynomial p)).eval ·) n ((a + b) / 2)
        ((polynomial p).eval ((a + b) / 2))).after [a, b, (a + b) / 2] []).map .finite := by
  apply search_finite _ _ h.increasing h.change
  · exact Coeffs.evaluate_ordinary Line.ordinary_finite p
  · intro t
    rw [Coeffs.derivative_ordinary Line.ordinary_finite, Coeffs.evaluate_ordinary Line.ordinary_finite,
      Coeffs.polynomial_derivative]
    rfl

theorem bracket_pow_sub {k : Nat} (hk : 2 ≤ k) {a b c : ℝ} (ha : 0 ≤ a) (hlo : a ^ k < c)
    (hhi : c < b ^ k) (hab : a < b) : Bracket (X ^ k - C c) a b where
  increasing := hab
  slope x hx := by
    have hx0 : 0 < x := ha.trans_lt hx.1
    have hk0 : (k : ℝ) ≠ 0 := Nat.cast_ne_zero.2 (by omega)
    rw [derivative_sub, derivative_X_pow, derivative_C, sub_zero, eval_mul, eval_C, eval_pow, eval_X]
    exact mul_ne_zero hk0 (pow_ne_zero _ hx0.ne')
  curvature x hx := by
    have hx0 : 0 < x := ha.trans_lt hx.1
    have hk0 : (k : ℝ) ≠ 0 := Nat.cast_ne_zero.2 (by omega)
    have hk1 : ((k - 1 : Nat) : ℝ) ≠ 0 := Nat.cast_ne_zero.2 (by omega)
    rw [Function.iterate_succ_apply, Function.iterate_one, derivative_sub, derivative_X_pow, derivative_C,
      sub_zero, derivative_C_mul, derivative_X_pow, eval_mul, eval_C, eval_mul, eval_C, eval_pow, eval_X]
    exact mul_ne_zero hk0 (mul_ne_zero hk1 (pow_ne_zero _ hx0.ne'))
  change := by
    simp only [eval_sub, eval_pow, eval_X, eval_C]
    exact mul_neg_of_neg_of_pos (sub_neg.2 hlo) (sub_pos.2 hhi)

theorem polynomial_square_sub (c : ℝ) : polynomial [-c, 0, 1] = X ^ 2 - C c := by
  simp only [Coeffs.polynomial_cons, Coeffs.polynomial_nil, C_neg, C_0, C_1]
  ring

theorem polynomial_cube_sub (c : ℝ) : polynomial [-c, 0, 0, 1] = X ^ 3 - C c := by
  simp only [Coeffs.polynomial_cons, Coeffs.polynomial_nil, C_neg, C_0, C_1]
  ring

theorem bracket_sqrt_two : Bracket (polynomial [-2, 0, 1]) 0 2 := by
  rw [polynomial_square_sub]
  exact bracket_pow_sub le_rfl le_rfl (by norm_num) (by norm_num) two_pos

theorem firstStep_pow_sub (k : Nat) (c a b : ℝ) : firstStep (X ^ k - C c) a b =
    (a + b) / 2 - (((a + b) / 2) ^ k - c) / (k * ((a + b) / 2) ^ (k - 1)) := by
  simp [firstStep, newtonPoint, derivative_X_pow]

section Search

variable (p : List ℝ) {a b : ℝ} (h : Bracket (polynomial p) a b) (n : Nat)

include h

theorem bracketSearch_one
    (hlt : |(polynomial p).eval (firstStep (polynomial p) a b)| <
      |(polynomial p).eval ((a + b) / 2)|) :
    bracketSearch p a b 1 =
      Search.map .finite ⟨some (firstStep (polynomial p) a b),
        [a, b, (a + b) / 2, firstStep (polynomial p) a b], [(a + b) / 2], false⟩ := by
  rw [bracketSearch_eq p h, newtonSteps_accept (h.slope _ h.middle_mem) hlt]
  rfl

theorem bracketSearch_within_iff : (bracketSearch p a b n).Within (Line.finite '' Set.Icc a b) ↔
    n = 0 ∨ firstStep (polynomial p) a b ∈ Set.Icc a b := by
  obtain ⟨r, hr, hroot⟩ := h.exists_root
  have hmid := h.middle_mem
  have hmid' := Set.Ioo_subset_Icc_self hmid
  have hab := h.increasing.le
  have hends : ∀ t ∈ [a, b, (a + b) / 2], t ∈ Set.Icc a b := by
    simp only [List.forall_mem_cons, List.not_mem_nil, false_imp_iff, implies_true, and_true]
    exact ⟨Set.left_mem_Icc.2 hab, Set.right_mem_Icc.2 hab, hmid'⟩
  rw [bracketSearch_eq p h, Search.within_map _ (fun _ _ => Line.finite.inj), Search.within_after,
    and_iff_right hends]
  exact h.oneSided.within_iff hr hroot hmid' (h.slope _ hmid) n

theorem bracketSearch_finds_iff : (bracketSearch p a b n).Finds (Coeffs.evaluate (p.map .finite)) ↔
    (newtonSteps ((polynomial p).eval ·) ((derivative (polynomial p)).eval ·) n ((a + b) / 2)
      ((polynomial p).eval ((a + b) / 2))).Finds ((polynomial p).eval ·) := by
  rw [bracketSearch_eq p h, Search.finds_map Line.finite]
  · rfl
  · intro t
    rw [Coeffs.evaluate_ordinary Line.ordinary_finite]
    exact ⟨Line.finite.inj, congrArg Line.finite⟩

theorem bracketSearch_finds (hmem : firstStep (polynomial p) a b ∈ Set.Icc a b)
    (hgains : FirstStepGains (polynomial p) a b) :
    (bracketSearch p a b n).Finds (Coeffs.evaluate (p.map .finite)) := by
  obtain ⟨r, hr, hroot⟩ := h.exists_root
  have hmid := h.middle_mem
  rw [bracketSearch_finds_iff p h]
  exact h.oneSided.finds hr hroot (Set.Ioo_subset_Icc_self hmid) (h.slope _ hmid) hmem hgains n

theorem bracketSearch_gives_up (hno : ¬ FirstStepGains (polynomial p) a b) :
    ¬ (bracketSearch p a b (n + 1)).Finds (Coeffs.evaluate (p.map .finite)) := by
  obtain ⟨hne, hle⟩ := not_or.1 hno
  rw [bracketSearch_finds_iff p h]
  exact newtonSteps_gives_up (h.slope _ h.middle_mem) hne (not_lt.1 hle) n

/-- A search keeps to its interval if and only if its first step does, which it does from the convex
side. -/
theorem search_stays_in_bracket :
    ((bracketSearch p a b n).Within (Line.finite '' Set.Icc a b) ↔
        n = 0 ∨ firstStep (polynomial p) a b ∈ Set.Icc a b) ∧
      (ConvexSide (polynomial p) a b →
        (bracketSearch p a b n).Within (Line.finite '' Set.Icc a b)) := by
  refine ⟨bracketSearch_within_iff p h n, fun hside => ?_⟩
  obtain ⟨hmem, _⟩ := h.firstStep_of_convexSide hside
  exact (bracketSearch_within_iff p h n).2 (.inr hmem)

omit h in
theorem search_stays_in_bracket_sqrt_two : Bracket (polynomial [-2, 0, 1]) 0 2 ∧
    (bracketSearch [-2, 0, 1] 0 2 defaultSteps).Within (Line.finite '' Set.Icc 0 2) := by
  refine ⟨bracket_sqrt_two, (search_stays_in_bracket _ bracket_sqrt_two _).1.2 (.inr ?_)⟩
  rw [polynomial_square_sub, firstStep_pow_sub]
  norm_num

omit h in
/-- One step takes the search for a root of `x² - 7 / 8` from the middle of `[0, 1]` to `9 / 8`, where
the function is smaller. -/
theorem search_leaves_bracket : Bracket (polynomial [-(7 / 8), 0, 1]) 0 1 ∧
    (bracketSearch [-(7 / 8), 0, 1] 0 1 1).root = some (.finite (9 / 8)) ∧
    ¬ (bracketSearch [-(7 / 8), 0, 1] 0 1 1).Within (Line.finite '' Set.Icc 0 1) := by
  have h : Bracket (polynomial [-(7 / 8), 0, 1]) 0 1 := by
    rw [polynomial_square_sub]
    exact bracket_pow_sub le_rfl le_rfl (by norm_num) (by norm_num) one_pos
  have hstep : firstStep (polynomial [-(7 / 8), 0, 1]) 0 1 = 9 / 8 := by
    rw [polynomial_square_sub, firstStep_pow_sub]
    norm_num
  refine ⟨h, ?_, ?_⟩
  · rw [bracketSearch_one _ h, hstep]
    · rfl
    · rw [hstep, polynomial_square_sub]
      simp only [eval_sub, eval_pow, eval_X, eval_C]
      norm_num [abs_of_neg, abs_of_pos]
  · rw [bracketSearch_within_iff _ h, hstep]
    norm_num

/-- A search that settles is at a root if its first step stays in the interval and gains. A first
step that gains nothing is rejected and ends the search in the middle, which is no root. -/
theorem search_stops_at_root :
    (firstStep (polynomial p) a b ∈ Set.Icc a b → FirstStepGains (polynomial p) a b →
        (bracketSearch p a b n).Finds (Coeffs.evaluate (p.map .finite))) ∧
      (¬ FirstStepGains (polynomial p) a b →
        ¬ (bracketSearch p a b (n + 1)).Finds (Coeffs.evaluate (p.map .finite))) ∧
      (ConvexSide (polynomial p) a b →
        (bracketSearch p a b n).Finds (Coeffs.evaluate (p.map .finite))) := by
  refine ⟨bracketSearch_finds p h n, bracketSearch_gives_up p h n, fun hside => ?_⟩
  obtain ⟨hmem, hgains⟩ := h.firstStep_of_convexSide hside
  exact bracketSearch_finds p h n hmem hgains

omit h in
theorem search_stops_at_root_sqrt_two : Bracket (polynomial [-2, 0, 1]) 0 2 ∧
    (bracketSearch [-2, 0, 1] 0 2 defaultSteps).Finds (Coeffs.evaluate ([-2, 0, 1].map .finite)) := by
  refine ⟨bracket_sqrt_two, (search_stops_at_root _ bracket_sqrt_two _).1 ?_ (.inr ?_)⟩
  · rw [polynomial_square_sub, firstStep_pow_sub]
    norm_num
  · rw [polynomial_square_sub, firstStep_pow_sub]
    norm_num [abs_lt]

omit h in
/-- The first step from the middle of `[0, 1]` overshoots the root `15 / 16` of `x³ - 3375 / 4096` so
far that it is rejected, and the search ends in the middle. -/
theorem search_stops_early : Bracket (polynomial [-(3375 / 4096), 0, 0, 1]) 0 1 ∧
    ¬ (bracketSearch [-(3375 / 4096), 0, 0, 1] 0 1 defaultSteps).Finds
        (Coeffs.evaluate ([-(3375 / 4096), 0, 0, 1].map .finite)) := by
  have h : Bracket (polynomial [-(3375 / 4096), 0, 0, 1]) 0 1 := by
    rw [polynomial_cube_sub]
    exact bracket_pow_sub (by norm_num) le_rfl (by norm_num) (by norm_num) one_pos
  refine ⟨h, bracketSearch_gives_up _ h 199 (not_or.2 ⟨?_, not_lt.2 ?_⟩)⟩
  · rw [polynomial_cube_sub]
    norm_num
  · rw [polynomial_cube_sub, firstStep_pow_sub]
    simp only [eval_sub, eval_pow, eval_X, eval_C]
    norm_num [abs_of_neg, abs_of_pos]

end Search

end Solve

end PolyRoots
