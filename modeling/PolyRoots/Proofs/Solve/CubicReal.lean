import Mathlib.Algebra.Order.Ring.Basic
import Mathlib.Algebra.Polynomial.Roots
import Mathlib.RingTheory.SimpleRing.Principal
import PolyRoots.Proofs.Coeffs.Denotation
import PolyRoots.Proofs.Scalar.Real
import PolyRoots.Proofs.Solve.Cubic

universe u

namespace PolyRoots

namespace Solve

open Coeffs (polynomial)

section Formula

open Polynomial

variable {F : Type u} [Field F] {a b c d u s x y z : F}

theorem vieta₃_list_iff : Vieta₃ a b c d ⟨[x, y, z], rfl⟩ ↔
    a * (x + y + z) = -b ∧ a * (x * y + x * z + y * z) = c ∧ a * (x * y * z) = -d :=
  ⟨fun h => ⟨h.sum, h.pairs, h.product⟩, fun h => ⟨h.1, h.2.1, h.2.2⟩⟩

theorem roots_of_vieta₃ (ha : a ≠ 0) (h : Vieta₃ a b c d ⟨[x, y, z], rfl⟩) :
    (polynomial [d, c, b, a]).roots = {x, y, z} := by
  obtain ⟨hsum, hpairs, hproduct⟩ := vieta₃_list_iff.1 h
  have hfactor : polynomial [d, c, b, a] =
      C a * (({x, y, z} : Multiset F).map fun r => X - C r).prod := by
    obtain rfl : b = -(a * (x + y + z)) := by rw [hsum, neg_neg]
    obtain rfl : d = -(a * (x * y * z)) := by rw [hproduct, neg_neg]
    subst hpairs
    simp only [Coeffs.polynomial_cons, Coeffs.polynomial_nil, Multiset.insert_eq_cons,
      Multiset.map_cons, Multiset.map_singleton, Multiset.prod_cons, Multiset.prod_singleton, C_neg,
      C_mul, C_add]
    ring
  rw [hfactor, roots_C_mul _ ha, roots_multiset_prod_X_sub_C]

/-- The discriminant of the depressed equation. -/
theorem Vieta₃.discriminant (h : Vieta₃ 1 0 (3 * u) s ⟨[x, y, z], rfl⟩) :
    27 * (4 * u * u * u + s * s) = -((x - y) * (x - z) * (y - z)) ^ 2 := by
  obtain ⟨hsum, hpairs, hproduct⟩ := vieta₃_list_iff.1 h
  have hz : z = -x - y := by linear_combination hsum
  have hu : 3 * u = x * y + x * z + y * z := by linear_combination -hpairs
  have hs : s = -(x * y * z) := by linear_combination hproduct
  have hcube : 27 * (4 * u * u * u + s * s) = 4 * (3 * u) ^ 3 + 27 * s ^ 2 := by ring
  rw [hcube, hu, hs, hz]
  ring

theorem roots_of_depressed [CharZero F] (ha : a ≠ 0) (hu : u = 3 * a * c - b * b)
    (hs : s = 2 * b * b * b - 9 * a * b * c + 27 * a * a * d)
    (h : Vieta₃ 1 0 (3 * u) s ⟨[x, y, z], rfl⟩) :
    (polynomial [d, c, b, a]).roots = {(x - b) / (3 * a), (y - b) / (3 * a), (z - b) / (3 * a)} :=
  roots_of_vieta₃ ha (h.shift ha hu hs)

end Formula

variable {K : Type u} [Field K] [LinearOrder K] {a b c d u s : K}

section Ordered

variable [IsStrictOrderedRing K]

open Polynomial in
theorem roots_of_depressed_single (ha : a ≠ 0) (hu : u = 3 * a * c - b * b)
    (hs : s = 2 * b * b * b - 9 * a * b * c + 27 * a * a * d) {y : K}
    (hy : y * y * y + 3 * u * y + s = 0) (hpos : 0 < y * y + 4 * u) :
    (polynomial [d, c, b, a]).roots = {(y - b) / (3 * a)} := by
  obtain ⟨x, hx⟩ : ∃ x, x = (y - b) / (3 * a) := ⟨_, rfl⟩
  have hyx : y = 3 * a * x + b := by
    rw [hx]
    field_simp
    ring
  have hd : d = -(x * (c + b * x + a * x * x)) := by
    have hcube : 27 * a * a * (d + x * (c + b * x + a * x * x)) = 0 := by
      rw [hyx, hu, hs] at hy
      linear_combination hy
    have hne : 27 * a * a ≠ 0 := mul_ne_zero (mul_ne_zero (by norm_num) ha) ha
    linear_combination (mul_eq_zero.1 hcube).resolve_left hne
  have hfactor : polynomial [d, c, b, a] =
      (X - C x) * (C a * X ^ 2 + C (b + a * x) * X + C (c + b * x + a * x * x)) := by
    rw [hd]
    simp only [Coeffs.polynomial_cons, Coeffs.polynomial_nil, C_neg, C_mul, C_add]
    ring
  -- nine times the discriminant of the other factor is `- 3 (y² + 4 u)`
  have hcomplex (t : K) : a * t ^ 2 + (b + a * x) * t + (c + b * x + a * x * x) ≠ 0 := by
    intro ht
    have hsq : (6 * a * t + 2 * b + y) ^ 2 + 3 * (y * y + 4 * u) = 0 := by
      rw [hyx, hu]
      linear_combination 36 * a * ht
    have hnonneg := sq_nonneg (6 * a * t + 2 * b + y)
    linarith
  have hne : (X - C x) * (C a * X ^ 2 + C (b + a * x) * X + C (c + b * x + a * x * x)) ≠ 0 := by
    refine mul_ne_zero (X_sub_C_ne_zero x) ?_
    intro h
    have heval := congrArg (eval 0) h
    simp only [eval_add, eval_mul, eval_C, eval_pow, eval_X, eval_zero] at heval
    exact hcomplex 0 heval
  rw [hfactor, roots_mul hne, roots_X_sub_C, ← hx]
  have hnil : (C a * X ^ 2 + C (b + a * x) * X + C (c + b * x + a * x * x)).roots = 0 := by
    apply Multiset.eq_zero_of_forall_notMem
    intro t ht
    have heval := isRoot_of_mem_roots ht
    simp only [IsRoot.def, eval_add, eval_mul, eval_C, eval_pow, eval_X] at heval
    exact hcomplex t heval
  rw [hnil, add_zero]

theorem cube_inj {x y : K} (h : x * x * x = y * y * y) : x = y := by
  rw [← Odd.pow_inj (by decide : Odd 3)]
  linear_combination h

theorem Vieta₃.nodup {x y z : K} (h : Vieta₃ 1 0 (3 * u) s ⟨[x, y, z], rfl⟩)
    (hdisc : 4 * u * u * u + s * s < 0) : x ≠ y ∧ x ≠ z ∧ y ≠ z := by
  have hd := h.discriminant
  have hne : (x - y) * (x - z) * (y - z) ≠ 0 := by
    intro hzero
    rw [hzero] at hd
    linarith
  exact ⟨sub_ne_zero.1 (left_ne_zero_of_mul (left_ne_zero_of_mul hne)),
    sub_ne_zero.1 (right_ne_zero_of_mul (left_ne_zero_of_mul hne)),
    sub_ne_zero.1 (right_ne_zero_of_mul hne)⟩

theorem eq_neg_sq_of_disc_zero {t : K} (hdisc : 4 * u * u * u + s * s = 0) (ht : t * t * t = -s / 2) :
    u = -(t * t) := by
  apply cube_inj
  linear_combination hdisc / 4 + (t * t * t - s / 2) * ht

theorem vieta₃_repeated {t : K} (hdisc : 4 * u * u * u + s * s = 0) (ht : t * t * t = -s / 2) :
    Vieta₃ 1 0 (3 * u) s ⟨[-t, -t, 2 * t], rfl⟩ := by
  have hu := eq_neg_sq_of_disc_zero hdisc ht
  rw [vieta₃_list_iff]
  refine ⟨by ring, ?_, ?_⟩
  · linear_combination -3 * hu
  · linear_combination 2 * ht

theorem cardano_sum {t v q : K} (hq : q * q = 4 * u * u * u + s * s) (ht : t * t * t = (-q - s) / 2)
    (hv : v * v * v = (q - s) / 2) :
    (t + v) * (t + v) * (t + v) + 3 * u * (t + v) + s = 0 ∧
      (t + v) * (t + v) + 4 * u = (t - v) * (t - v) := by
  have hu : t * v = -u := by
    apply cube_inj
    linear_combination v * v * v * ht + (-q - s) / 2 * hv - hq / 4
  constructor
  · linear_combination ht + hv + 3 * (t + v) * hu
  · linear_combination 4 * hu

end Ordered

open Elementary

section Branches

variable [Elementary K]

theorem coe_cubicThree {w : Cplx K} {disc : K}
    (hw : Cplx.power ⟨-s / 2, sqrt (-disc) / 2⟩ (1 / 3) = w) :
    (cubicThree a b s disc : Multiset K) =
      {(-w.re - sqrt 3 * w.im - b) / (3 * a), (-w.re + sqrt 3 * w.im - b) / (3 * a),
        (2 * w.re - b) / (3 * a)} := by
  subst hw
  -- the list is reversed for a negative leading coefficient
  by_cases hneg : a < 0
  · exact (congrArg _ (if_pos hneg)).trans (Multiset.coe_reverse _)
  · exact congrArg _ (if_neg hneg)

variable [BEq K] [LawfulBEq K] {multiple : Bool}

theorem cubicReal_of_disc_neg (ha : a ≠ 0) (hu : u = 3 * a * c - b * b)
    (hs : s = 2 * b * b * b - 9 * a * b * c + 27 * a * a * d) (hdisc : 4 * u * u * u + s * s < 0) :
    cubicReal multiple a b c d = .ok (cubicThree a b s (4 * u * u * u + s * s)) := by
  subst hu hs
  have hlead : ¬ (a == 0) = true := by rwa [beq_iff_eq]
  exact (if_neg hlead).trans (if_pos hdisc)

theorem cubicReal_of_disc_pos (ha : a ≠ 0) (hu : u = 3 * a * c - b * b)
    (hs : s = 2 * b * b * b - 9 * a * b * c + 27 * a * a * d) (hdisc : 0 < 4 * u * u * u + s * s) :
    cubicReal multiple a b c d =
      .ok [(cbrt ((-sqrt (4 * u * u * u + s * s) - s) / 2) +
        cbrt ((sqrt (4 * u * u * u + s * s) - s) / 2) - b) / (3 * a)] := by
  subst hu hs
  have hlead : ¬ (a == 0) = true := by rwa [beq_iff_eq]
  have hne := bne_iff_ne.2 hdisc.ne'
  exact (if_neg hlead).trans ((if_neg hdisc.not_gt).trans (if_pos hne))

end Branches

variable [IsStrictOrderedRing K] [Elementary K] [Lawful K]

theorem cbrt_cube (t : K) : cbrt t * cbrt t * cbrt t = t := by
  have hpos {t : K} (ht : 0 < t) : pow t (1 / 3) * pow t (1 / 3) * pow t (1 / 3) = t := by
    have h := pow_one_div_pow ht three_ne_zero
    rw [Nat.cast_ofNat] at h
    linear_combination h
  rcases lt_trichotomy t 0 with ht | rfl | ht
  · have hneg := hpos (neg_pos.2 ht)
    rw [cbrt, if_neg (not_le_of_gt ht)]
    linear_combination -hneg
  · have hzero : pow (0 : K) (1 / 3) = 0 := Lawful.zero_pow (by norm_num)
    rw [cbrt, if_pos le_rfl, hzero, mul_zero]
  · rw [cbrt, if_pos ht.le]
    exact hpos ht

/-- With a cube root `w` of `- s / 2 + i √-Q / 2` the numbers `2 Re w` and `- Re w ± √3 Im w` solve the
depressed equation. -/
theorem vieta₃_three {w : Cplx K} (hdisc : 4 * u * u * u + s * s < 0)
    (hw : w * w * w = ⟨-s / 2, sqrt (-(4 * u * u * u + s * s)) / 2⟩) :
    Vieta₃ 1 0 (3 * u) s ⟨[-w.re - sqrt 3 * w.im, -w.re + sqrt 3 * w.im, 2 * w.re], rfl⟩ := by
  have hthree : sqrt (3 : K) * sqrt 3 = 3 := Lawful.sqrt_mul_self (by norm_num)
  have hroot : sqrt (-(4 * u * u * u + s * s)) * sqrt (-(4 * u * u * u + s * s)) =
      -(4 * u * u * u + s * s) := Lawful.sqrt_mul_self (by linarith)
  have hre : (w * w * w).re = -s / 2 := congrArg Cplx.re hw
  have hnorm : w.normSq = -u := by
    apply cube_inj
    rw [← Cplx.normSq_mul, ← Cplx.normSq_mul, hw, Cplx.normSq]
    linear_combination hroot / 4
  simp only [Cplx.mul_re, Cplx.mul_im] at hre
  rw [Cplx.normSq] at hnorm
  rw [vieta₃_list_iff]
  refine ⟨by ring, ?_, ?_⟩
  · linear_combination -3 * hnorm - w.im * w.im * hthree
  · linear_combination 2 * hre - 2 * w.re * w.im * w.im * hthree

variable [BEq K] [LawfulBEq K] {multiple : Bool}

theorem cubicReal_of_disc_zero (multiple : Bool) (ha : a ≠ 0) (hu : u = 3 * a * c - b * b)
    (hs : s = 2 * b * b * b - 9 * a * b * c + 27 * a * a * d) (hdisc : 4 * u * u * u + s * s = 0) :
    ∃ t, t * t * t = -s / 2 ∧ cubicReal multiple a b c d = .ok (cubicRepeated multiple a b u s t) := by
  have hsqrt : sqrt (4 * u * u * u + s * s) = 0 := by rw [hdisc, sqrt_zero]
  refine ⟨cbrt ((-sqrt (4 * u * u * u + s * s) - s) / 2), ?_, ?_⟩
  · rw [cbrt_cube, hsqrt]
    ring
  · subst hu hs
    have hlead : ¬ (a == 0) = true := by rwa [beq_iff_eq]
    have heq := (bne_eq_false_iff_eq).2 hdisc
    exact (if_neg hlead).trans ((if_neg hdisc.not_lt).trans (if_neg (Bool.eq_false_iff.1 heq)))

omit [Elementary K] [Lawful K] [BEq K] [LawfulBEq K] in
/-- The comparison that is meant to tell a triple root holds in one more case. -/
theorem eq_nine_mul_iff {t x z : K} (ha : a ≠ 0) (hdisc : 4 * u * u * u + s * s = 0)
    (ht : t * t * t = -s / 2) (hx : x = (-t - b) / (3 * a)) (hz : z = (2 * t - b) / (3 * a)) :
    s = 9 * a * u ↔ z = x ∨ z = x + 9 / 2 := by
  have hu := eq_neg_sq_of_disc_zero hdisc ht
  have hdiff : z - x = t / a := by
    rw [hx, hz]
    field_simp
    ring
  have htriple : z = x ↔ t = 0 := by
    rw [← sub_eq_zero, hdiff, div_eq_zero_iff]
    exact or_iff_left ha
  have hslip : z = x + 9 / 2 ↔ t = 9 / 2 * a := by
    rw [← sub_eq_iff_eq_add', hdiff, div_eq_iff ha]
  have hfactor : s - 9 * a * u = -2 * (t * t) * (t - 9 / 2 * a) := by
    linear_combination 2 * ht - 9 * a * hu
  rw [htriple, hslip, ← sub_eq_zero, hfactor, mul_eq_zero, mul_eq_zero, mul_self_eq_zero, sub_eq_zero]
  simp

omit [Elementary K] [Lawful K] in
theorem cubicRepeated_eq {t x z : K} (ha : a ≠ 0) (hdisc : 4 * u * u * u + s * s = 0)
    (ht : t * t * t = -s / 2) (hx : x = (-t - b) / (3 * a)) (hz : z = (2 * t - b) / (3 * a)) :
    if z = x ∨ z = x + 9 / 2 then
      cubicRepeated multiple a b u s t = if multiple then [x, x, x] else [x]
    else (cubicRepeated multiple a b u s t : Multiset K) = if multiple then {x, x, z} else {x, z} := by
  have htest := eq_nine_mul_iff ha hdisc ht hx hz
  rw [← neg_sub_comm] at hx
  split
  next h =>
    have heq := beq_iff_eq.2 (htest.2 h)
    rw [hx]
    exact if_pos heq
  next h =>
    have hne := mt (htest.1 ∘ beq_iff_eq.1) h
    have hlist : cubicRepeated multiple a b u s t =
        if 0 < t * a then (if multiple then [x, x] else [x]) ++ [z]
        else [z] ++ (if multiple then [x, x] else [x]) := by
      rw [hx, hz]
      exact if_neg hne
    have hperm : (cubicRepeated multiple a b u s t : Multiset K) =
        ((if multiple then [x, x] else [x]) ++ [z] : List K) := by
      rw [hlist]
      split
      · rfl
      · exact Multiset.coe_eq_coe.2 List.perm_append_comm
    rw [hperm]
    cases multiple <;> rfl

theorem cubicReal_spec (ha : a ≠ 0) (b c d : K) (multiple : Bool) :
    ∃ l, cubicReal multiple a b c d = .ok l ∧
      (((l : Multiset K) = (polynomial [d, c, b, a]).roots ∧ (polynomial [d, c, b, a]).roots.Nodup) ∨
        ∃ x z, (polynomial [d, c, b, a]).roots = {x, x, z} ∧
          if z = x ∨ z = x + 9 / 2 then l = if multiple then [x, x, x] else [x]
          else (l : Multiset K) = if multiple then {x, x, z} else {x, z}) := by
  obtain ⟨u, hu⟩ : ∃ u, u = 3 * a * c - b * b := ⟨_, rfl⟩
  obtain ⟨s, hs⟩ : ∃ s, s = 2 * b * b * b - 9 * a * b * c + 27 * a * a * d := ⟨_, rfl⟩
  rcases lt_trichotomy (4 * u * u * u + s * s) 0 with hdisc | hdisc | hdisc
  · obtain ⟨w, hw⟩ : ∃ w, Cplx.power ⟨-s / 2, sqrt (-(4 * u * u * u + s * s)) / 2⟩ (1 / 3) = w :=
      ⟨_, rfl⟩
    have hz : (⟨-s / 2, sqrt (-(4 * u * u * u + s * s)) / 2⟩ : Cplx K) ≠ 0 := by
      intro h
      have him : sqrt (-(4 * u * u * u + s * s)) / 2 = 0 := congrArg Cplx.im h
      have hsq := Lawful.sqrt_mul_self (neg_nonneg.2 hdisc.le)
      rw [(div_eq_zero_iff.1 him).resolve_right two_ne_zero, mul_zero] at hsq
      linarith
    have hcube := Cplx.power_third_mul_self hz
    rw [hw] at hcube
    have hvieta := vieta₃_three hdisc hcube
    have hroots := roots_of_depressed ha hu hs hvieta
    refine ⟨_, cubicReal_of_disc_neg ha hu hs hdisc, .inl ⟨?_, ?_⟩⟩
    · rw [coe_cubicThree hw, hroots]
    · obtain ⟨h₀₁, h₀₂, h₁₂⟩ := hvieta.nodup hdisc
      have hinj {x y : K} (hne : x ≠ y) : (x - b) / (3 * a) ≠ (y - b) / (3 * a) := by
        rwa [Ne, div_left_inj' (mul_ne_zero three_ne_zero ha), sub_left_inj]
      rw [hroots]
      simp only [Multiset.insert_eq_cons, Multiset.nodup_cons, Multiset.mem_cons,
        Multiset.mem_singleton, Multiset.nodup_singleton, not_or, and_true]
      exact ⟨⟨hinj h₀₁, hinj h₀₂⟩, hinj h₁₂⟩
  · obtain ⟨t, ht, hl⟩ := cubicReal_of_disc_zero multiple ha hu hs hdisc
    have hroots := roots_of_depressed ha hu hs (vieta₃_repeated hdisc ht)
    exact ⟨_, hl, .inr ⟨_, _, hroots, cubicRepeated_eq ha hdisc ht rfl rfl⟩⟩
  · have hq := Lawful.sqrt_mul_self hdisc.le
    obtain ⟨hroot, hsq⟩ := cardano_sum hq (cbrt_cube _) (cbrt_cube _)
    refine ⟨_, cubicReal_of_disc_pos ha hu hs hdisc, .inl ?_⟩
    rw [roots_of_depressed_single ha hu hs hroot]
    · exact ⟨rfl, Multiset.nodup_singleton _⟩
    · rw [hsq]
      refine mul_self_pos.2 (sub_ne_zero.2 ?_)
      intro heq
      have hcubes := congrArg (fun t => t * t * t) heq
      simp only [cbrt_cube] at hcubes
      have hzero : sqrt (4 * u * u * u + s * s) = 0 := by linear_combination -hcubes
      rw [hzero, mul_zero] at hq
      exact hdisc.ne hq

theorem pair_eq_of_multiset_eq {α : Type u} [DecidableEq α] {x z r w : α} (hw : w ≠ r)
    (h : ({x, x, z} : Multiset α) = {r, r, w}) : x = r ∧ z = w := by
  have hxr : x = r := by
    by_contra hne
    have hcount := congrArg (Multiset.count r) h
    rw [Multiset.insert_eq_cons, Multiset.insert_eq_cons, Multiset.count_cons_of_ne (Ne.symm hne),
      Multiset.count_cons_of_ne (Ne.symm hne), Multiset.insert_eq_cons, Multiset.insert_eq_cons,
      Multiset.count_cons_self, Multiset.count_cons_self] at hcount
    have hle := Multiset.count_le_card r {z}
    rw [Multiset.card_singleton] at hle
    omega
  subst hxr
  exact ⟨rfl, by simpa using h⟩

/-- The list holds every root as often as its multiplicity, or once, unless the equation has a double
root and its single root is nine halves more. Then the double root stands for all three. -/
theorem cubicReal_complete_iff (ha : a ≠ 0) (b c d : K) (multiple : Bool) :
    ∃ l, cubicReal multiple a b c d = .ok l ∧
      ((l : Multiset K) = (if multiple then (polynomial [d, c, b, a]).roots
          else (polynomial [d, c, b, a]).roots.dedup) ↔
        ¬ ∃ r, (polynomial [d, c, b, a]).roots = {r, r, r + 9 / 2}) ∧
      ∀ r, (polynomial [d, c, b, a]).roots = {r, r, r + 9 / 2} →
        l = if multiple then [r, r, r] else [r] := by
  have habove (r : K) : r + 9 / 2 ≠ r := by
    intro h
    linarith
  obtain ⟨l, hl, ⟨hroots, hnodup⟩ | ⟨x, z, hroots, hlist⟩⟩ := cubicReal_spec ha b c d multiple
  · have hnone : ¬ ∃ r, (polynomial [d, c, b, a]).roots = {r, r, r + 9 / 2} := by
      rintro ⟨r, hr⟩
      rw [hr] at hnodup
      simp at hnodup
    refine ⟨l, hl, iff_of_true ?_ hnone, fun r hr => absurd ⟨r, hr⟩ hnone⟩
    rw [hnodup.dedup, ite_self, hroots]
  · refine ⟨l, hl, ?_⟩
    rw [hroots]
    by_cases hslip : z = x + 9 / 2
    · rw [if_pos (.inr hslip)] at hlist
      subst hslip
      refine ⟨iff_of_false ?_ (not_not_intro ⟨x, rfl⟩), ?_⟩
      · intro h
        have hmem : x + 9 / 2 ∈ (l : Multiset K) := by
          rw [h]
          split <;> simp
        rw [hlist] at hmem
        split at hmem <;> simp at hmem
      · intro r hr
        obtain ⟨rfl, _⟩ := pair_eq_of_multiset_eq (habove r) hr
        exact hlist
    · have hnone : ¬ ∃ r, ({x, x, z} : Multiset K) = {r, r, r + 9 / 2} := by
        rintro ⟨r, hr⟩
        obtain ⟨rfl, hz⟩ := pair_eq_of_multiset_eq (habove r) hr
        exact hslip hz
      refine ⟨iff_of_true ?_ hnone, fun r hr => absurd ⟨r, hr⟩ hnone⟩
      by_cases htriple : z = x
      · rw [if_pos (.inl htriple)] at hlist
        subst htriple
        rw [hlist]
        cases multiple
        · simp
        · rfl
      · rw [if_neg (not_or_intro htriple hslip)] at hlist
        have hmem : x ∉ ({z} : Multiset K) := by simpa using Ne.symm htriple
        rw [hlist]
        cases multiple
        · simp [Multiset.dedup_cons_of_notMem hmem]
        · rfl

theorem cubicReal_complete_iff_double :
    Lawful ℝ ∧ (1 : ℝ) ≠ 0 ∧ ∃ l, cubicReal true (1 : ℝ) 0 (-3) 2 = .ok l ∧
      ((l : Multiset ℝ) = (if true then (polynomial [2, -3, 0, (1 : ℝ)]).roots
          else (polynomial [2, -3, 0, (1 : ℝ)]).roots.dedup) ↔
        ¬ ∃ r, (polynomial [2, -3, 0, (1 : ℝ)]).roots = {r, r, r + 9 / 2}) ∧
      ∀ r, (polynomial [2, -3, 0, (1 : ℝ)]).roots = {r, r, r + 9 / 2} →
        l = if true then [r, r, r] else [r] :=
  ⟨inferInstance, one_ne_zero, cubicReal_complete_iff one_ne_zero 0 (-3) 2 true⟩

/-- `2 x³ - 3 x² - 12 x - 7` has the double root `- 1` and the single root `7 / 2`, which is not listed. -/
theorem cubicReal_incomplete :
    cubicReal true (2 : ℝ) (-3) (-12) (-7) = .ok [-1, -1, -1] ∧
      (polynomial [-7, -12, -3, (2 : ℝ)]).roots = {-1, -1, 7 / 2} ∧
      (([-1, -1, -1] : List ℝ) : Multiset ℝ) ≠ (polynomial [-7, -12, -3, (2 : ℝ)]).roots := by
  have hvieta : Vieta₃ (2 : ℝ) (-3) (-12) (-7) ⟨[-1, -1, 7 / 2], rfl⟩ := by
    rw [vieta₃_list_iff]
    norm_num
  have hroots := roots_of_vieta₃ two_ne_zero hvieta
  refine ⟨?_, hroots, ?_⟩
  · obtain ⟨l, hl, ⟨_, hnodup⟩ | ⟨x, z, hxz, hlist⟩⟩ :=
      cubicReal_spec (two_ne_zero : (2 : ℝ) ≠ 0) (-3) (-12) (-7) true
    · rw [hroots] at hnodup
      simp at hnodup
    · rw [hroots] at hxz
      obtain ⟨rfl, rfl⟩ := pair_eq_of_multiset_eq (by norm_num) hxz.symm
      rw [if_pos (.inr (by norm_num))] at hlist
      rw [hl, hlist]
      rfl
  · rw [hroots]
    intro h
    have hmem : (7 / 2 : ℝ) ∈ (([-1, -1, -1] : List ℝ) : Multiset ℝ) := by
      rw [h]
      simp
    norm_num at hmem

end Solve

end PolyRoots
