import PolyRoots.Proofs.Cplx.SquareRoot
import PolyRoots.Proofs.Solve.Quadratic

universe u

namespace PolyRoots

namespace Solve

open Cplx (ofReal ofRealHom)
open Elementary

section Formula

variable {F : Type u} [Field F] {a b c x y : F}

theorem vieta₂_list_iff : Vieta₂ a b c ⟨[x, y], rfl⟩ ↔ a * (x + y) = -b ∧ a * (x * y) = c :=
  ⟨fun h => ⟨h.sum, h.product⟩, fun h => ⟨h.1, h.2⟩⟩

theorem root_iff_of_vieta₂ (ha : a ≠ 0) (h : Vieta₂ a b c ⟨[x, y], rfl⟩) (t : F) :
    a * t ^ 2 + b * t + c = 0 ↔ t = x ∨ t = y := by
  have hfactor : a * (t - x) * (t - y) = a * t ^ 2 + b * t + c := h.factor t
  rw [← hfactor, mul_eq_zero, mul_eq_zero, sub_eq_zero, sub_eq_zero, or_iff_right ha]

theorem disc_eq_zero_iff_of_vieta₂ [CharZero F] (ha : a ≠ 0) (h : Vieta₂ a b c ⟨[x, y], rfl⟩) :
    b / 2 * (b / 2) - a * c = 0 ↔ x = y := by
  obtain ⟨hsum, hproduct⟩ := vieta₂_list_iff.1 h
  have hdisc : b / 2 * (b / 2) - a * c = a * (x - y) / 2 * (a * (x - y) / 2) := by
    linear_combination (b - a * (x + y)) / 4 * hsum + a * hproduct
  rw [hdisc, mul_self_eq_zero, div_eq_zero_iff, or_iff_left two_ne_zero, mul_eq_zero, or_iff_right ha,
    sub_eq_zero]

theorem slope_iff_of_vieta₂ (ha : a ≠ 0) (h : Vieta₂ a b c ⟨[x, y], rfl⟩) {t : F} (ht : t = x ∨ t = y) :
    2 * a * t + b = 0 ↔ x = y := by
  have hsum := (vieta₂_list_iff.1 h).1
  rcases ht with rfl | rfl
  · have hslope : 2 * a * t + b = a * (t - y) := by linear_combination hsum
    rw [hslope, mul_eq_zero, or_iff_right ha, sub_eq_zero]
  · have hslope : 2 * a * t + b = a * (t - x) := by linear_combination hsum
    rw [hslope, mul_eq_zero, or_iff_right ha, sub_eq_zero, eq_comm]

end Formula

variable {K : Type u} [Field K] [LinearOrder K] [Elementary K] {a b c : K}

section Branches

variable [BEq K] [LawfulBEq K] {multiple : Bool}

theorem quadraticReal_of_disc_neg (ha : a ≠ 0) (hdisc : b / 2 * (b / 2) - a * c < 0) :
    quadraticReal multiple a b c = .ok [] := by
  have hlead : ¬ (a == 0) = true := by rwa [beq_iff_eq]
  exact (if_neg hlead).trans (if_pos hdisc)

theorem quadraticReal_of_pair (ha : a ≠ 0) (hdisc : 0 ≤ b / 2 * (b / 2) - a * c)
    (hpair : multiple = true ∨ b / 2 * (b / 2) - a * c ≠ 0) : quadraticReal multiple a b c =
      .ok (bothRoots (0 < a) a (b / 2) (sqrt (b / 2 * (b / 2) - a * c))).toList := by
  have hlead : ¬ (a == 0) = true := by rwa [beq_iff_eq]
  have htest : (multiple || b / 2 * (b / 2) - a * c != 0) = true := by rwa [Bool.or_eq_true, bne_iff_ne]
  refine (if_neg hlead).trans ((if_neg hdisc.not_gt).trans ((if_pos htest).trans ?_))
  by_cases hpos : 0 < a
  · rw [bothRoots_of_pos hpos]
    exact if_pos hpos
  · rw [bothRoots_of_neg hpos]
    exact if_neg hpos

theorem quadraticReal_of_vertex (ha : a ≠ 0) (hdisc : b / 2 * (b / 2) - a * c = 0) :
    quadraticReal false a b c = .ok [-(b / 2) / a] := by
  have hlead : ¬ (a == 0) = true := by rwa [beq_iff_eq]
  have htest : ¬ (false || b / 2 * (b / 2) - a * c != 0) = true := by rw [hdisc]; simp
  exact (if_neg hlead).trans ((if_neg hdisc.not_lt).trans (if_neg htest))

end Branches

variable [IsStrictOrderedRing K]

omit [Elementary K] in
theorem bothRoots_le (ha : a ≠ 0) (k : K) {s : K} (hs : 0 ≤ s) :
    ∃ x y, x ≤ y ∧ bothRoots (0 < a) a k s = ⟨[x, y], rfl⟩ := by
  have hle : -k - s ≤ -k + s := by linarith
  rcases lt_or_gt_of_ne ha with hneg | hpos
  · exact ⟨_, _, (div_le_div_right_of_neg hneg).2 hle, bothRoots_of_neg hneg.not_gt⟩
  · exact ⟨_, _, div_le_div_of_nonneg_right hle hpos.le, bothRoots_of_pos hpos⟩

omit [Elementary K] in
theorem ne_zero_of_disc_neg (hdisc : b / 2 * (b / 2) - a * c < 0) (x : K) : a * x ^ 2 + b * x + c ≠ 0 := by
  intro hx
  have hsq : (a * x + b / 2) * (a * x + b / 2) = b / 2 * (b / 2) - a * c := by linear_combination a * hx
  exact (mul_self_nonneg (a * x + b / 2)).not_gt (by rwa [hsq])

section Real

variable [BEq K] [LawfulBEq K]

theorem quadraticReal_spec [ExactSqrt K] (multiple : Bool) (ha : a ≠ 0) (b c : K) :
    ∃ l, quadraticReal multiple a b c = .ok l ∧ ((l = [] ∧ ∀ x, a * x ^ 2 + b * x + c ≠ 0) ∨
      ∃ x y, x ≤ y ∧ Vieta₂ a b c ⟨[x, y], rfl⟩ ∧ l = if multiple = true ∨ x ≠ y then [x, y] else [x]) := by
  rcases lt_or_ge (b / 2 * (b / 2) - a * c) 0 with hneg | hdisc
  · exact ⟨[], quadraticReal_of_disc_neg ha hneg, .inl ⟨rfl, ne_zero_of_disc_neg hneg⟩⟩
  · have hs := ExactSqrt.sqrt_mul_self hdisc
    obtain ⟨x, y, hle, hxy⟩ := bothRoots_le ha (b / 2) (ExactSqrt.sqrt_nonneg hdisc)
    have hvieta := vieta₂_bothRoots (0 < a) ha hs
    rw [hxy] at hvieta
    by_cases hpair : multiple = true ∨ b / 2 * (b / 2) - a * c ≠ 0
    · have hl := quadraticReal_of_pair ha hdisc hpair
      rw [hxy] at hl
      rw [Ne, disc_eq_zero_iff_of_vieta₂ ha hvieta] at hpair
      exact ⟨_, hl, .inr ⟨x, y, hle, hvieta, (if_pos hpair).symm⟩⟩
    · obtain ⟨hmultiple, hzero⟩ := not_or.1 hpair
      rw [not_not] at hzero
      obtain rfl := Bool.eq_false_iff.2 hmultiple
      have hxy := (disc_eq_zero_iff_of_vieta₂ ha hvieta).1 hzero
      have hx : -(b / 2) / a = x := by
        rw [div_eq_iff ha]
        linear_combination -(1 / 2) * (vieta₂_list_iff.1 hvieta).1 - a / 2 * hxy
      have hl := quadraticReal_of_vertex ha hzero
      rw [hx] at hl
      refine ⟨_, hl, .inr ⟨x, y, hle, hvieta, (if_neg ?_).symm⟩⟩
      simp [hxy]

omit [Field K] [IsStrictOrderedRing K] [Elementary K] in
theorem count_pair {x y t : K} (ht : t ∈ [x, y]) : [x, y].count t = if x = y then 2 else 1 := by
  rw [List.mem_pair] at ht
  rcases ht with rfl | rfl
  · by_cases h : t = y <;> simp [h]
  · by_cases h : x = t <;> simp [h]

/-- The list is in ascending order and holds exactly the roots. A double root, at which the slope vanishes too,
occurs twice or once, as wanted, and every other root once. -/
theorem quadraticReal_complete [ExactSqrt K] (ha : a ≠ 0) (b c : K) (multiple : Bool) :
    ∃ l, quadraticReal multiple a b c = .ok l ∧ l.Pairwise (· ≤ ·) ∧
      (∀ x, x ∈ l ↔ a * x ^ 2 + b * x + c = 0) ∧ (multiple = true → l.length = 0 ∨ l.length = 2) ∧
      ∀ x ∈ l, l.count x = if multiple = true ∧ 2 * a * x + b = 0 then 2 else 1 := by
  obtain ⟨l, hl, ⟨rfl, hnone⟩ | ⟨x, y, hle, hvieta, hlist⟩⟩ := quadraticReal_spec multiple ha b c
  · exact ⟨[], hl, .nil, fun x => iff_of_false List.not_mem_nil (hnone x), fun _ => .inl rfl, nofun⟩
  · refine ⟨l, hl, ?_⟩
    by_cases hpair : multiple = true ∨ x ≠ y
    · rw [if_pos hpair] at hlist
      subst hlist
      refine ⟨List.pairwise_pair.2 hle, fun t => ?_, fun _ => .inr rfl, fun t ht => ?_⟩
      · rw [root_iff_of_vieta₂ ha hvieta, List.mem_pair]
      · have hdouble : x = y ↔ multiple = true ∧ 2 * a * t + b = 0 := by
          rw [slope_iff_of_vieta₂ ha hvieta (List.mem_pair.1 ht)]
          exact ⟨fun heq => ⟨hpair.resolve_right (not_not_intro heq), heq⟩, And.right⟩
        rw [count_pair ht]
        exact if_congr hdouble rfl rfl
    · rw [if_neg hpair] at hlist
      obtain ⟨hmultiple, heq⟩ := not_or.1 hpair
      obtain rfl := not_not.1 heq
      subst hlist
      refine ⟨List.pairwise_singleton _ x, fun t => ?_, fun h => absurd h hmultiple, fun t ht => ?_⟩
      · rw [root_iff_of_vieta₂ ha hvieta, List.mem_singleton, or_self]
      · rw [if_neg fun h => hmultiple h.1, List.mem_singleton.1 ht, List.count_singleton_self]

theorem quadraticReal_complete_double :
    ExactSqrt ℝ ∧ (-2 : ℝ) ≠ 0 ∧
      ∃ l, quadraticReal true (-2 : ℝ) 4 (-2) = .ok l ∧ l.Pairwise (· ≤ ·) ∧
        (∀ x, x ∈ l ↔ -2 * x ^ 2 + 4 * x + -2 = 0) ∧ (true = true → l.length = 0 ∨ l.length = 2) ∧
        ∀ x ∈ l, l.count x = if true = true ∧ 2 * -2 * x + 4 = 0 then 2 else 1 := by
  have hlead : (-2 : ℝ) ≠ 0 := by norm_num
  exact ⟨inferInstance, hlead, quadraticReal_complete hlead 4 (-2) true⟩

end Real

section Agreement

variable [Cplx.PrincipalSqrt K]

theorem quadraticComplex_ofReal (a b c : K) (hdisc : 0 ≤ b / 2 * (b / 2) - a * c) :
    quadraticComplex (ofReal a) (ofReal b) (ofReal c) =
      (bothRoots (0 < a) a (b / 2) (sqrt (b / 2 * (b / 2) - a * c))).map ofReal := by
  have hk : ofReal b / 2 = ofReal (b / 2) := by rw [Cplx.ofReal_div, Cplx.ofReal_ofNat]
  rw [quadraticComplex_eq, hk, ← Cplx.ofReal_mul, ← Cplx.ofReal_mul, ← Cplx.ofReal_sub,
    Cplx.power_half_ofReal hdisc]
  exact bothRoots_map ofRealHom (0 < a) a (b / 2) _

/-- The two complex values are all the roots, with multiplicities. For real coefficients whose discriminant is
not negative they are the two real roots, in the same order. -/
theorem quadraticComplex_factor_agrees [BEq K] [LawfulBEq K] :
    (∀ a b c : Cplx K, a ≠ 0 → ∀ x,
      a * (x - (quadraticComplex a b c).get 0) * (x - (quadraticComplex a b c).get 1) =
        a * x ^ 2 + b * x + c) ∧
    ∀ a b c : K, a ≠ 0 → 0 ≤ b ^ 2 / 4 - a * c → ∃ r : Row 2 K,
      quadraticReal true a b c = .ok r.toList ∧
        quadraticComplex (ofReal a) (ofReal b) (ofReal c) = r.map ofReal := by
  refine ⟨fun a b c ha => ?_, fun a b c ha hdisc => ?_⟩
  · exact (vieta₂_quadraticComplex Cplx.PrincipalSqrt.power_half ha b c).factor
  · have hdisc' : 0 ≤ b / 2 * (b / 2) - a * c := by linear_combination hdisc
    exact ⟨_, quadraticReal_of_pair ha hdisc' (.inl rfl), quadraticComplex_ofReal a b c hdisc'⟩

theorem quadraticComplex_factor_agrees_descending :
    Cplx.PrincipalSqrt ℝ ∧ (⟨0, 1⟩ : Cplx ℝ) ≠ 0 ∧ (-1 : ℝ) ≠ 0 ∧ (0 : ℝ) ≤ 3 ^ 2 / 4 - -1 * -2 ∧
      (∀ x, (⟨0, 1⟩ : Cplx ℝ) * (x - (quadraticComplex ⟨0, 1⟩ ⟨1, 1⟩ ⟨2, 0⟩).get 0) *
          (x - (quadraticComplex ⟨0, 1⟩ ⟨1, 1⟩ ⟨2, 0⟩).get 1) = ⟨0, 1⟩ * x ^ 2 + ⟨1, 1⟩ * x + ⟨2, 0⟩) ∧
      ∃ r : Row 2 ℝ, quadraticReal true (-1 : ℝ) 3 (-2) = .ok r.toList ∧
        quadraticComplex (ofReal (-1)) (ofReal 3) (ofReal (-2)) = r.map ofReal := by
  have hcplx : (⟨0, 1⟩ : Cplx ℝ) ≠ 0 := fun h => one_ne_zero (congrArg Cplx.im h)
  have hlead : (-1 : ℝ) ≠ 0 := by norm_num
  have hdisc : (0 : ℝ) ≤ 3 ^ 2 / 4 - -1 * -2 := by norm_num
  obtain ⟨hfactor, hagree⟩ := quadraticComplex_factor_agrees (K := ℝ)
  exact ⟨inferInstance, hcplx, hlead, hdisc, hfactor _ ⟨1, 1⟩ ⟨2, 0⟩ hcplx, hagree (-1) 3 (-2) hlead hdisc⟩

end Agreement

end Solve

end PolyRoots
