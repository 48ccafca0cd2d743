import PolyRoots.Proofs.Scalar.Real
import PolyRoots.Proofs.Solve.Cubic
import PolyRoots.Proofs.Solve.Quadratic
import PolyRoots.Solve.Quartic

universe u

namespace PolyRoots

namespace Solve

section Formula

variable {F : Type u} [Field F]

/-- The equation is the depressed one at `x - t`, multiplied by `a`. -/
structure IsShift (a b c d e t : F) (f : Depressed F) : Prop where
  cubic : b = -(4 * a * t)
  square : c = a * (f.p + 6 * t * t)
  linear : d = a * (f.q - 2 * f.p * t - 4 * t * t * t)
  constant : e = a * (f.r - f.q * t + f.p * t * t + t * t * t * t)

variable {a b c d e t : F} {f : Depressed F}

theorem IsShift.vieta₄ (hf : IsShift a b c d e t f) {y : Row 4 F} (h : Vieta₄ 1 0 f.p f.q f.r y) :
    Vieta₄ a b c d e (y.map (· + t)) := by
  obtain ⟨h₁, h₂, h₃, h₄⟩ := h
  refine ⟨?_, ?_, ?_, ?_⟩
  · simp only [Row.get_map]
    linear_combination a * h₁ + hf.cubic
  · simp only [Row.get_map]
    linear_combination a * h₂ + 3 * a * t * h₁ - hf.square
  · simp only [Row.get_map]
    linear_combination a * h₃ + 2 * a * t * h₂ + 3 * a * t * t * h₁ + hf.linear
  · simp only [Row.get_map]
    linear_combination a * h₄ + a * t * h₃ + a * t * t * h₂ + a * t * t * t * h₁ - hf.constant

theorem IsShift.map {G : Type u} [Field G] (φ : F →+* G) (hf : IsShift a b c d e t f) :
    IsShift (φ a) (φ b) (φ c) (φ d) (φ e) (φ t) ⟨φ f.p, φ f.q, φ f.r⟩ where
  cubic := by
    rw [hf.cubic, map_neg, map_mul, map_mul, map_ofNat]
  square := by
    rw [hf.square, map_mul, map_add, map_mul, map_mul, map_ofNat]
  linear := by
    rw [hf.linear]
    simp only [map_mul, map_sub]
    rw [map_ofNat, map_ofNat]
  constant := by
    rw [hf.constant]
    simp only [map_mul, map_sub, map_add]

end Formula

open Cplx (ofReal ofReal_add ofReal_sub ofReal_neg ofReal_mul ofReal_div ofReal_ofNat)

variable {K : Type u} [Field K]

section Branches

theorem scaleReal_eq (x : K) (z : Cplx K) : scaleReal x z = ofReal x * z := by
  apply Cplx.ext
  · simp [scaleReal, Cplx.map]
  · simp [scaleReal, Cplx.map]

theorem shift_eq (x : K) (z : Cplx K) : (⟨z.re + x, z.im⟩ : Cplx K) = z + ofReal x := by
  apply Cplx.ext
  · rfl
  · exact (add_zero _).symm

theorem map_shift_scaleReal (x t : K) (r : Row 4 (Cplx K)) :
    (r.map fun z => (⟨(scaleReal x z).re + t, (scaleReal x z).im⟩ : Cplx K)) =
      (r.map (ofReal x * ·)).map (· + ofReal t) := by
  simp only [shift_eq, scaleReal_eq, Row.map_map]

theorem quotient_eq [BEq K] [LawfulBEq K] {x y : K} (hy : y ≠ 0) : quotient x y = .ok (x / y) :=
  if_neg (by rwa [beq_iff_eq])

theorem eight_mul_sq_ne_zero [CharZero K] {a : K} (ha : a ≠ 0) : 8 * (a * a) ≠ 0 :=
  mul_ne_zero (by norm_num) (mul_ne_zero ha ha)

theorem fourth_power_ne_zero [CharZero K] {a : K} (ha : a ≠ 0) : 256 * (a * a) * (a * a) ≠ 0 :=
  mul_ne_zero (mul_ne_zero (by norm_num) (mul_ne_zero ha ha)) (mul_ne_zero ha ha)

theorem depress_eq [CharZero K] [BEq K] [LawfulBEq K] {a : K} (ha : a ≠ 0) (b c d e : K) :
    depress a b c d e =
      .ok ⟨(8 * a * c - 3 * b * b) / (8 * (a * a)),
        (8 * (a * a) * d + b * b * b - 4 * a * b * c) / (8 * (a * a) * a),
        (16 * a * b * b * c - 64 * (a * a) * b * d - 3 * b * b * b * b + 256 * (a * a) * a * e) /
          (256 * (a * a) * (a * a))⟩ := by
  have h8 := eight_mul_sq_ne_zero ha
  rw [depress, quotient_eq h8, quotient_eq (mul_ne_zero h8 ha), quotient_eq (fourth_power_ne_zero ha)]
  rfl

theorem depress_spec [CharZero K] [BEq K] [LawfulBEq K] {a : K} (ha : a ≠ 0) (b c d e : K) :
    ∃ f, depress a b c d e = .ok f ∧ IsShift a b c d e (-b / (4 * a)) f := by
  refine ⟨_, depress_eq ha b c d e, ?_, ?_, ?_, ?_⟩
  · field_simp
  · field_simp
    ring
  · field_simp
    ring
  · field_simp
    ring

/-- The sign that makes `m`, the product of the three square roots, a negative multiple of `q`. -/
def resolventSign {α : Type u} [Zero α] [One α] [Neg α] [Div α] [LT α] [DecidableLT α] (q : α)
    (m : Cplx α) : α :=
  if m.re / q < 0 then 1 else -1

variable [LinearOrder K] [BEq K] [LawfulBEq K] [Elementary K] {a b c d e : K} {f : Depressed K}

theorem quarticComplex_of_q_eq_zero (ha : a ≠ 0) (hf : depress a b c d e = .ok f) (hq : f.q = 0) :
    quarticComplex a b c d e =
      .ok ((biquadraticSums ((quadraticComplex (ofReal 1) (ofReal (f.p / 2))
        (ofReal f.resolventTerm)).map (·.power (1 / 2)))).map (· + ofReal (-b / (4 * a)))) := by
  have hlead : ¬ (a == 0) = true := by rwa [beq_iff_eq]
  have hq' : (f.q == 0) = true := by rwa [beq_iff_eq]
  rw [quarticComplex, if_neg hlead, hf]
  simp only [← shift_eq]
  exact if_pos hq'

theorem quarticComplex_of_q_ne_zero (ha : a ≠ 0) (hf : depress a b c d e = .ok f) (hq : f.q ≠ 0)
    {z h : Row 3 (Cplx K)} (hz : cubicComplex 1 (f.p / 2) f.resolventTerm (-f.q * f.q / 64) = .ok z)
    (hh : z.map (·.power (1 / 2)) = h) :
    quarticComplex a b c d e =
      .ok (((resolventSums h).map
        (ofReal (resolventSign f.q (h.get 0 * h.get 1 * h.get 2)) * ·)).map
          (· + ofReal (-b / (4 * a)))) := by
  have hlead : ¬ (a == 0) = true := by rwa [beq_iff_eq]
  have hq' : ¬ (f.q == 0) = true := by rwa [beq_iff_eq]
  subst hh
  rw [quarticComplex, if_neg hlead, hf]
  refine (if_neg hq').trans ?_
  rw [hz]
  exact congrArg Except.ok (map_shift_scaleReal _ _ _)

end Branches

variable [LinearOrder K] [IsStrictOrderedRing K]

theorem vieta₄_biquadraticSums {p r : Cplx K} {h z : Row 2 (Cplx K)}
    (hz : Vieta₂ 1 (p / 2) ((p * p - 4 * r) / 16) z) (hsq : ∀ k, h.get k * h.get k = z.get k) :
    Vieta₄ 1 0 p 0 r (biquadraticSums h) := by
  obtain ⟨h₁, h₂⟩ := hz
  have g₀ : (biquadraticSums h).get 0 = -h.get 0 - h.get 1 := rfl
  have g₁ : (biquadraticSums h).get 1 = h.get 0 - h.get 1 := rfl
  have g₂ : (biquadraticSums h).get 2 = -h.get 0 + h.get 1 := rfl
  have g₃ : (biquadraticSums h).get 3 = h.get 0 + h.get 1 := rfl
  refine ⟨?_, ?_, ?_, ?_⟩
  · rw [g₀, g₁, g₂, g₃]
    ring
  · rw [g₀, g₁, g₂, g₃]
    linear_combination -2 * (hsq 0 + hsq 1) - 2 * h₁
  · rw [g₀, g₁, g₂, g₃]
    ring
  · rw [g₀, g₁, g₂, g₃]
    linear_combination
      (h.get 0 * h.get 0 + h.get 1 * h.get 1 + z.get 0 + z.get 1) * (hsq 0 + hsq 1) -
        4 * (h.get 1 * h.get 1 * hsq 0 + z.get 0 * hsq 1) + (z.get 0 + z.get 1 - p / 2) * h₁ - 4 * h₂

theorem vieta₄_resolventSums {p q r σ : Cplx K} {h z : Row 3 (Cplx K)}
    (hz : Vieta₃ 1 (p / 2) ((p * p - 4 * r) / 16) (-q * q / 64) z)
    (hsq : ∀ k, h.get k * h.get k = z.get k) (hσ : σ * σ = 1)
    (hsign : σ * (h.get 0 * h.get 1 * h.get 2) = -q / 8) :
    Vieta₄ 1 0 p q r ((resolventSums h).map (σ * ·)) := by
  obtain ⟨h₁, h₂, _⟩ := hz
  have g₀ : (resolventSums h).get 0 = h.get 0 + h.get 1 + h.get 2 := rfl
  have g₁ : (resolventSums h).get 1 = h.get 0 - h.get 1 - h.get 2 := rfl
  have g₂ : (resolventSums h).get 2 = -h.get 0 + h.get 1 - h.get 2 := rfl
  have g₃ : (resolventSums h).get 3 = -h.get 0 - h.get 1 + h.get 2 := rfl
  have hquartic :
      (h.get 0 * h.get 0 + h.get 1 * h.get 1 + h.get 2 * h.get 2) ^ 2 -
        4 * (h.get 0 * h.get 0 * (h.get 1 * h.get 1) + h.get 0 * h.get 0 * (h.get 2 * h.get 2) +
          h.get 1 * h.get 1 * (h.get 2 * h.get 2)) = r := by
    rw [hsq, hsq, hsq]
    linear_combination (z.get 0 + z.get 1 + z.get 2 - p / 2) * h₁ - 4 * h₂
  -- only the sum of the triples depends on the sign of the product of the square roots
  refine ⟨?_, ?_, ?_, ?_⟩
  · simp only [Row.get_map, g₀, g₁, g₂, g₃]
    ring
  · simp only [Row.get_map, g₀, g₁, g₂, g₃]
    linear_combination -2 * (hsq 0 + hsq 1 + hsq 2) - 2 * h₁ -
      2 * (h.get 0 * h.get 0 + h.get 1 * h.get 1 + h.get 2 * h.get 2) * hσ
  · simp only [Row.get_map, g₀, g₁, g₂, g₃]
    linear_combination 8 * σ * (h.get 0 * h.get 1 * h.get 2) * hσ + 8 * hsign
  · simp only [Row.get_map, g₀, g₁, g₂, g₃]
    linear_combination σ * σ * σ * σ * hquartic + r * (σ * σ + 1) * hσ

theorem resolventSign_spec {q : K} (hq : q ≠ 0) {m : Cplx K}
    (hm : m * m = ofReal (q / 8) * ofReal (q / 8)) :
    ofReal (resolventSign q m) * ofReal (resolventSign q m) = 1 ∧
      ofReal (resolventSign q m) * m = -ofReal (q / 8) := by
  have hone : ofReal (1 : K) = 1 := rfl
  rcases mul_self_eq_mul_self_iff.1 hm with rfl | rfl
  · have hneg : ¬ (ofReal (q / 8)).re / q < 0 := by
      rw [Cplx.ofReal_re, div_right_comm, div_self hq]
      norm_num
    rw [resolventSign, if_neg hneg, ofReal_neg, hone]
    exact ⟨by ring, by ring⟩
  · have hpos : (-ofReal (q / 8)).re / q < 0 := by
      rw [Cplx.neg_re, Cplx.ofReal_re, neg_div, div_right_comm, div_self hq]
      norm_num
    rw [resolventSign, if_pos hpos, hone]
    exact ⟨by ring, by ring⟩

theorem ofReal_half (x : K) : ofReal (x / 2) = ofReal x / 2 := by
  rw [ofReal_div, ofReal_ofNat]

theorem ofReal_resolventTerm (f : Depressed K) :
    ofReal f.resolventTerm = (ofReal f.p * ofReal f.p - 4 * ofReal f.r) / 16 := by
  rw [Depressed.resolventTerm, ofReal_div, ofReal_sub, ofReal_mul, ofReal_mul, ofReal_ofNat, ofReal_ofNat]

section Complex

variable [BEq K] [LawfulBEq K] [Elementary K] [Cplx.ExactRoots K] {a b c d e : K} {f : Depressed K}

theorem vieta₄_of_q_eq_zero (ha : a ≠ 0) (hf : depress a b c d e = .ok f) (hq : f.q = 0)
    (hs : IsShift a b c d e (-b / (4 * a)) f) :
    ∃ r, quarticComplex a b c d e = .ok r ∧
      Vieta₄ (ofReal a) (ofReal b) (ofReal c) (ofReal d) (ofReal e) r := by
  have hz : Vieta₂ 1 (ofReal f.p / 2) ((ofReal f.p * ofReal f.p - 4 * ofReal f.r) / 16)
      (quadraticComplex (ofReal 1) (ofReal (f.p / 2)) (ofReal f.resolventTerm)) := by
    rw [← ofReal_half, ← ofReal_resolventTerm]
    exact vieta₂_quadraticComplex Cplx.ExactRoots.power_half one_ne_zero _ _
  refine ⟨_, quarticComplex_of_q_eq_zero ha hf hq, (hs.map Cplx.ofRealHom).vieta₄ ?_⟩
  rw [hq, map_zero]
  refine vieta₄_biquadraticSums hz ?_
  intro k
  rw [Row.get_map]
  exact Cplx.ExactRoots.power_half _

theorem vieta₄_of_q_ne_zero (ha : a ≠ 0) (hf : depress a b c d e = .ok f) (hq : f.q ≠ 0)
    (hs : IsShift a b c d e (-b / (4 * a)) f) :
    ∃ r, quarticComplex a b c d e = .ok r ∧
      Vieta₄ (ofReal a) (ofReal b) (ofReal c) (ofReal d) (ofReal e) r := by
  obtain ⟨z, hz, hvieta⟩ :=
    cubicComplex_spec one_ne_zero (f.p / 2) f.resolventTerm (-f.q * f.q / 64)
  obtain ⟨h, hh⟩ : ∃ h, z.map (·.power (1 / 2)) = h := ⟨_, rfl⟩
  have hsq (k : Fin 3) : h.get k * h.get k = z.get k := by
    rw [← hh, Row.get_map]
    exact Cplx.ExactRoots.power_half _
  rw [ofReal_half, ofReal_resolventTerm, ofReal_div, ofReal_mul, ofReal_neg, ofReal_ofNat] at hvieta
  change Vieta₃ 1 _ _ _ z at hvieta
  have hm : h.get 0 * h.get 1 * h.get 2 * (h.get 0 * h.get 1 * h.get 2) =
      ofReal (f.q / 8) * ofReal (f.q / 8) := by
    rw [ofReal_div, ofReal_ofNat]
    linear_combination h.get 1 * h.get 1 * h.get 2 * h.get 2 * hsq 0 +
      z.get 0 * h.get 2 * h.get 2 * hsq 1 + z.get 0 * z.get 1 * hsq 2 + hvieta.product
  obtain ⟨hone, hsign⟩ := resolventSign_spec hq hm
  rw [ofReal_div, ofReal_ofNat, ← neg_div] at hsign
  exact ⟨_, quarticComplex_of_q_ne_zero ha hf hq hz hh,
    (hs.map Cplx.ofRealHom).vieta₄ (vieta₄_resolventSums hvieta hsq hone hsign)⟩

theorem quarticComplex_spec (ha : a ≠ 0) (b c d e : K) :
    ∃ r, quarticComplex a b c d e = .ok r ∧
      Vieta₄ (ofReal a) (ofReal b) (ofReal c) (ofReal d) (ofReal e) r := by
  obtain ⟨f, hf, hs⟩ := depress_spec ha b c d e
  by_cases hq : f.q = 0
  · exact vieta₄_of_q_eq_zero ha hf hq hs
  · exact vieta₄_of_q_ne_zero ha hf hq hs

/-- Every quartic equation is solved, and the four values are all its roots, with multiplicities. -/
theorem quarticComplex_factor (ha : a ≠ 0) (b c d e : K) :
    ∃ r, quarticComplex a b c d e = .ok r ∧ ∀ x : Cplx K,
      ofReal a * (x - r.get 0) * (x - r.get 1) * (x - r.get 2) * (x - r.get 3) =
        ofReal a * x ^ 4 + ofReal b * x ^ 3 + ofReal c * x ^ 2 + ofReal d * x + ofReal e := by
  obtain ⟨r, hr, hvieta⟩ := quarticComplex_spec ha b c d e
  exact ⟨r, hr, hvieta.factor⟩

theorem quarticComplex_factor_real :
    Cplx.ExactRoots ℝ ∧ (2 : ℝ) ≠ 0 ∧
      ∃ r, quarticComplex (2 : ℝ) 1 0 (-3) 5 = .ok r ∧ ∀ x : Cplx ℝ,
      ofReal 2 * (x - r.get 0) * (x - r.get 1) * (x - r.get 2) * (x - r.get 3) =
        ofReal 2 * x ^ 4 + ofReal 1 * x ^ 3 + ofReal 0 * x ^ 2 + ofReal (-3) * x + ofReal 5 :=
  ⟨inferInstance, two_ne_zero, quarticComplex_factor two_ne_zero 1 0 (-3) 5⟩

end Complex

end Solve

end PolyRoots
