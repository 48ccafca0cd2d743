import PolyRoots.Proofs.Cplx.Transport
import PolyRoots.Proofs.Scalar.Guarded
import PolyRoots.Proofs.Scalar.Real
import PolyRoots.Proofs.Solve.Cubic
import PolyRoots.Proofs.Solve.Transport

universe u

namespace PolyRoots

namespace Solve

open Cplx (ofReal)
open Elementary Guarded

section Transport

variable {α β : Type u} [Zero α] [One α] [Add α] [Sub α] [Neg α] [Mul α] [Div α] [NatCast α] [BEq α] [LT α]
  [DecidableLT α] [LE α] [Elementary α] [Signed α] [Zero β] [One β] [Add β] [Sub β] [Neg β] [Mul β] [Div β]
  [NatCast β] [BEq β] [LT β] [DecidableLT β] [LE β] [Elementary β] {φ : α → β} (h : ElementaryEmbedding φ)

include h

theorem radicand_map (hhalf : ¬(1 / 2 / 2 : α) < 0) (u s : α) :
    radicand (φ u) (φ s) = (radicand u s).map φ := by
  have hfour : φ 4 = 4 := h.natCast 4
  have hexp : φ (1 / 2) = 1 / 2 := by rw [h.div_two, h.one]
  have hroot : (ofReal (φ s * φ s + 4 * φ u * φ u * φ u)).power (1 / 2) =
      ((ofReal (s * s + 4 * u * u * u)).power (1 / 2)).map φ := by
    rw [← hexp, ← Cplx.power_map h _ hhalf, ← Cplx.ofReal_map h.toEmbedding]
    simp only [h.add, h.mul, hfour]
  have htwo (z : Cplx α) : (z.map φ).divReal 2 = (z.divReal 2).map φ := by
    rw [← h.two, Cplx.divReal_map h.toEmbedding z Signed.two_beq_zero]
  simp only [radicand, hroot, Cplx.neg_map h.toEmbedding, htwo, ← h.div_two, Cplx.ofReal_map h.toEmbedding,
    Cplx.sub_map h.toEmbedding, Cplx.abs_map h, h.lt, apply_ite (Cplx.map φ)]

omit [DecidableLT α] [DecidableLT β] in
theorem tripleRoot_map {a : α} (ha : (a == 0) = false) (b : α) :
    tripleRoot (φ a) (φ b) = (tripleRoot a b).map (Cplx.map φ) := by
  have hx : ofReal (-φ b / (3 * φ a)) = (ofReal (-b / (3 * a))).map φ := by
    rw [← h.neg, ← h.div_three_mul ha, Cplx.ofReal_map h.toEmbedding]
  rw [tripleRoot, hx]
  rfl

theorem cardano_map {a : α} (ha : (a == 0) = false) (b u : α) {z : Cplx α}
    (hroots : (z.map φ).roots 3 = (z.roots 3).map (Cplx.map φ))
    (hdiv : ∀ w ∈ z.roots 3, (w.normSq == 0) = false) :
    cardano (φ a) (φ b) (φ u) (z.map φ) = (cardano a b u z).map (Cplx.map φ) := by
  have hroot (w : Cplx α) (hw : w ∈ z.roots 3) :
      (w.map φ - ofReal (φ u) / w.map φ - ofReal (φ b)).divReal (3 * φ a) =
        ((w - ofReal u / w - ofReal b).divReal (3 * a)).map φ := by
    rw [← h.three, ← h.mul, Cplx.ofReal_map h.toEmbedding, Cplx.ofReal_map h.toEmbedding,
      Cplx.div_map h.toEmbedding _ (hdiv w hw), Cplx.sub_map h.toEmbedding, Cplx.sub_map h.toEmbedding,
      Cplx.divReal_map h.toEmbedding _ (Signed.three_mul_beq_zero ha)]
  apply Subtype.ext
  change ((z.map φ).roots 3).map _ = ((z.roots 3).map _).map _
  rw [hroots, List.map_map, List.map_map]
  exact List.map_congr_left hroot

end Transport

variable {K : Type u} [Field K] [LinearOrder K] [IsStrictOrderedRing K] [BEq K] [LawfulBEq K] [Elementary K]
  [Cplx.ExactRoots K] {a b c d u s : K}

omit [LawfulBEq K] in
theorem ne_zero_of_mem_roots {z w : Cplx K} (hz : z ≠ 0) (hw : w ∈ z.roots 3) : w ≠ 0 := by
  rintro rfl
  have hcube := (Cplx.ExactRoots.roots_three hz).2 0 hw
  rw [mul_zero] at hcube
  exact hz hcube.symm

theorem cubicComplex_map {β : Type u} [Zero β] [One β] [Add β] [Sub β] [Neg β] [Mul β] [Div β] [NatCast β]
    [BEq β] [LT β] [DecidableLT β] [LE β] [Elementary β] {φ : K → β} (h : ElementaryEmbedding φ) (hpi : φ pi = pi)
    (ha : a ≠ 0) (b c d : K) :
    cubicComplex (φ a) (φ b) (φ c) (φ d) = (cubicComplex a b c d).map (Row.map (Cplx.map φ)) := by
  have hlead : (a == 0) = false := beq_eq_false_iff_ne.2 ha
  have hhalf : ¬(1 / 2 / 2 : K) < 0 := not_lt.2 (by positivity)
  rw [cubicComplex_eq hlead rfl rfl, cubicComplex_eq ((h.beq_zero a).trans hlead) rfl rfl,
    linearTerm_map h.toEmbedding, constantTerm_map h.toEmbedding, radicand_map h hhalf, Cplx.abs_map h,
    h.beq_zero]
  generalize radicand (3 * a * c - b * b) _ = z
  split
  next => rw [tripleRoot_map h hlead]; rfl
  next hz =>
    rw [beq_iff_eq, Cplx.abs_eq_zero] at hz
    rw [cardano_map h hlead b _ (Cplx.roots_map h hpi three_ne_zero z)]
    · rfl
    · intro w hw
      exact beq_eq_false_iff_ne.2 (mt Cplx.normSq_eq_zero.1 (ne_zero_of_mem_roots hz hw))

/-- Every cubic equation is solved, and the three values are all its roots, with multiplicities. Scalars that
refuse quotients by zero give the same values. If `u` and `s` vanish, there is one triple root; if not, cube
roots are taken of a number that is not zero, and none of them is zero. -/
theorem cubicComplex_factor (ha : a ≠ 0) (b c d : K) (hu : u = 3 * a * c - b * b)
    (hs : s = 2 * b * b * b - 9 * a * b * c + 27 * a * a * d) :
    ∃ r, cubicComplex a b c d = .ok r ∧
      (∀ x : Cplx K, ofReal a * (x - r.get 0) * (x - r.get 1) * (x - r.get 2) =
        ofReal a * x ^ 3 + ofReal b * x ^ 2 + ofReal c * x + ofReal d) ∧
      cubicComplex (value a) (value b) (value c) (value d) = .ok (r.map (Cplx.map value)) ∧
      (u = 0 ∧ s = 0 → r = tripleRoot a b) ∧
      (¬(u = 0 ∧ s = 0) → radicand u s ≠ 0 ∧ (∀ w ∈ (radicand u s).roots 3, w ≠ 0) ∧
        r = cardano a b u (radicand u s)) := by
  obtain ⟨r, hr, hvieta⟩ := cubicComplex_spec ha b c d
  have hguarded := cubicComplex_map elementaryEmbedding_value rfl ha b c d
  rw [hr] at hguarded
  refine ⟨r, hr, hvieta.factor, hguarded, fun hzero => ?_, fun hne => ?_⟩
  · have htriple := cubicComplex_of_zero ha hu hs (radicand_eq_zero_iff.2 hzero)
    exact Except.ok.inj (hr.symm.trans htriple)
  · have hz : radicand u s ≠ 0 := mt radicand_eq_zero_iff.1 hne
    have hcardano := cubicComplex_of_ne_zero ha hu hs hz
    exact ⟨hz, fun w => ne_zero_of_mem_roots hz, Except.ok.inj (hr.symm.trans hcardano)⟩

theorem cubicComplex_factor_unity :
    Cplx.ExactRoots ℝ ∧ (1 : ℝ) ≠ 0 ∧ (0 : ℝ) = 3 * 1 * 0 - 0 * 0 ∧
      (-27 : ℝ) = 2 * 0 * 0 * 0 - 9 * 1 * 0 * 0 + 27 * 1 * 1 * -1 ∧ ¬((0 : ℝ) = 0 ∧ (-27 : ℝ) = 0) ∧
      ∃ r, cubicComplex (1 : ℝ) 0 0 (-1) = .ok r ∧
        (∀ x : Cplx ℝ, ofReal 1 * (x - r.get 0) * (x - r.get 1) * (x - r.get 2) =
          ofReal 1 * x ^ 3 + ofReal 0 * x ^ 2 + ofReal 0 * x + ofReal (-1)) ∧
        cubicComplex (value (1 : ℝ)) (value 0) (value 0) (value (-1)) = .ok (r.map (Cplx.map value)) ∧
        radicand (0 : ℝ) (-27) ≠ 0 ∧ r = cardano 1 0 0 (radicand 0 (-27)) := by
  have hu : (0 : ℝ) = 3 * 1 * 0 - 0 * 0 := by norm_num
  have hs : (-27 : ℝ) = 2 * 0 * 0 * 0 - 9 * 1 * 0 * 0 + 27 * 1 * 1 * -1 := by norm_num
  have hne : ¬((0 : ℝ) = 0 ∧ (-27 : ℝ) = 0) := by norm_num
  obtain ⟨r, hr, hfactor, hguarded, _, hcardano⟩ := cubicComplex_factor one_ne_zero 0 0 (-1) hu hs
  obtain ⟨hz, _, hroots⟩ := hcardano hne
  exact ⟨inferInstance, one_ne_zero, hu, hs, hne, r, hr, hfactor, hguarded, hz, hroots⟩

end Solve

end PolyRoots
