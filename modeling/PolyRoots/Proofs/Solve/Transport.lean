import Mathlib.Tactic.SplitIfs
import PolyRoots.Proofs.Cplx.Transport
import PolyRoots.Proofs.Scalar.Embedding
import PolyRoots.Solve.Quartic

universe u

namespace PolyRoots

namespace Solve

open Elementary

variable {α β : Type u} [Zero α] [One α] [Add α] [Sub α] [Neg α] [Mul α] [Div α] [NatCast α] [BEq α] [LT α]
  [Zero β] [One β] [Add β] [Sub β] [Neg β] [Mul β] [Div β] [NatCast β] [BEq β] [LT β] {φ : α → β}

section Depress

def Depressed.map (φ : α → β) (f : Depressed α) : Depressed β := ⟨φ f.p, φ f.q, φ f.r⟩

variable (h : Embedding φ)

include h

theorem quotient_map (x y : α) : quotient (φ x) (φ y) = (quotient x y).map φ := by
  rw [quotient, quotient, h.beq_zero]
  cases hy : y == 0 with
  | true => rfl
  | false =>
      rw [← h.div x hy]
      rfl

theorem depress_map (a b c d e : α) :
    depress (φ a) (φ b) (φ c) (φ d) (φ e) = (depress a b c d e).map (Depressed.map φ) := by
  have h4 : φ 4 = 4 := h.natCast 4
  have h8 : φ 8 = 8 := h.natCast 8
  have h16 : φ 16 = 16 := h.natCast 16
  have h64 : φ 64 = 64 := h.natCast 64
  have h256 : φ 256 = 256 := h.natCast 256
  simp only [depress, ← h.three, ← h4, ← h8, ← h16, ← h64, ← h256, ← h.mul, ← h.add, ← h.sub, quotient_map h]
  generalize quotient (8 * a * c - 3 * b * b) _ = p
  generalize quotient (8 * (a * a) * d + b * b * b - 4 * a * b * c) _ = q
  generalize quotient _ (256 * (a * a) * (a * a)) = r
  cases p <;> cases q <;> cases r <;> rfl

end Depress

section Cubic

variable (h : Embedding φ)

include h

theorem linearTerm_map (a b c : α) : 3 * φ a * φ c - φ b * φ b = φ (3 * a * c - b * b) := by
  simp only [h.sub, h.mul, h.three]

theorem constantTerm_map (a b c d : α) : 2 * φ b * φ b * φ b - 9 * φ a * φ b * φ c + 27 * φ a * φ a * φ d =
    φ (2 * b * b * b - 9 * a * b * c + 27 * a * a * d) := by
  have hnine : φ 9 = 9 := h.natCast 9
  have hlast : φ 27 = 27 := h.natCast 27
  simp only [h.add, h.sub, h.mul, h.two, hnine, hlast]

end Cubic

section RealForms

variable [DecidableLT α] [LE α] [Elementary α] [DecidableLT β] [LE β] [Elementary β] (h : ElementaryEmbedding φ)
  [Signed α]

include h

theorem quadraticReal_map (multiple : Bool) {a : α} (ha : (a == 0) = false) (b c : α) :
    quadraticReal multiple (φ a) (φ b) (φ c) = (quadraticReal multiple a b c).map (List.map φ) := by
  have hlead : ¬ (φ a == 0) = true := by rwa [h.beq_zero, Bool.not_eq_true]
  rw [quadraticReal, quadraticReal, if_neg (Bool.eq_false_iff.1 ha), if_neg hlead]
  simp only [← h.div_two, ← h.mul, ← h.sub, ← h.neg, h.lt_zero, h.bne_zero, h.zero_lt]
  -- the root is taken after the test only, so its image is known only there
  by_cases hdisc : b / 2 * (b / 2) - a * c < 0
  · rw [if_pos hdisc, if_pos hdisc]
    rfl
  · simp only [if_neg hdisc, ← h.sqrt hdisc, ← h.sub, ← h.add, ← h.div _ ha]
    split_ifs <;> rfl

omit [DecidableLT α] [DecidableLT β] in
theorem power_third_map (z : Cplx α) : (z.map φ).power (1 / 3) = (z.power (1 / 3)).map φ := by
  rw [← h.third]
  exact Cplx.power_map h z Signed.not_half_third_lt_zero

theorem cubicThree_map {a disc : α} (ha : (a == 0) = false) (hdisc : disc < 0) (b s : α) :
    cubicThree (φ a) (φ b) (φ s) (φ disc) = (cubicThree a b s disc).map φ := by
  have hw : Cplx.power ⟨-φ s / 2, sqrt (-φ disc) / 2⟩ (1 / 3) =
      (Cplx.power ⟨-s / 2, sqrt (-disc) / 2⟩ (1 / 3)).map φ := by
    rw [← h.neg, ← h.neg, ← h.sqrt (Signed.not_neg_lt_zero_of_lt hdisc), ← h.div_two, ← h.div_two]
    exact power_third_map h ⟨-s / 2, sqrt (-disc) / 2⟩
  have hthree : φ (sqrt 3) = sqrt 3 := by rw [h.sqrt Signed.not_three_lt_zero, h.three]
  rw [cubicThree, hw, cubicThree]
  generalize Cplx.power ⟨-s / 2, sqrt (-disc) / 2⟩ (1 / 3) = w
  simp only [Cplx.map, ← hthree, ← h.two, ← h.neg, ← h.mul, ← h.add, ← h.sub, ← h.div_three_mul ha, h.lt_zero]
  split_ifs <;> rfl

omit [DecidableLT α] [DecidableLT β] in
theorem cbrt_map [DecidableLE α] [DecidableLE β] (t : α) : cbrt (φ t) = φ (cbrt t) := by
  have hthird : ¬(1 / 3 : α) < 0 := Signed.not_third_lt_zero
  have hle : 0 ≤ φ t ↔ 0 ≤ t := by rw [← h.zero, h.le]
  simp only [cbrt, hle, ← h.third, ← h.neg]
  by_cases ht : 0 ≤ t
  · rw [if_pos ht, if_pos ht, ← h.pow (Signed.not_lt_zero_of_le ht) hthird]
  · rw [if_neg ht, if_neg ht, ← h.pow (Signed.not_neg_lt_zero_of_not_le ht) hthird, ← h.neg]

theorem cubicRepeated_map (multiple : Bool) {a : α} (ha : (a == 0) = false) (b u s t : α) :
    cubicRepeated multiple (φ a) (φ b) (φ u) (φ s) (φ t) = (cubicRepeated multiple a b u s t).map φ := by
  have hnine : φ 9 = 9 := h.natCast 9
  simp only [cubicRepeated, ← hnine, ← h.two, ← h.neg, ← h.mul, ← h.sub, ← h.div_three_mul ha, h.beq, h.zero_lt]
  split_ifs <;> rfl

theorem cubicReal_map [DecidableLE α] [DecidableLE β] (multiple : Bool) {a : α} (ha : (a == 0) = false)
    (b c d : α) :
    cubicReal multiple (φ a) (φ b) (φ c) (φ d) = (cubicReal multiple a b c d).map (List.map φ) := by
  have hlead : ¬ (φ a == 0) = true := by rwa [h.beq_zero, Bool.not_eq_true]
  rw [cubicReal, cubicReal, if_neg (Bool.eq_false_iff.1 ha), if_neg hlead, linearTerm_map h.toEmbedding,
    constantTerm_map h.toEmbedding]
  generalize 3 * a * c - b * b = u
  generalize 2 * b * b * b - 9 * a * b * c + 27 * a * a * d = s
  have hdisc : 4 * φ u * φ u * φ u + φ s * φ s = φ (4 * u * u * u + s * s) := by
    have hfour : φ 4 = 4 := h.natCast 4
    simp only [h.add, h.mul, hfour]
  simp only [hdisc, h.lt_zero, h.bne_zero]
  by_cases hlt : 4 * u * u * u + s * s < 0
  · rw [if_pos hlt, if_pos hlt, cubicThree_map h ha hlt]
    rfl
  · simp only [if_neg hlt, ← h.sqrt hlt, ← h.neg, ← h.sub, ← h.div_two, cbrt_map h, ← h.add,
      ← h.div_three_mul ha, cubicRepeated_map h multiple ha]
    split_ifs <;> rfl

end RealForms

end Solve

end PolyRoots
