import PolyRoots.Cplx.Polar
import PolyRoots.Proofs.Cplx.Ring
import PolyRoots.Proofs.Scalar.Embedding

universe u

namespace PolyRoots

namespace Cplx

open Elementary

variable {α β : Type u} [Zero α] [One α] [Add α] [Sub α] [Neg α] [Mul α] [Div α] [NatCast α] [BEq α] [LT α]
  [Zero β] [One β] [Add β] [Sub β] [Neg β] [Mul β] [Div β] [NatCast β] [BEq β] [LT β] {φ : α → β}

section Rectangular

variable (h : Embedding φ)

include h

theorem ofReal_map (x : α) : ofReal (φ x) = (ofReal x).map φ := by
  simp only [ofReal, map, h.zero]

theorem neg_map (z : Cplx α) : -z.map φ = (-z).map φ :=
  Cplx.ext (h.neg z.re).symm (h.neg z.im).symm

theorem sub_map (z w : Cplx α) : z.map φ - w.map φ = (z - w).map φ :=
  Cplx.ext (h.sub z.re w.re).symm (h.sub z.im w.im).symm

theorem normSq_map (z : Cplx α) : (z.map φ).normSq = φ z.normSq := by
  simp only [normSq, map, h.add, h.mul]

theorem divReal_map (z : Cplx α) {x : α} (hx : (x == 0) = false) :
    (z.map φ).divReal (φ x) = (z.divReal x).map φ :=
  Cplx.ext (h.div z.re hx).symm (h.div z.im hx).symm

theorem div_map (z : Cplx α) {w : Cplx α} (hw : (w.normSq == 0) = false) :
    z.map φ / w.map φ = (z / w).map φ := by
  change divBy (z.map φ) (w.map φ) (w.map φ).normSq = (divBy z w w.normSq).map φ
  rw [normSq_map h]
  simp only [divBy, map, h.div _ hw, h.add, h.sub, h.mul]

end Rectangular

omit [Sub α] in
theorem not_normSq_lt_zero [LE α] [Signed α] (z : Cplx α) : ¬z.normSq < 0 :=
  Signed.not_sum_of_squares_lt_zero z.re z.im

section Polar

variable [LE α] [LE β] [Elementary α] [Elementary β] (h : ElementaryEmbedding φ)

include h

theorem abs_map [Signed α] (z : Cplx α) : (z.map φ).abs = φ z.abs := by
  rw [abs, abs, normSq_map h.toEmbedding, h.sqrt (not_normSq_lt_zero z)]

theorem polar_map (r a : α) : polar (φ r) (φ a) = (polar r a).map φ := by
  simp only [polar, map, h.mul, h.cos, h.sin]

theorem power_map [Signed α] (z : Cplx α) {e : α} (he : ¬e / 2 < 0) :
    (z.map φ).power (φ e) = (z.power e).map φ := by
  have hangle : (z.map φ).angle = φ z.angle := (h.atan2 z.im z.re).symm
  rw [power, power, normSq_map h.toEmbedding, hangle, ← h.div_two, ← h.mul,
    ← h.pow (not_normSq_lt_zero z) he, polar_map h]

end Polar

section Roots

variable {K : Type u} [Field K] [LinearOrder K] [IsStrictOrderedRing K] [BEq K] [LawfulBEq K] [Elementary K]
  [LE β] [Elementary β] {φ : K → β} (h : ElementaryEmbedding φ)

include h

theorem div_natCast_map {n : Nat} (hn : n ≠ 0) (x : K) : φ x / (n : β) = φ (x / n) := by
  rw [h.div x (beq_eq_false_iff_ne.2 (Nat.cast_ne_zero.2 hn)), h.natCast]

theorem axisRoots_map (r : K) (n : Nat) : axisRoots (φ r) n = (axisRoots r n).map (map φ) := by
  have hthree : sqrt (3 : β) = φ (sqrt 3) := by rw [h.sqrt Signed.not_three_lt_zero, h.three]
  match n with
  | 0 | n + 5 => rfl
  | 1 => simp only [axisRoots, axisFormulas, List.map, map, h.zero]
  | 2 => simp only [axisRoots, axisFormulas, List.map, map, h.zero, h.neg]
  | 3 => simp only [axisRoots, axisFormulas, List.map, map, hthree, h.zero, h.neg, h.div_two, h.mul]
  | 4 => simp only [axisRoots, axisFormulas, List.map, map, h.zero, h.neg]

theorem polarRoots_map (hpi : φ pi = pi) {n : Nat} (hn : n ≠ 0) (z : Cplx K) :
    polarRoots (z.map φ) n = (polarRoots z n).map (map φ) := by
  have hexp : ¬(1 / 2 / (n : K)) < 0 := not_lt.2 (by positivity)
  have hangle : (z.map φ).angle = φ z.angle := (h.atan2 z.im z.re).symm
  simp only [polarRoots, List.map_map]
  refine List.map_congr_left fun k _ => ?_
  rw [Function.comp_apply, ← polar_map h, h.pow (not_normSq_lt_zero z) hexp, normSq_map h.toEmbedding,
    ← div_natCast_map h hn, h.div_two, h.one, ← div_natCast_map h hn, h.add, h.mul, h.mul, h.two, hpi,
    h.natCast, hangle]

theorem roots_map [DecidableLT β] (hpi : φ pi = pi) {n : Nat} (hn : n ≠ 0) (z : Cplx K) :
    (z.map φ).roots n = (z.roots n).map (map φ) := by
  have hexp : ¬(1 / (n : K)) < 0 := not_lt.2 (by positivity)
  have hreal : (φ z.im == 0) = (z.im == 0) := h.beq_zero z.im
  have hpos : 0 < φ z.re ↔ 0 < z.re := h.zero_lt z.re
  rw [roots, roots]
  simp only [map, hreal, hpos]
  split
  next htest =>
    have hre : ¬z.re < 0 := by
      simp only [Bool.and_eq_true, decide_eq_true_eq] at htest
      exact htest.2.not_gt
    rw [← axisRoots_map h, h.pow hre hexp, ← div_natCast_map h hn, h.one]
  next => exact polarRoots_map h hpi hn z

end Roots

end Cplx

end PolyRoots
