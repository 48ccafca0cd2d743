import Mathlib.Algebra.Polynomial.Roots
import Mathlib.RingTheory.SimpleRing.Principal
import PolyRoots.Proofs.Coeffs.Denotation
import PolyRoots.Proofs.Scalar.Embedding
import PolyRoots.Proofs.Scalar.Exact
import PolyRoots.Proofs.Solve.Quartic

universe u

namespace PolyRoots

namespace Row

variable {α : Type u}

theorem toList_eq_four (r : Row 4 α) : r.toList = [r.get 0, r.get 1, r.get 2, r.get 3] := by
  obtain ⟨l, hl⟩ := r
  match l, hl with
  | [_, _, _, _], _ => rfl

end Row

namespace Solve

open Coeffs (polynomial)
open Cplx (ofReal ofRealHom)

section Multiplicity

open Polynomial

variable {F : Type u} [Field F] {a b c d e : F}

theorem roots_of_vieta₄ (ha : a ≠ 0) {r : Row 4 F} (h : Vieta₄ a b c d e r) :
    (polynomial [e, d, c, b, a]).roots = r.toList := by
  have hfactor : polynomial [e, d, c, b, a] =
      C a * ((r.toList : Multiset F).map fun t => X - C t).prod := by
    have hsum := congrArg C h.sum
    have hpairs := congrArg C h.pairs
    have htriples := congrArg C h.triples
    have hproduct := congrArg C h.product
    simp only [C_mul, C_add, C_neg] at hsum hpairs htriples hproduct
    simp only [Coeffs.polynomial_cons, Coeffs.polynomial_nil, Row.toList_eq_four, Multiset.map_coe,
      List.map_cons, List.map_nil, Multiset.prod_coe, List.prod_cons, List.prod_nil]
    linear_combination X ^ 3 * hsum - X ^ 2 * hpairs + X * htriples - hproduct
  rw [hfactor, roots_C_mul _ ha, roots_multiset_prod_X_sub_C]

end Multiplicity

section Order

variable {K : Type u} [LinearOrder K] [Extended K] [Extended.Exact K]

theorem ascending_iff (x y : K) : ascending x y = true ↔ x ≤ y := by
  simp [ascending, Extended.Exact.isNaN_eq_false]

theorem pairwise_mergeSort_ascending (l : List K) : (l.mergeSort ascending).Pairwise (· ≤ ·) := by
  refine (List.pairwise_mergeSort ?_ ?_ l).imp (ascending_iff _ _).1
  · intro x y z hxy hyz
    rw [ascending_iff] at hxy hyz ⊢
    exact hxy.trans hyz
  · intro x y
    rw [Bool.or_eq_true, ascending_iff, ascending_iff]
    exact le_total x y

end Order

variable {K : Type u} [Field K] [LinearOrder K] [IsStrictOrderedRing K] [BEq K] [LawfulBEq K] [Elementary K]
  [Cplx.ExactRoots K] [Extended K] {a tol : K}

noncomputable def nearReal (tol : K) (p : List K) : Multiset (Cplx K) :=
  (polynomial (p.map ofReal)).roots.filter fun z => |z.im| < tol

theorem quarticReal_spec (tol : K) (ha : a ≠ 0) (b c d e : K) :
    ∃ l : List K, quarticReal tol a b c d e = .ok (l.mergeSort ascending) ∧
      (l : Multiset K) = (nearReal tol [e, d, c, b, a]).map Cplx.re := by
  obtain ⟨r, hr, hvieta⟩ := quarticComplex_spec ha b c d e
  have hroots : (polynomial ([e, d, c, b, a].map ofReal)).roots = r.toList :=
    roots_of_vieta₄ (Cplx.ofReal_ne_zero ha) hvieta
  refine ⟨(r.toList.filter fun z => decide (magnitude z.im < tol)).map (·.re), ?_, ?_⟩
  · rw [quarticReal, hr]
    rfl
  · simp only [nearReal, hroots, Multiset.filter_coe, Multiset.map_coe, magnitude_eq_abs]

omit [BEq K] [LawfulBEq K] [Elementary K] [Cplx.ExactRoots K] [Extended K] in
theorem roots_le_nearReal (htol : 0 < tol) (p : List K) :
    (polynomial p).roots ≤ (nearReal tol p).map Cplx.re := by
  have hcomplex : (polynomial p).roots.map ofRealHom ≤ (polynomial (p.map ofReal)).roots := by
    have hle := Polynomial.map_roots_le_of_injective (polynomial p) (ofRealHom (R := K)).injective
    rwa [← Coeffs.polynomial_map] at hle
  have hnear : (polynomial p).roots.map ofRealHom ≤ nearReal tol p := by
    refine Multiset.le_filter.2 ⟨hcomplex, ?_⟩
    intro z hz
    obtain ⟨x, _, rfl⟩ := Multiset.mem_map.1 hz
    rwa [Cplx.ofRealHom_apply, Cplx.ofReal_im, abs_zero]
  calc (polynomial p).roots = ((polynomial p).roots.map ofRealHom).map Cplx.re := by
        rw [Multiset.map_map]
        exact (Multiset.map_id _).symm
    _ ≤ (nearReal tol p).map Cplx.re := Multiset.map_le_map hnear

/-- The list is in ascending order. It holds every real root at least as often as its multiplicity, and consists
of the real parts of the complex roots near the real axis, each as often as its multiplicity. -/
theorem quarticReal_complete [Extended.Exact K] (ha : a ≠ 0) (htol : 0 < tol) (b c d e : K) :
    ∃ l, quarticReal tol a b c d e = .ok l ∧ l.Pairwise (· ≤ ·) ∧
      (polynomial [e, d, c, b, a]).roots ≤ (l : Multiset K) ∧
      (l : Multiset K) = (nearReal tol [e, d, c, b, a]).map Cplx.re := by
  obtain ⟨l, hl, hnear⟩ := quarticReal_spec tol ha b c d e
  have hsorted : (l.mergeSort ascending : Multiset K) = (nearReal tol [e, d, c, b, a]).map Cplx.re :=
    (Multiset.coe_eq_coe.2 (List.mergeSort_perm l ascending)).trans hnear
  refine ⟨l.mergeSort ascending, hl, pairwise_mergeSort_ascending l, ?_, hsorted⟩
  rw [hsorted]
  exact roots_le_nearReal htol _

theorem quarticReal_complete_double :
    Cplx.ExactRoots ℝ ∧ Extended.Exact ℝ ∧ (1 : ℝ) ≠ 0 ∧ (0 : ℝ) < 1 / 1000 ∧
      ∃ l, quarticReal (1 / 1000 : ℝ) 1 0 (-2) 0 1 = .ok l ∧ l.Pairwise (· ≤ ·) ∧
        (polynomial [(1 : ℝ), 0, -2, 0, 1]).roots ≤ (l : Multiset ℝ) ∧
        (l : Multiset ℝ) = (nearReal (1 / 1000) [(1 : ℝ), 0, -2, 0, 1]).map Cplx.re := by
  have htol : (0 : ℝ) < 1 / 1000 := by norm_num
  exact ⟨inferInstance, inferInstance, one_ne_zero, htol, quarticReal_complete one_ne_zero htol 0 (-2) 0 1⟩

end Solve

end PolyRoots
