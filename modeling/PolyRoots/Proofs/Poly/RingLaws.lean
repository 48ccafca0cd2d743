import Mathlib.Algebra.BigOperators.NatAntidiagonal
import PolyRoots.Proofs.Coeffs.Denotation
import PolyRoots.Proofs.Poly.Batching

universe u

namespace PolyRoots

namespace Coeffs

def convolution {R : Type u} [Zero R] [Add R] [Mul R] (p q : List R) (k : Nat) : R :=
  ((List.Nat.antidiagonal k).map fun ij => p.getD ij.1 0 * q.getD ij.2 0).sum

/-- The laws of commutative rings, where lists are told apart even if they differ in zeros at the end only.
A factor between two others must have a coefficient, as every polynomial has. -/
structure RingLaws (R : Type u) [Zero R] [One R] [Add R] [Sub R] [Mul R] : Prop where
  length_mul (p q : List R) : (mul p q).length = p.length + q.length - 1
  getD_mul (p q : List R) (k : Nat) : (mul p q).getD k 0 = convolution p q k
  mul_comm (p q : List R) : mul p q = mul q p
  mul_assoc (p r : List R) {q : List R} : q ≠ [] → mul (mul p q) r = mul p (mul q r)
  one_mul (p : List R) : mul [1] p = p
  mul_one (p : List R) : mul p [1] = p
  mul_add (p q r : List R) : mul p (add q r) = add (mul p q) (mul p r)
  add_mul (p q r : List R) : mul (add p q) r = add (mul p r) (mul q r)
  sub_add (p q : List R) : sub (add p q) q = p ++ List.replicate (q.length - p.length) 0

section Ring

open Polynomial

variable {R : Type u} [CommRing R]

theorem eq_of_polynomial {p q : List R} (hlen : p.length = q.length) (h : polynomial p = polynomial q) :
    p = q :=
  eq_of_agree ((agree_iff p q).2 h) hlen

theorem coeff_mul_polynomial (p q : List R) (k : Nat) :
    (polynomial p * polynomial q).coeff k = convolution p q k := by
  rw [coeff_mul]
  simp only [coeff_polynomial]
  exact Multiset.sum_coe _

theorem ringLaws (R : Type u) [CommRing R] : RingLaws R where
  length_mul := length_mul
  getD_mul p q k := by rw [← coeff_polynomial, polynomial_mul, coeff_mul_polynomial]
  mul_comm p q := by
    apply eq_of_polynomial
    · rw [length_mul, length_mul, Nat.add_comm]
    · rw [polynomial_mul, polynomial_mul, mul_comm]
  mul_assoc p r q hq := by
    have hpos := List.length_pos_iff.2 hq
    apply eq_of_polynomial
    · simp only [length_mul]
      omega
    · simp only [polynomial_mul, mul_assoc]
  one_mul p := by
    apply eq_of_polynomial
    · rw [length_mul, List.length_singleton, Nat.add_sub_cancel_left]
    · simp
  mul_one p := by
    apply eq_of_polynomial
    · rw [length_mul, List.length_singleton, Nat.add_sub_cancel]
    · simp
  mul_add p q r := by
    apply eq_of_polynomial
    · simp only [length_mul, length_add]
      omega
    · simp only [polynomial_mul, polynomial_add, mul_add]
  add_mul p q r := by
    apply eq_of_polynomial
    · simp only [length_mul, length_add]
      omega
    · simp only [polynomial_mul, polynomial_add, add_mul]
  sub_add p q := by
    apply eq_of_polynomial
    · simp only [length_sub, length_add, List.length_append, List.length_replicate]
      omega
    · rw [polynomial_sub, polynomial_add, add_sub_cancel_right, polynomial_append,
        polynomial_replicate_zero, mul_zero, add_zero]

end Ring

@[reducible]
def wrappingRing : CommRing Int64 where
  add_assoc := Int64.add_assoc
  zero_add := Int64.zero_add
  add_zero := Int64.add_zero
  add_comm := Int64.add_comm
  nsmul := nsmulRec
  left_distrib _ _ _ := Int64.mul_add
  right_distrib _ _ _ := Int64.add_mul
  zero_mul _ := Int64.zero_mul
  mul_zero _ := Int64.mul_zero
  mul_assoc := Int64.mul_assoc
  one_mul := Int64.one_mul
  mul_one := Int64.mul_one
  natCast_zero := rfl
  natCast_succ n := Int64.ofNat_add n 1
  sub_eq_add_neg := Int64.sub_eq_add_neg
  zsmul := zsmulRec
  neg_add_cancel := Int64.add_left_neg
  mul_comm := Int64.mul_comm

theorem ringLaws_int64 : RingLaws Int64 := @ringLaws Int64 wrappingRing

end Coeffs

namespace Poly

theorem combine_ofList {f : Format}
    {op : {f : Format} → PolyBatch f.Elem → PolyBatch f.Elem → Option (PolyBatch f.Elem)}
    {p q l : List f.Elem} (h : op (.ofList p) (.ofList q) = some (.ofList l)) :
    combine op (ofList f p) (ofList f q) = .ok (ofList f l) := by
  have hformat (g : Format) (hg : g = f) :
      (fitted (op ((ofList f p).cast g) ((ofList f q).cast g)) >>= fun b => pure (Poly.mk g b)) =
        .ok (ofList f l) := by
    subst hg
    have hcast (l : List g.Elem) : (ofList g l).cast g = .ofList l := cast_self (ofList g l)
    rw [hcast, hcast, h]
    rfl
  exact hformat _ (Format.join_self f)

variable (p q : List Int64)

theorem add_int64 : (ofList .int64 p).add (ofList .int64 q) = .ok (ofList .int64 (Coeffs.add p q)) :=
  combine_ofList ((PolyBatch.padZip?_eq_lift₂? _ _ _).trans (PolyBatch.lift₂?_ofList (Coeffs.length_padZip _) p q))

theorem sub_int64 : (ofList .int64 p).sub (ofList .int64 q) = .ok (ofList .int64 (Coeffs.sub p q)) :=
  @combine_ofList .int64 PolyBatch.sub? p q _
    ((PolyBatch.padZip?_eq_lift₂? _ _ _).trans (PolyBatch.lift₂?_ofList (Coeffs.length_padZip _) p q))

theorem mul_int64 (hp : p ≠ []) :
    (ofList .int64 p).mul (ofList .int64 q) = .ok (ofList .int64 (Coeffs.mul p q)) := by
  have hpos := List.length_pos_iff.2 hp
  have hwidth : ¬ p.length + q.length = 0 := by omega
  have hmul := (PolyBatch.mul?_eq_lift₂? _ _).trans (PolyBatch.lift₂?_ofList Coeffs.length_mul p q)
  exact (if_neg hwidth).trans (combine_ofList hmul)

/-- Over every commutative ring, coefficient lists obey the laws of commutative rings. Polynomials of
integers that wrap around are added, subtracted and multiplied as such lists, and obey them too. -/
theorem commutative_ring :
    (∀ (R : Type u) [CommRing R], Coeffs.RingLaws R) ∧ Coeffs.RingLaws Int64 ∧
      ∀ p q : List Int64, p ≠ [] →
        (ofList .int64 p).add (ofList .int64 q) = .ok (ofList .int64 (Coeffs.add p q)) ∧
          (ofList .int64 p).sub (ofList .int64 q) = .ok (ofList .int64 (Coeffs.sub p q)) ∧
          (ofList .int64 p).mul (ofList .int64 q) = .ok (ofList .int64 (Coeffs.mul p q)) :=
  ⟨Coeffs.ringLaws, Coeffs.ringLaws_int64,
    fun p q hp => ⟨add_int64 p q, sub_int64 p q, mul_int64 p q hp⟩⟩

theorem commutative_ring_wraps :
    ([4611686018427387904, 1] : List Int64) ≠ [] ∧
      (ofList .int64 [4611686018427387904, 1]).mul (ofList .int64 [4, 1]) =
        .ok (ofList .int64 [0, 4611686018427387908, 1]) := by
  have hne : ([4611686018427387904, 1] : List Int64) ≠ [] := List.cons_ne_nil _ _
  have hmul := (commutative_ring.{0}.2.2 [4611686018427387904, 1] [4, 1] hne).2.2
  have hvalue : Coeffs.mul ([4611686018427387904, 1] : List Int64) [4, 1] = [0, 4611686018427387908, 1] := by
    decide
  rw [hvalue] at hmul
  exact ⟨hne, hmul⟩

end Poly

end PolyRoots
