import PolyRoots.Proofs.Poly.RingLaws
import PolyRoots.Proofs.Scalar.Conversion

universe u

namespace PolyRoots

namespace Coeffs

open Polynomial

section Ring

variable {R : Type u} [CommRing R]

theorem forall_mem_iff_getD {P : R → Prop} (hP : P 0) (l : List R) :
    (∀ d ∈ l, P d) ↔ ∀ k, P (l.getD k 0) := by
  constructor
  · intro h k
    rcases Nat.lt_or_ge k l.length with hk | hk
    · rw [List.getD_eq_getElem _ _ hk]
      exact h _ (List.getElem_mem hk)
    · rwa [List.getD_eq_default _ _ hk]
  · intro h d hd
    obtain ⟨k, hk, rfl⟩ := List.getElem_of_mem hd
    rw [← List.getD_eq_getElem l 0 hk]
    exact h k

theorem getD_sub (p q : List R) (k : Nat) : (sub p q).getD k 0 = p.getD k 0 - q.getD k 0 :=
  getD_padZip _ (sub_zero 0) p q k

def SameDouble (p q : List R) : Prop := ∀ k, p.getD k 0 + p.getD k 0 = q.getD k 0 + q.getD k 0

theorem sameDouble_iff (p q : List R) :
    SameDouble p q ↔ polynomial p + polynomial p = polynomial q + polynomial q := by
  simp only [SameDouble, Polynomial.ext_iff, coeff_add, coeff_polynomial]

theorem sameDouble_equivalence : Equivalence (SameDouble (R := R)) where
  refl _ _ := rfl
  symm h k := (h k).symm
  trans h h' k := (h k).trans (h' k)

variable {p p' q q' : List R}

theorem SameDouble.add (hp : SameDouble p p') (hq : SameDouble q q') :
    SameDouble (Coeffs.add p q) (Coeffs.add p' q') := by
  rw [sameDouble_iff] at *
  rw [polynomial_add, polynomial_add]
  linear_combination hp + hq

theorem SameDouble.mul (hp : SameDouble p p') (hq : SameDouble q q') :
    SameDouble (Coeffs.mul p q) (Coeffs.mul p' q') := by
  rw [sameDouble_iff] at *
  rw [polynomial_mul, polynomial_mul]
  linear_combination polynomial q * hp + polynomial p' * hq

theorem SameDouble.neg (hp : SameDouble p p') : SameDouble (Coeffs.neg p) (Coeffs.neg p') := by
  rw [sameDouble_iff] at *
  rw [polynomial_neg, polynomial_neg]
  linear_combination -hp

end Ring

end Coeffs

namespace Poly

variable {p p' q q' : List Int64}

theorem add_self_eq_zero_iff (d : Int64) : d + d = 0 ↔ d = 0 ∨ d = Int64.minValue := by
  have hzero : d = 0 ↔ d.toBitVec.toNat = 0 := by
    rw [← Int64.toBitVec_inj, ← BitVec.toNat_inj]
    rfl
  have hmin : d = Int64.minValue ↔ d.toBitVec.toNat = 2 ^ 63 := by
    rw [← Int64.toBitVec_inj, ← BitVec.toNat_inj]
    rfl
  have hsum : d + d = 0 ↔ (d.toBitVec.toNat + d.toBitVec.toNat) % 2 ^ 64 = 0 := by
    rw [← Int64.toBitVec_inj, ← BitVec.toNat_inj, Int64.toBitVec_add, BitVec.toNat_add]
    rfl
  have hlt := d.toBitVec.isLt
  rw [hzero, hmin, hsum]
  omega

theorem equal_int64 (p q : List Int64) :
    (ofList .int64 p).equal 0 (ofList .int64 q) =
      .ok (.single ((Coeffs.sub p q).all (Format.int64.within 0))) := by
  have hcast (l : List Int64) : (ofList .int64 l).cast .int64 = .ofList l := cast_self (ofList .int64 l)
  have hagree : PolyBatch.agree? (Format.int64.within 0) (.ofList p) (.ofList q) =
      some (.single ((Coeffs.sub p q).all (Format.int64.within 0))) :=
    PolyBatch.agree?_eq _ _ _
  rw [← hcast p, ← hcast q] at hagree
  exact congrArg (fun b => fitted b >>= searched 1) hagree

def Same (p q : List Int64) : Prop :=
  (ofList .int64 p).equal 0 (ofList .int64 q) = .ok (.single true)

theorem same_iff_all (p q : List Int64) :
    Same p q ↔ ∀ d ∈ Coeffs.sub p q, d = 0 ∨ d = Int64.minValue := by
  have hwithin (d : Int64) : Format.int64.within 0 d = true ↔ d = 0 ∨ d = Int64.minValue := by
    rw [Format.within_int64, Bool.or_eq_true, beq_iff_eq, beq_iff_eq]
  simp only [Same, equal_int64, ← hwithin, ← List.all_eq_true]
  constructor
  · intro h
    injection h with h
    injection h
  · intro h
    rw [h]

theorem same_iff (p q : List Int64) :
    Same p q ↔ ∀ k, p.getD k 0 = q.getD k 0 ∨ p.getD k 0 - q.getD k 0 = Int64.minValue := by
  let := Coeffs.wrappingRing
  rw [same_iff_all, Coeffs.forall_mem_iff_getD (.inl rfl)]
  refine forall_congr' fun k => ?_
  rw [Coeffs.getD_sub, sub_eq_zero]

theorem same_iff_sameDouble (p q : List Int64) :
    Same p q ↔ @Coeffs.SameDouble Int64 Coeffs.wrappingRing p q := by
  let := Coeffs.wrappingRing
  rw [same_iff]
  refine forall_congr' fun k => ?_
  rw [← sub_eq_zero, ← add_self_eq_zero_iff, ← add_sub_add_comm, sub_eq_zero]

theorem neg_int64 (p : List Int64) : (ofList .int64 p).neg = .ok (ofList .int64 (Coeffs.neg p)) :=
  congrArg (fun b => Except.ok (Poly.mk .int64 b)) (PolyBatch.lift_ofList (g := id) Coeffs.length_neg p)

/-- An operation whose result stays the same polynomial if its operands do. -/
def Respectful (op : Poly → Poly → Except Fault Poly) : Prop :=
  ∀ p p' q q' : List Int64, p ≠ [] → p' ≠ [] → Same p p' → Same q q' →
    ∃ r r', op (ofList .int64 p) (ofList .int64 q) = .ok (ofList .int64 r) ∧
      op (ofList .int64 p') (ofList .int64 q') = .ok (ofList .int64 r') ∧ Same r r'

/-- Equality within the tolerance zero always has an answer. It identifies more than equal coefficients, as
two that differ in the highest bit pass too, and still is an equivalence that the ring operations
respect. -/
theorem same_congruence (p q : List Int64) :
    (∃ b, (ofList .int64 p).equal 0 (ofList .int64 q) = .ok (.single b)) ∧
      (Same p q ↔ ∀ k, p.getD k 0 = q.getD k 0 ∨ p.getD k 0 - q.getD k 0 = Int64.minValue) ∧
      Equivalence Same ∧ Respectful add ∧ Respectful mul ∧ Respectful fun p _ => p.neg := by
  let := Coeffs.wrappingRing
  have hequiv : Equivalence Same := by
    rw [show Same = Coeffs.SameDouble from funext₂ fun p q => propext (same_iff_sameDouble p q)]
    exact Coeffs.sameDouble_equivalence
  refine ⟨⟨_, equal_int64 p q⟩, same_iff p q, hequiv, ?_, ?_, ?_⟩
  · intro p p' q q' _ _ hp hq
    rw [same_iff_sameDouble] at hp hq
    exact ⟨_, _, add_int64 p q, add_int64 p' q', (same_iff_sameDouble _ _).2 (hp.add hq)⟩
  · intro p p' q q' hne hne' hp hq
    rw [same_iff_sameDouble] at hp hq
    exact ⟨_, _, mul_int64 p q hne, mul_int64 p' q' hne', (same_iff_sameDouble _ _).2 (hp.mul hq)⟩
  · intro p p' q q' _ _ hp _
    rw [same_iff_sameDouble] at hp
    exact ⟨_, _, neg_int64 p, neg_int64 p', (same_iff_sameDouble _ _).2 hp.neg⟩

theorem same_minValue_zero :
    Same [Int64.minValue] [0] ∧ ([Int64.minValue] : List Int64).getD 0 0 ≠ ([0] : List Int64).getD 0 0 :=
  ⟨rfl, by decide⟩

end Poly

end PolyRoots
