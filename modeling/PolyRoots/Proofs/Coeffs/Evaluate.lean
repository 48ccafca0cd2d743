import PolyRoots.Coeffs.Evaluate
import PolyRoots.Proofs.Coeffs.Denotation
import PolyRoots.Proofs.Cplx.Ring
import PolyRoots.Proofs.Scalar.Exact

universe u v

namespace PolyRoots

namespace Coeffs

open Polynomial

variable {R : Type u} [CommRing R]

section Ordinary

variable {α : Type v} [Zero α] [One α] [Add α] [Sub α] [Mul α] [NatCast α] [BEq α] [Extended α]
  {φ : R → α}

theorem Horner.run_ordinary (h : Ordinary φ) (x : R) (i : Nat) (p : List R) :
    Horner.run (φ x) i (p.map φ) = ⟨φ ((polynomial p).eval x), none⟩ := by
  induction p generalizing i with
  | nil => simp [Horner.run, h.zero]
  | cons a p ih =>
      have hv : (if φ ((polynomial p).eval x) == 0 then φ a else φ ((polynomial p).eval x) * φ x + φ a) =
          φ ((polynomial (a :: p)).eval x) := by
        rw [polynomial_cons, eval_add, eval_C, eval_mul, eval_X]
        split
        next hz => rw [(h.beq_zero _).1 hz, mul_zero, add_zero]
        next hz => rw [← h.mul, ← h.add, mul_comm, add_comm]
      simp only [List.map_cons, Horner.run, ih, Horner.step, hv, h.isInf_eq_false]
      rfl

theorem evaluate_ordinary (h : Ordinary φ) (p : List R) (x : R) :
    evaluate (p.map φ) (φ x) = φ ((polynomial p).eval x) := by
  simp [evaluate, h.isNaN_eq_false, Horner.run_ordinary h, Horner.result]

end Ordinary

theorem evaluate_eq [BEq R] [LawfulBEq R] [Extended R] [Extended.Exact R] (p : List R) (x : R) :
    evaluate p x = (polynomial p).eval x := by
  have h := evaluate_ordinary (Ordinary.id R) p x
  rwa [List.map_id] at h

theorem evaluate_cplx_eq (z : Cplx R) (p : List R) :
    Cplx.evaluate z p = (polynomial p).eval₂ Cplx.ofRealHom z := by
  induction p with
  | nil => simp [Cplx.evaluate]; rfl
  | cons a p ih =>
      cases p with
      | nil => simp [Cplx.evaluate, Cplx.ofRealHom_apply]
      | cons b p =>
          rw [Cplx.evaluate, ih, polynomial_cons a, eval₂_add, eval₂_mul, eval₂_X, eval₂_C,
            Cplx.ofRealHom_apply, mul_comm, add_comm]
          simp

/-- Expressions in the operations that build polynomials from lists. -/
inductive Expr (α : Type u) where
  | coeffs (p : List α)
  | add (s t : Expr α)
  | sub (s t : Expr α)
  | neg (s : Expr α)
  | scale (c : α) (s : Expr α)
  | mul (s t : Expr α)
  | pow (s : Expr α) (n : Nat)
  | compose (s t : Expr α)
  | fromRoots (roots : List α)

namespace Expr

def build : Expr R → List R
  | coeffs p => p
  | add s t => Coeffs.add s.build t.build
  | sub s t => Coeffs.sub s.build t.build
  | neg s => Coeffs.neg s.build
  | scale c s => Coeffs.scale c s.build
  | mul s t => Coeffs.mul s.build t.build
  | pow s n => Coeffs.pow s.build n
  | compose s t => Coeffs.compose s.build t.build
  | fromRoots roots => Coeffs.fromRoots roots

variable {S : Type v} [CommRing S]

def value (φ : R → S) : Expr R → S → S
  | coeffs p, x => (p.mapIdx fun i a => φ a * x ^ i).sum
  | add s t, x => s.value φ x + t.value φ x
  | sub s t, x => s.value φ x - t.value φ x
  | neg s, x => -s.value φ x
  | scale c s, x => φ c * s.value φ x
  | mul s t, x => s.value φ x * t.value φ x
  | pow s n, x => s.value φ x ^ n
  | compose s t, x => s.value φ (t.value φ x)
  | fromRoots roots, x => (roots.map fun r => x - φ r).prod

theorem sum_powers (φ : R →+* S) (x : S) (p : List R) (k : Nat) :
    (p.mapIdx fun i a => φ a * x ^ (i + k)).sum = x ^ k * (polynomial p).eval₂ φ x := by
  induction p generalizing k with
  | nil => simp
  | cons a p ih =>
      have hshift (i : Nat) (b : R) : φ b * x ^ (i + 1 + k) = φ b * x ^ (i + (k + 1)) := by
        rw [Nat.add_right_comm, Nat.add_assoc]
      simp only [List.mapIdx_cons, List.sum_cons, hshift, ih, polynomial_cons, eval₂_add, eval₂_mul,
        eval₂_C, eval₂_X, Nat.zero_add]
      ring

theorem eval₂_build (φ : R →+* S) (e : Expr R) (x : S) :
    (polynomial e.build).eval₂ φ x = e.value φ x := by
  induction e generalizing x with
  | coeffs p => simpa [build, value] using (sum_powers φ x p 0).symm
  | add s t ihs iht => rw [build, polynomial_add, eval₂_add, ihs, iht, value]
  | sub s t ihs iht => rw [build, polynomial_sub, eval₂_sub, ihs, iht, value]
  | neg s ih => rw [build, polynomial_neg, eval₂_neg, ih, value]
  | scale c s ih => rw [build, polynomial_scale, eval₂_mul, eval₂_C, ih, value]
  | mul s t ihs iht => rw [build, polynomial_mul, eval₂_mul, ihs, iht, value]
  | pow s n ih => rw [build, polynomial_pow, eval₂_pow, ih, value]
  | compose s t ihs iht => rw [build, polynomial_compose, eval₂_comp, iht, ihs, value]
  | fromRoots roots =>
      rw [build, polynomial_fromRoots, value]
      induction roots with
      | nil => simp
      | cons r roots ih =>
          rw [List.map_cons, List.prod_cons, eval₂_mul, ih, List.map_cons, List.prod_cons, eval₂_sub,
            eval₂_X, eval₂_C]

end Expr

/-- Building an expression and evaluating the result, at a real or at a complex point, is evaluating
the expression at that point. -/
theorem evaluate_build [BEq R] [LawfulBEq R] [Extended R] [Extended.Exact R] (e : Expr R) :
    (∀ x : R, evaluate e.build x = e.value id x) ∧
      ∀ z : Cplx R, Cplx.evaluate z e.build = e.value Cplx.ofReal z := by
  constructor
  · intro x
    rw [evaluate_eq, ← eval₂_id]
    exact e.eval₂_build (RingHom.id R) x
  · intro z
    rw [evaluate_cplx_eq]
    exact e.eval₂_build Cplx.ofRealHom z

def nested : Expr ℤ :=
  .compose (.pow (.coeffs [1, 0, 1, 0]) 3) (.sub (.fromRoots [1, -1]) (.neg (.scale 5 (.coeffs [0, 1, 0]))))

theorem evaluate_build_nested :
    LawfulBEq ℤ ∧ Extended.Exact ℤ ∧
      (∀ x : ℤ, evaluate nested.build x = nested.value id x) ∧
      ∀ z : Cplx ℤ, Cplx.evaluate z nested.build = nested.value Cplx.ofReal z :=
  ⟨inferInstance, inferInstance, evaluate_build nested⟩

end Coeffs

end PolyRoots
