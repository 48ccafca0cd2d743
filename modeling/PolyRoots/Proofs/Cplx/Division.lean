import PolyRoots.Proofs.Cplx.Ring
import PolyRoots.Request.Run

universe u

namespace PolyRoots

namespace Cplx

inductive Factor (α : Type u) where
  | real (x : α)
  | complex (z : Cplx α)

namespace Factor

section Operations

variable {α : Type u} [Zero α]

def toCplx : Factor α → Cplx α
  | real x => ofReal x
  | complex z => z

def times [Add α] [Sub α] [Mul α] (v w : Factor α) : Cplx α := v.toCplx * w.toCplx

def dividedBy [Add α] [Sub α] [Mul α] [Div α] (v : Factor α) : Factor α → Cplx α
  | real x => v.toCplx.divReal x
  | complex w => v.toCplx / w

end Operations

section Run

variable {v w : Factor Float} {a b : Value}

/-- The values that hold one number of 64 bits, or one complex number of such parts. -/
inductive Held : Value → Factor Float → Prop
  | float (x : Float) : Held (.float x) (.real x)
  | tensor (x : Float) : Held (.tensor ⟨.real .double, .single x⟩) (.real x)
  | complex (z : Cplx Float) : Held (.complex ⟨.double, .single z⟩) (.complex z)

theorem Held.asComplex (h : Held a v) : a.asComplex = .ok ⟨.double, .single v.toCplx⟩ := by
  cases h <;> rfl

theorem Held.run_mul (ha : Held a v) (hb : Held b w) :
    CplxFn₂.mul.run a b = .ok (.complex ⟨.double, .single (v.times w)⟩) := by
  rw [CplxFn₂.run, ha.asComplex, hb.asComplex]
  rfl

theorem Held.run_div (ha : Held a v) (hb : Held b w) :
    CplxFn₂.div.run a b = .ok (.complex ⟨.double, .single (v.dividedBy w)⟩) := by
  rw [CplxFn₂.run, ha.asComplex]
  cases hb <;> rfl

/-- Next to a complex operand the operators are these functions, on whichever side it stands. -/
theorem Held.run_operators (ha : Held a v) (hb : Held b w) (z : Cplx Float)
    (h : v = Factor.complex z ∨ w = Factor.complex z) :
    Symbol.times.run a b = CplxFn₂.mul.run a b ∧ Symbol.slash.run a b = CplxFn₂.div.run a b := by
  rcases h with rfl | rfl
  · cases ha
    exact ⟨rfl, rfl⟩
  · cases hb
    cases ha <;> exact ⟨rfl, rfl⟩

end Run

section Field

variable {K : Type u} [Field K] [LinearOrder K] [IsStrictOrderedRing K]

theorem dividedBy_eq (v w : Factor K) : v.dividedBy w = v.toCplx / w.toCplx := by
  cases w with
  | real x => exact divReal_eq _ x
  | complex w => rfl

theorem normSq_eq_zero_iff (z : Cplx K) : z.normSq = 0 ↔ z.re = 0 ∧ z.im = 0 := by
  rw [normSq_eq_zero, Cplx.ext_iff]
  rfl

/-- The squared magnitude, by which a quotient is divided, is zero for no operand but zero. So a product
divided by one of its factors is the other, and a quotient times its divisor is the dividend. Squared
magnitudes multiply, and it does not matter whether a real operand is promoted first, on either side. -/
theorem quotient_inverts_product (v w : Factor K) :
    (w.toCplx.normSq = 0 ↔ w.toCplx.re = 0 ∧ w.toCplx.im = 0) ∧
      (w.toCplx.normSq ≠ 0 → (complex (v.times w)).dividedBy w = v.toCplx ∧
        (complex (v.dividedBy w)).times w = v.toCplx) ∧
      (v.times w).normSq = v.toCplx.normSq * w.toCplx.normSq ∧
      (∀ x : K, x ≠ 0 → v.dividedBy (real x) = v.dividedBy (complex (ofReal x))) ∧
      ∀ x : K, (real x).dividedBy w = (complex (ofReal x)).dividedBy w := by
  refine ⟨normSq_eq_zero_iff _, ?_, normSq_mul _ _, ?_, ?_⟩
  · intro hw
    have hw' : w.toCplx ≠ 0 := mt normSq_eq_zero.2 hw
    constructor
    · rw [dividedBy_eq]
      exact mul_div_cancel_right₀ v.toCplx hw'
    · rw [times, dividedBy_eq]
      exact div_mul_cancel₀ v.toCplx hw'
  · intro x _
    rw [dividedBy_eq, dividedBy_eq]
    rfl
  · intro x
    rw [dividedBy_eq, dividedBy_eq]
    rfl

theorem quotient_inverts_product_gaussian :
    (Factor.complex (⟨2, 1⟩ : Cplx ℚ)).toCplx.normSq ≠ 0 ∧
      (complex ((complex (⟨5, 5⟩ : Cplx ℚ)).times (complex ⟨2, 1⟩))).dividedBy (complex ⟨2, 1⟩) = ⟨5, 5⟩ ∧
      (complex ((complex (⟨5, 5⟩ : Cplx ℚ)).dividedBy (complex ⟨2, 1⟩))).times (complex ⟨2, 1⟩) = ⟨5, 5⟩ ∧
      (complex (⟨5, 5⟩ : Cplx ℚ)).dividedBy (real 3) =
        (complex (⟨5, 5⟩ : Cplx ℚ)).dividedBy (complex (ofReal 3)) := by
  have hw : (Factor.complex (⟨2, 1⟩ : Cplx ℚ)).toCplx.normSq ≠ 0 := by decide +kernel
  obtain ⟨_, hinv, _, hreal, _⟩ :=
    quotient_inverts_product (complex (⟨5, 5⟩ : Cplx ℚ)) (complex ⟨2, 1⟩)
  exact ⟨hw, (hinv hw).1, (hinv hw).2, hreal 3 (by decide)⟩

end Field

end Factor

end Cplx

end PolyRoots
