import PolyRoots.Proofs.Fault
import PolyRoots.Request.Run

namespace PolyRoots

variable {P : Value → Prop}

theorem Poly.evaluateValue_gives (htensor : ∀ t, P (.tensor t)) (p : Poly) (x : Value) :
    Gives (p.evaluateValue x) P :=
  .andThen fun _ => .ofForm htensor

theorem Value.apply_gives (htensor : ∀ t, P (.tensor t)) (v x : Value) : Gives (v.apply x) P := by
  unfold apply
  split
  next p _ => exact p.evaluateValue_gives htensor x
  next => exact .error _

/-- One of two values is a polynomial, and the other one is no polynomial to multiply it with, but a factor
for its coefficients. -/
inductive Value.Scales : Value → Value → Poly → Value → Prop
  | right {p : Poly} {c : Value} : (∀ q, c ≠ poly q) → Scales (poly p) c p c
  | left {p : Poly} {c : Value} : (∀ q, c ≠ poly q) → (∀ z, c ≠ complex z) → Scales c (poly p) p c

theorem Value.Scales.run_eq {v w : Value} {p : Poly} {c : Value} (h : v.Scales w p c) :
    Symbol.times.run v w = p.scaleValue c := by
  cases h with
  | right hc =>
      cases w with
      | poly q => exact absurd rfl (hc q)
      | _ => rfl
  | left hc hz =>
      cases v with
      | poly q => exact absurd rfl (hc q)
      | complex z => exact absurd rfl (hz z)
      | _ => rfl

/-- A symbol stands for an operation on complex numbers, for one on two polynomials, or for the product of a
polynomial and a factor. -/
theorem Symbol.run_gives (s : Symbol) {v w : Value}
    (hcplx : (∃ z, v = .complex z) ∨ (∃ z, w = .complex z) → Gives (run.cplx s v w) P)
    (hpoly : ∀ (fn : PolyFn₂) p q, v = .poly p → w = .poly q → Gives (fn.run p q) P)
    (hscale : s = times → ∀ p c, v.Scales w p c → Gives (p.scaleValue c) P) : Gives (s.run v w) P := by
  unfold run
  split
  next => exact hcplx (.inl ⟨_, rfl⟩)
  next p q =>
    cases s with
    | plus => exact hpoly .add p q rfl rfl
    | minus => exact hpoly .sub p q rfl rfl
    | times => exact hpoly .mul p q rfl rfl
    | floorDiv => exact hpoly .div p q rfl rfl
    | percent => exact hpoly .mod p q rfl rfl
    | slash => exact .error _
  next p hw =>
    cases s with
    | times => exact hscale rfl p w (.right hw)
    | floorDiv => exact .andThen fun _ => .error .wrongKind
    | percent => exact .andThen fun _ => .error .wrongKind
    | _ => exact .error _
  next => exact hcplx (.inr ⟨_, rfl⟩)
  next q hz hv =>
    cases s with
    | times => exact hscale rfl q v (.left hv hz)
    | _ => exact .error _
  next => exact .error _

end PolyRoots
