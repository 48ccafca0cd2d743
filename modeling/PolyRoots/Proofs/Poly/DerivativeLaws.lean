import PolyRoots.Proofs.Coeffs.Calculus
import PolyRoots.Proofs.Poly.Composition

universe u v w

namespace PolyRoots

namespace Coeffs

/-- The rules of differentiation. A derivative keeps at least one coefficient, so the sides of the last two rules may
differ in zeros at the end. -/
structure DerivativeLaws (R : Type u) [Zero R] [One R] [Add R] [Sub R] [Mul R] [NatCast R] : Prop where
  derivative_add (k : Nat) (p q : List R) :
    derivative k (add p q) = add (derivative k p) (derivative k q)
  derivative_mul (p q : List R) : ∃ m n,
    derivative 1 (mul p q) ++ List.replicate m 0 =
      add (mul (derivative 1 p) q) (mul p (derivative 1 q)) ++ List.replicate n 0
  derivative_compose (p u : List R) : ∃ m n,
    derivative 1 (compose p u) ++ List.replicate m 0 =
      mul (compose (derivative 1 p) u) (derivative 1 u) ++ List.replicate n 0

theorem derivativeLength_mono (k : Nat) : Monotone (derivativeLength k) := by
  intro w w' hw
  unfold derivativeLength
  split_ifs <;> omega

theorem derivativeLength_add (m n w : Nat) :
    derivativeLength n (derivativeLength m w) = derivativeLength (m + n) w := by
  unfold derivativeLength
  split_ifs <;> omega

section Ring

variable {R : Type u} [CommRing R]

theorem derivative_add_eq (k : Nat) (p q : List R) :
    derivative k (add p q) = add (derivative k p) (derivative k q) := by
  apply eq_of_polynomial
  · rw [length_derivative, length_add, length_add, length_derivative, length_derivative]
    exact (derivativeLength_mono k).map_max
  · rw [polynomial_derivative, polynomial_add, polynomial_add, polynomial_derivative, polynomial_derivative,
      iterate_map_add]

theorem derivative_mul_agree (p q : List R) :
    Agree (derivative 1 (mul p q)) (add (mul (derivative 1 p) q) (mul p (derivative 1 q))) := by
  rw [agree_iff]
  simp only [polynomial_derivative, polynomial_mul, polynomial_add, Function.iterate_one,
    Polynomial.derivative_mul]

theorem derivative_compose_agree (p u : List R) :
    Agree (derivative 1 (compose p u)) (mul (compose (derivative 1 p) u) (derivative 1 u)) := by
  rw [agree_iff]
  simp only [polynomial_derivative, polynomial_mul, polynomial_compose, Function.iterate_one,
    Polynomial.derivative_comp]
  exact mul_comm _ _

theorem derivativeLaws (R : Type u) [CommRing R] : DerivativeLaws R where
  derivative_add := derivative_add_eq
  derivative_mul := derivative_mul_agree
  derivative_compose := derivative_compose_agree

theorem derivative_derivative_eq (m n : Nat) (p : List R) :
    derivative n (derivative m p) = derivative (m + n) p := by
  apply eq_of_polynomial
  · simp only [length_derivative, derivativeLength_add]
  · rw [polynomial_derivative, polynomial_derivative, polynomial_derivative, Nat.add_comm,
      Function.iterate_add_apply]

end Ring

theorem derivativeLaws_int64 : DerivativeLaws Int64 := @derivativeLaws Int64 wrappingRing

end Coeffs

namespace PolyBatch

variable {α : Type u} {β : Type v} {γ : Type w}

theorem lift_lift {g g' h : Nat → Nat} {f : List α → List β} {f' : List β → List γ} {k : List α → List γ}
    {hf : ∀ l, (f l).length = g l.length} {hf' : ∀ l, (f' l).length = g' l.length}
    {hk : ∀ l, (k l).length = h l.length} (hg : ∀ n, g' (g n) = h n) (hff' : ∀ l, f' (f l) = k l)
    (p : PolyBatch α) : (p.lift f hf).lift f' hf' = p.lift k hk := by
  refine ext_rows (hg p.width) fun i => ?_
  calc
    ((p.lift f hf).lift f' hf').row i = f' ((p.lift f hf).row i) := row_lift hf' _ i
    _ = f' (f (p.row i)) := congrArg f' (row_lift hf p i)
    _ = (p.lift k hk).row i := (hff' _).trans (row_lift hk p i).symm

theorem derivative_derivative [CommRing α] (m n : Nat) (p : PolyBatch α) :
    (p.derivative m).derivative n = p.derivative (m + n) := by
  rw [derivative_eq_lift, derivative_eq_lift, derivative_eq_lift]
  exact lift_lift (Coeffs.derivativeLength_add m n) (Coeffs.derivative_derivative_eq m n) p

end PolyBatch

namespace Poly

theorem derivative_of_ne_flag {f : Format} (hf : f ≠ .flag) (b : PolyBatch f.Elem) (k : Nat) :
    derivative k ⟨f, b⟩ = .ok ⟨f, b.derivative k⟩ := by
  rw [derivative_eq, if_neg (Int.not_lt.2 (Int.natCast_nonneg k)), if_neg fun h => hf h.2]
  rfl

theorem derivative_batch_int64 (b : PolyBatch Int64) (k : Nat) :
    derivative k ⟨.int64, b⟩ = .ok ⟨.int64, b.derivative k⟩ :=
  derivative_of_ne_flag (f := .int64) (by decide) b k

theorem derivative_int64 (p : List Int64) (k : Nat) :
    (ofList .int64 p).derivative k = .ok (ofList .int64 (Coeffs.derivative k p)) := by
  refine (derivative_batch_int64 (.ofList p) k).trans ?_
  have hlist := (PolyBatch.derivative_eq_lift k (.ofList p)).trans (PolyBatch.lift_ofList (Coeffs.length_derivative k) p)
  exact congrArg (fun b => Except.ok (Poly.mk .int64 b)) hlist

/-- Over every commutative ring, derivatives of coefficient lists follow the rules for sums, products and compositions.
Polynomials of integers that wrap around are computed with as such lists, and follow them too. -/
theorem differentiation_rules :
    (∀ (R : Type u) [CommRing R], Coeffs.DerivativeLaws R) ∧ Coeffs.DerivativeLaws Int64 ∧
      ∀ p q : List Int64, p ≠ [] → q ≠ [] →
        (ofList .int64 p).derivative (1 : Nat) = .ok (ofList .int64 (Coeffs.derivative 1 p)) ∧
          (ofList .int64 p).add (ofList .int64 q) = .ok (ofList .int64 (Coeffs.add p q)) ∧
          (ofList .int64 p).mul (ofList .int64 q) = .ok (ofList .int64 (Coeffs.mul p q)) ∧
          (ofList .int64 p).compose (ofList .int64 q) = .ok (ofList .int64 (Coeffs.compose p q)) :=
  ⟨Coeffs.derivativeLaws, Coeffs.derivativeLaws_int64, fun p q hp hq =>
    ⟨derivative_int64 p 1, add_int64 p q, mul_int64 p q hp, compose_int64 hp hq⟩⟩

theorem differentiation_rules_wraps :
    ([7, 0, 4611686018427387904] : List Int64) ≠ [] ∧ ([4, 1] : List Int64) ≠ [] ∧
      (ofList .int64 [7, 0, 4611686018427387904]).mul (ofList .int64 [4, 1]) =
        .ok (ofList .int64 [28, 7, 0, 4611686018427387904]) ∧
      (ofList .int64 [28, 7, 0, 4611686018427387904]).derivative (1 : Nat) =
        .ok (ofList .int64 [7, 0, -4611686018427387904]) := by
  have hp : ([7, 0, 4611686018427387904] : List Int64) ≠ [] := List.cons_ne_nil _ _
  have hq : ([4, 1] : List Int64) ≠ [] := List.cons_ne_nil _ _
  have hr : ([28, 7, 0, 4611686018427387904] : List Int64) ≠ [] := List.cons_ne_nil _ _
  have hmul := (differentiation_rules.{0}.2.2 _ _ hp hq).2.2.1
  have hderivative := (differentiation_rules.{0}.2.2 _ _ hr hq).1
  have hproduct : Coeffs.mul ([7, 0, 4611686018427387904] : List Int64) [4, 1] =
      [28, 7, 0, 4611686018427387904] := by
    decide
  have hvalue : Coeffs.derivative 1 ([28, 7, 0, 4611686018427387904] : List Int64) =
      [7, 0, -4611686018427387904] := by
    decide
  rw [hproduct] at hmul
  rw [hvalue] at hderivative
  exact ⟨hp, hq, hmul, hderivative⟩

theorem derivative_derivative_int64 (p : PolyBatch Int64) (m n : Nat) :
    (p.derivative m).derivative n = p.derivative (m + n) :=
  @PolyBatch.derivative_derivative Int64 Coeffs.wrappingRing m n p

/-- Over every commutative ring, derivatives of two orders compose to the derivative of the total order, for batches of
any shape and lists of any length. So do those of polynomials of integers that wrap around, which always exist. -/
theorem derivative_orders_compose :
    (∀ (R : Type u) [CommRing R] (p : PolyBatch R) (m n : Nat),
      (p.derivative m).derivative n = p.derivative (m + n)) ∧
    ∀ (p : PolyBatch Int64) (m n : Nat),
      derivative m ⟨.int64, p⟩ = .ok ⟨.int64, p.derivative m⟩ ∧
        (p.derivative m).derivative n = p.derivative (m + n) ∧
        (derivative m ⟨.int64, p⟩ >>= derivative n) = derivative (m + n : Nat) ⟨.int64, p⟩ := by
  refine ⟨fun R _ p m n => PolyBatch.derivative_derivative m n p, fun p m n => ?_⟩
  have hcompose := derivative_derivative_int64 p m n
  refine ⟨derivative_batch_int64 p m, hcompose, ?_⟩
  calc
    (derivative m ⟨.int64, p⟩ >>= derivative n)
      = derivative n ⟨.int64, p.derivative m⟩ := by rw [derivative_batch_int64 p m]; rfl
    _ = .ok ⟨.int64, p.derivative (m + n)⟩ := by rw [derivative_batch_int64, hcompose]
    _ = derivative (m + n : Nat) ⟨.int64, p⟩ := (derivative_batch_int64 p (m + n)).symm

/-- The third derivative of `1 + 2 ^ 62 x⁴` in one step or in two: `24 * 2 ^ 62` wraps around to zero. -/
example : (Coeffs.derivative 2 (Coeffs.derivative 1 [1, 0, 0, 0, 4611686018427387904]) : List Int64) = [0, 0] := by
  decide

example :
    let lines : Poly := ⟨.int64, 2, [2], .ofFn [2] fun i => if i.1 = 0 then ⟨[1, 2], rfl⟩ else ⟨[3, 4], rfl⟩⟩
    let zeros : Poly := ⟨.int64, 1, .fill [2] ⟨[0], rfl⟩⟩
    (lines.derivative 1 >>= derivative 3) = .ok zeros ∧ lines.derivative 4 = .ok zeros :=
  ⟨rfl, rfl⟩

end Poly

end PolyRoots
