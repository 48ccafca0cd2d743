import PolyRoots.Proofs.Coeffs.Interpolation
import PolyRoots.Proofs.Poly.DerivativeLaws

universe u v w

namespace PolyRoots

namespace Coeffs

/-- The laws between derivatives, antiderivatives and integrals. An antiderivative has one coefficient more than the
polynomial, which is why the derivative of a constant is recovered up to a zero only. -/
structure IntegrationLaws (K : Type u) [Field K] [BEq K] [Extended K] : Prop where
  derivative_antiderivative (c : K) {p : List K} : p ≠ [] → derivative 1 (antiderivative c p) = p
  antiderivative_derivative (a : K) (p : List K) : Agree (antiderivative a (derivative 1 (a :: p))) (a :: p)
  integral_eq (p : List K) (c a b : K) :
    integral (· ^ ·) id p a b = evaluate (antiderivative c p) b - evaluate (antiderivative c p) a
  integral_add (p : List K) (a b m : K) :
    integral (· ^ ·) id p a b + integral (· ^ ·) id p b m = integral (· ^ ·) id p a m
  integral_derivative (p : List K) (a b : K) :
    integral (· ^ ·) id (derivative 1 p) a b = evaluate p b - evaluate p a

section Field

variable {K : Type u} [Field K]

theorem getD_antiderivative (c : K) (p : List K) (i : Nat) :
    (antiderivative c p).getD (i + 1) 0 = p.getD i 0 / ((i + 1 : Nat) : K) := by
  rw [antiderivative, List.getD_cons_succ]
  rcases Nat.lt_or_ge i p.length with hi | hi
  · rw [List.getD_eq_getElem _ _ (by rwa [List.length_mapIdx]), List.getElem_mapIdx, List.getD_eq_getElem _ _ hi]
  · rw [List.getD_eq_default _ _ (by rwa [List.length_mapIdx]), List.getD_eq_default _ _ hi, zero_div]

theorem antiderivative_concat (c : K) (p : List K) (e : K) :
    antiderivative c (p ++ [e]) = antiderivative c p ++ [e / ((p.length + 1 : Nat) : K)] := by
  rw [antiderivative, List.mapIdx_concat, antiderivative, List.cons_append]

theorem integral_concat (p : List K) (e a b : K) :
    integral (· ^ ·) id (p ++ [e]) a b = integral (· ^ ·) id p a b +
      e * (b ^ (p.length + 1) - a ^ (p.length + 1)) / ((p.length + 1 : Nat) : K) := by
  rw [integral, List.mapIdx_concat, List.foldl_concat, integral]
  rfl

theorem integral_eq_eval_sub (p : List K) (c a b : K) : integral (· ^ ·) id p a b =
    (polynomial (antiderivative c p)).eval b - (polynomial (antiderivative c p)).eval a := by
  induction p using List.reverseRecOn with
  | nil => simp [integral, antiderivative]
  | append_singleton p e ih =>
      rw [integral_concat, ih, antiderivative_concat, polynomial_append, length_antiderivative]
      simp only [polynomial_cons, polynomial_nil, Polynomial.eval_add, Polynomial.eval_mul, Polynomial.eval_pow,
        Polynomial.eval_X, Polynomial.eval_C, Polynomial.eval_zero]
      ring

theorem integral_add_eq (p : List K) (a b m : K) :
    integral (· ^ ·) id p a b + integral (· ^ ·) id p b m = integral (· ^ ·) id p a m := by
  rw [integral_eq_eval_sub p 0 a b, integral_eq_eval_sub p 0 b m, integral_eq_eval_sub p 0 a m]
  ring

variable [CharZero K]

theorem derivative_antiderivative_eq (c : K) {p : List K} (hp : p ≠ []) :
    derivative 1 (antiderivative c p) = p := by
  have hpos := List.length_pos_iff.2 hp
  apply eq_of_polynomial
  · rw [length_derivative_one (by rw [length_antiderivative]; omega), length_antiderivative, Nat.add_sub_cancel]
  · ext i
    rw [coeff_polynomial, getD_derivative, getD_antiderivative, Nat.descFactorial_one, coeff_polynomial,
      div_mul_cancel₀ _ (Nat.cast_ne_zero.2 i.succ_ne_zero)]

theorem antiderivative_derivative_agree (a : K) (p : List K) :
    Agree (antiderivative a (derivative 1 (a :: p))) (a :: p) := by
  rw [agree_iff]
  ext i
  rw [coeff_polynomial, coeff_polynomial]
  cases i with
  | zero => rfl
  | succ i =>
      rw [getD_antiderivative, getD_derivative, Nat.descFactorial_one,
        mul_div_cancel_right₀ _ (Nat.cast_ne_zero.2 i.succ_ne_zero)]

theorem integral_derivative_eq (p : List K) (a b : K) :
    integral (· ^ ·) id (derivative 1 p) a b = (polynomial p).eval b - (polynomial p).eval a := by
  cases p with
  | nil => simp [integral, derivative]
  | cons c p => rw [integral_eq_eval_sub _ c, (agree_iff _ _).1 (antiderivative_derivative_agree c p)]

theorem integrationLaws (K : Type u) [Field K] [CharZero K] [BEq K] [LawfulBEq K] [Extended K]
    [Extended.Exact K] : IntegrationLaws K where
  derivative_antiderivative := derivative_antiderivative_eq
  antiderivative_derivative := antiderivative_derivative_agree
  integral_eq p c a b := by rw [evaluate_eq, evaluate_eq, integral_eq_eval_sub p c]
  integral_add := integral_add_eq
  integral_derivative p a b := by rw [evaluate_eq, evaluate_eq, integral_derivative_eq]

end Field

end Coeffs

namespace PolyBatch

section Scalar

variable {α : Type u} {β : Type v}

def constantTerms [Zero α] (p : PolyBatch α) : Batch α := p.rows.map fun r => r.toList.headD 0

/-- Constants that can be repeated to the shape of the batch make an antiderivative of each polynomial. -/
theorem antiderivative?_of_fits [Div α] [NatCast α] (p : PolyBatch α) {c : Batch α} (h : c.shape.Fits p.shape) :
    ∃ g : Grid p.shape (Row (p.width + 1) α), p.antiderivative? c = some ⟨p.width + 1, p.shape, g⟩ ∧
      ∀ i, (g.get i).toList = Coeffs.antiderivative (c.get (i.project h)) (p.row i) := by
  have hexpand : c.expand? p.shape = some (.expand h c.cells) := dif_pos h
  refine ⟨_, (p.antiderivative?_eq c).trans (congrArg (Option.map _) hexpand), fun i => ?_⟩
  refine (congrArg Row.toList (Grid.get_ofFn _ i)).trans ?_
  exact congrArg (Coeffs.antiderivative · (p.row i)) (Grid.get_expand h c.cells i)

theorem integral?_single {β : Type u} [Sub α] [Mul α] [Zero β] [Add β] [Div β] [NatCast β] (raise : α → Nat → α)
    (conv : α → β) (p : PolyBatch α) (a b : α) :
    p.integral? raise conv (.single a) (.single b) =
      some (p.rows.map fun r => Coeffs.integral raise conv r.toList a b) := by
  have hbounds : Batch.zipWith? Prod.mk (.single a) (.single b) = some (.single (a, b)) :=
    Batch.zipWith?_single Prod.mk (.single a) b
  rw [integral?_eq, Batch.zipWith₃?, hbounds, Option.bind_some, Batch.zipWith?_single]

theorem evaluate_single [Zero α] [Add α] [Mul α] [BEq α] [Extended α] (p : PolyBatch α) (x : α) :
    p.evaluate (.single x) = p.rows.map fun r => Coeffs.evaluate r.toList x :=
  congrArg (Batch.mk p.shape) (Grid.ext fun i => (p.get_evaluate (.single x) i).trans
    (Grid.get_map (fun r : Row p.width α => Coeffs.evaluate r.toList x) p.rows.cells i).symm)

theorem map_rows_lift {γ : Type w} {g : Nat → Nat} {f : List α → List β} (hf : ∀ l, (f l).length = g l.length)
    (p : PolyBatch α) (k : List β → γ) :
    (p.lift f hf).rows.map (fun r => k r.toList) = p.rows.map fun r => k (f r.toList) := by
  refine congrArg (Batch.mk p.shape) (Grid.ext fun i => ?_)
  calc
    _ = k ((p.lift f hf).row i) := Grid.get_map _ _ i
    _ = k (f (p.row i)) := congrArg k (row_lift hf p i)
    _ = _ := (Grid.get_map (fun r : Row p.width α => k (f r.toList)) p.rows.cells i).symm

end Scalar

section Field

variable {K : Type u}

/-- The laws between derivatives, antiderivatives and integrals for batches. Every polynomial may have a constant of
integration of its own. At bounds with axes, too, each integral is that of one polynomial between two bounds. -/
structure IntegrationLaws (K : Type u) [Field K] [BEq K] [Extended K] : Prop where
  antiderivative {p : PolyBatch K} {c : Batch K} : 0 < p.width → c.shape.Fits p.shape →
    ∃ F, p.antiderivative? c = some F ∧ F.derivative 1 = p ∧ ∀ a b : K,
      p.integral? (· ^ ·) id (.single a) (.single b) =
        Batch.zipWith? (· - ·) (F.evaluate (.single b)) (F.evaluate (.single a))
  antiderivative_derivative {p : PolyBatch K} : 0 < p.width →
    ∃ w, ∃ g : Grid p.shape (Row w K), (p.derivative 1).antiderivative? p.constantTerms = some ⟨w, p.shape, g⟩ ∧
      ∀ i, Coeffs.Agree (g.get i).toList (p.row i)
  integral_add (p : PolyBatch K) (a b m : K) : ∃ r s,
    p.integral? (· ^ ·) id (.single a) (.single b) = some r ∧
      p.integral? (· ^ ·) id (.single b) (.single m) = some s ∧
      p.integral? (· ^ ·) id (.single a) (.single m) = Batch.zipWith? (· + ·) r s
  integral_derivative (p : PolyBatch K) (a b : K) :
    (p.derivative 1).integral? (· ^ ·) id (.single a) (.single b) =
      Batch.zipWith? (· - ·) (p.evaluate (.single b)) (p.evaluate (.single a))
  integral_elementwise (p : PolyBatch K) (a b : Batch K) {u : Shape}
      (h : Shape.join₃ p.shape a.shape b.shape = some u) :
    Batch.Elementwise id u (p.integral? (· ^ ·) id a b) fun i =>
      (p.select (i.project (Shape.join₃_fits h).1)).integral? (· ^ ·) id
        (a.select (i.project (Shape.join₃_fits h).2.1)) (b.select (i.project (Shape.join₃_fits h).2.2))

variable [Field K]

theorem integral?_add (p : PolyBatch K) (a b m : K) : ∃ r s,
    p.integral? (· ^ ·) id (.single a) (.single b) = some r ∧
      p.integral? (· ^ ·) id (.single b) (.single m) = some s ∧
      p.integral? (· ^ ·) id (.single a) (.single m) = Batch.zipWith? (· + ·) r s := by
  refine ⟨_, _, integral?_single _ _ p a b, integral?_single _ _ p b m, ?_⟩
  rw [integral?_single]
  refine Eq.symm ((Batch.zipWith?_map_self _ _ _ p.rows).trans ?_)
  exact congrArg (fun f => some (p.rows.map f)) (funext fun r => Coeffs.integral_add_eq r.toList a b m)

theorem antiderivative?_derivative [CharZero K] {p : PolyBatch K} (hw : 0 < p.width) :
    ∃ w, ∃ g : Grid p.shape (Row w K), (p.derivative 1).antiderivative? p.constantTerms = some ⟨w, p.shape, g⟩ ∧
      ∀ i, Coeffs.Agree (g.get i).toList (p.row i) := by
  rw [derivative_eq_lift]
  have hc : p.constantTerms.shape.Fits p.shape := Shape.fits_refl p.shape
  obtain ⟨g, hg, hrow⟩ := (p.lift _ (Coeffs.length_derivative 1)).antiderivative?_of_fits hc
  refine ⟨_, g, hg, fun i => ?_⟩
  have hconstant : p.constantTerms.get (Index.project hc i) = (p.row i).headD 0 :=
    (Batch.get_map _ p.rows _).trans (congrArg (fun i => (p.row i).headD 0) (Index.project_self _ i))
  have hderivative := row_lift (Coeffs.length_derivative 1) p i
  obtain ⟨a, l, hal⟩ := List.exists_cons_of_length_pos (hw.trans_eq (p.length_row i).symm)
  rw [hal] at hconstant hderivative ⊢
  have hi : (g.get i).toList = Coeffs.antiderivative a (Coeffs.derivative 1 (a :: l)) :=
    (hrow i).trans (congrArg₂ Coeffs.antiderivative hconstant hderivative)
  exact (congrArg (Coeffs.Agree · (a :: l)) hi).mpr (Coeffs.antiderivative_derivative_agree a l)

theorem zipWith?_evaluate [BEq K] [Extended K] (F : PolyBatch K) (a b : K) :
    Batch.zipWith? (· - ·) (F.evaluate (.single b)) (F.evaluate (.single a)) =
      some (F.rows.map fun r => Coeffs.evaluate r.toList b - Coeffs.evaluate r.toList a) := by
  rw [evaluate_single, evaluate_single, Batch.zipWith?_map_self]

variable [CharZero K] [BEq K] [LawfulBEq K] [Extended K] [Extended.Exact K]

theorem antiderivative?_spec {p : PolyBatch K} {c : Batch K} (hw : 0 < p.width) (hc : c.shape.Fits p.shape) :
    ∃ F, p.antiderivative? c = some F ∧ F.derivative 1 = p ∧ ∀ a b : K,
      p.integral? (· ^ ·) id (.single a) (.single b) =
        Batch.zipWith? (· - ·) (F.evaluate (.single b)) (F.evaluate (.single a)) := by
  obtain ⟨g, hg, hrow⟩ := p.antiderivative?_of_fits hc
  refine ⟨⟨p.width + 1, p.shape, g⟩, hg, ?_, fun a b => ?_⟩
  · have hwidth : Coeffs.derivativeLength 1 (p.width + 1) = p.width := by
      rw [Coeffs.derivativeLength, if_neg one_ne_zero, if_neg (by omega), Nat.add_sub_cancel]
    rw [derivative_eq_lift]
    refine ext_rows hwidth fun i => (row_lift (Coeffs.length_derivative 1) ⟨p.width + 1, p.shape, g⟩ i).trans ?_
    have hne : p.row i ≠ [] := List.length_pos_iff.1 (hw.trans_eq (p.length_row i).symm)
    exact (congrArg (Coeffs.derivative 1) (hrow i)).trans (Coeffs.derivative_antiderivative_eq _ hne)
  · rw [integral?_single, zipWith?_evaluate]
    refine congrArg (fun x => some (Batch.mk p.shape x)) (Grid.ext fun i => ?_)
    rw [Grid.get_map, Grid.get_map, hrow]
    exact (Coeffs.integrationLaws K).integral_eq (p.row i) _ a b

theorem integral?_derivative (p : PolyBatch K) (a b : K) :
    (p.derivative 1).integral? (· ^ ·) id (.single a) (.single b) =
      Batch.zipWith? (· - ·) (p.evaluate (.single b)) (p.evaluate (.single a)) := by
  rw [derivative_eq_lift, integral?_single, zipWith?_evaluate]
  refine congrArg some ((map_rows_lift _ p fun l => Coeffs.integral (· ^ ·) id l a b).trans ?_)
  exact congrArg p.rows.map (funext fun r => (Coeffs.integrationLaws K).integral_derivative r.toList a b)

theorem integrationLaws (K : Type u) [Field K] [CharZero K] [BEq K] [LawfulBEq K] [Extended K]
    [Extended.Exact K] : IntegrationLaws K where
  antiderivative := antiderivative?_spec
  antiderivative_derivative := antiderivative?_derivative
  integral_add := integral?_add
  integral_derivative := integral?_derivative
  integral_elementwise p a b _ h := by
    simp only [integral?_eq]
    exact Batch.zipWith₃?_elementwise _ p.rows a b h

/-- Over every field of characteristic zero, integrals are differences of values of antiderivatives, which are undone by
derivatives, for single polynomials and for batches of them. -/
theorem fundamental_theorem (K : Type u) [Field K] [CharZero K] [BEq K] [LawfulBEq K] [Extended K]
    [Extended.Exact K] : Coeffs.IntegrationLaws K ∧ IntegrationLaws K :=
  ⟨Coeffs.integrationLaws K, integrationLaws K⟩

theorem fundamental_theorem_rational :
    CharZero ℚ ∧ LawfulBEq ℚ ∧ Extended.Exact ℚ ∧
      Coeffs.derivative 1 (Coeffs.antiderivative 5 [1, 0, 3]) = ([1, 0, 3] : List ℚ) ∧
      Coeffs.integral (· ^ ·) id [1, 0, 3] 0 (2 : ℚ) = 10 := by
  obtain ⟨hlaws, -⟩ := fundamental_theorem ℚ
  refine ⟨inferInstance, inferInstance, inferInstance, hlaws.derivative_antiderivative 5 (List.cons_ne_nil _ _), ?_⟩
  rw [hlaws.integral_eq [1, 0, 3] 5]
  decide +kernel

end Field

end PolyBatch

end PolyRoots
