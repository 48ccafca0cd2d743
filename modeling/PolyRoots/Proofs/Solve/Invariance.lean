import PolyRoots.Proofs.Coeffs.Calculus
import PolyRoots.Proofs.Coeffs.Trailing
import PolyRoots.Proofs.Scalar.Rescaling
import PolyRoots.Proofs.Solve.RealRoots
import PolyRoots.Proofs.Solve.Scale

universe u

namespace PolyRoots

namespace Coeffs

section Horner

variable {α : Type u} [Zero α] [Add α] [Neg α] [Mul α] [Div α] [BEq α] [LT α] [DecidableLT α] [Extended α]
  {g : α → α}

def Horner.map (g : α → α) (h : Horner α) : Horner α := ⟨g h.value, h.fixed.map g⟩

theorem Horner.step_map (hg : Rescaling g) (x : α) (i : Nat) (a : α) (h : Horner α) :
    Horner.step x i (g a) (h.map g) = (Horner.step x i a h).map g := by
  have hvalue : (if g h.value == 0 then g a else g h.value * x + g a) =
      g (if h.value == 0 then a else h.value * x + a) := by
    rw [hg.beq_zero, apply_ite g, hg.add, hg.mul]
  have hlimit (v : α) : (if i % 2 = 0 then g v else g v * Extended.sign x) =
      g (if i % 2 = 0 then v else v * Extended.sign x) := by
    rw [apply_ite g, hg.mul]
  unfold Horner.step Horner.map
  dsimp only
  rw [hvalue]
  generalize (if h.value == 0 then a else h.value * x + a) = v
  rw [hlimit, hg.isInf]
  cases h.fixed with
  | some y => rfl
  | none => cases Extended.isInf v <;> rfl

theorem Horner.run_map (hg : Rescaling g) (x : α) (i : Nat) (p : List α) :
    Horner.run x i (p.map g) = (Horner.run x i p).map g := by
  induction p generalizing i with
  | nil =>
      rw [List.map_nil, Horner.run, Horner.map, hg.zero]
      rfl
  | cons a p ih => rw [List.map_cons, Horner.run, ih, Horner.step_map hg, Horner.run]

theorem evaluate_map (hg : Rescaling g) (p : List α) (x : α) :
    evaluate (p.map g) x = g (evaluate p x) := by
  have hresult (h : Horner α) : (h.map g).result = g h.result := by
    obtain ⟨v, fixed⟩ := h
    cases fixed <;> rfl
  rw [evaluate, Horner.run_map hg, hresult, evaluate, apply_ite g, hg.nan]

end Horner

section Derivative

variable {α : Type u} [Zero α] [One α] [Sub α] [Mul α] [NatCast α] {g : α → α}

theorem derivative_map (hzero : g 0 = 0) (hmul : ∀ x y, g (x * y) = g x * y) (k : Nat) (p : List α) :
    derivative k (p.map g) = (derivative k p).map g := by
  unfold derivative
  rw [List.length_map]
  split
  · rfl
  · split
    · rw [List.map_singleton, hzero]
    · apply List.ext_getElem
      · simp
      · intro i _ _
        simp [hmul]

end Derivative

end Coeffs

namespace Solve

open Coeffs Line

section Search

variable {α : Type u} [Zero α] [Add α] [Sub α] [Neg α] [Mul α] [Div α] [BEq α] [LT α] [DecidableLT α]
  [Extended α] {g : α → α}

theorem newtonSteps_rescale (hg : Rescaling g) (f df : α → α) (n : Nat) (x y : α) :
    newtonSteps (fun t => g (f t)) (fun t => g (df t)) n x (g y) = newtonSteps f df n x y := by
  induction n generalizing x y with
  | zero => rfl
  | succ n ih =>
      rw [newtonSteps, newtonSteps]
      dsimp only
      rw [hg.beq_zero]
      cases hslope : df x == 0 with
      | true => rfl
      | false =>
          rw [hg.div y hslope, ih]
          simp only [hg.magnitude_lt]

theorem search_rescale [One α] [NatCast α] (hg : Rescaling g) (f df : α → α) (a b : α) (n : Nat) :
    search (fun t => g (f t)) (fun t => g (df t)) a b n = search f df a b n := by
  rw [search, search]
  simp only [hg.beq_zero, hg.pos_mul, newtonSteps_rescale hg]

theorem search_map [One α] [NatCast α] (hg : Rescaling g) (p : List α) (a b : α) (n : Nat) :
    search (evaluate (p.map g)) (evaluate (derivative 1 (p.map g))) a b n =
      search (evaluate p) (evaluate (derivative 1 p)) a b n := by
  rw [derivative_map hg.zero hg.mul, funext (evaluate_map hg p), funext (evaluate_map hg (derivative 1 p)),
    search_rescale hg]

theorem scanned_map [One α] [NatCast α] [LE α] [DecidableLE α] [Elementary α] (hg : Rescaling g)
    (multiple : Bool) (p : List α) : scanned multiple (p.map g) = scanned multiple p := by
  funext critical inflection
  simp only [scanned, search_map hg]

end Search

section Exact

variable {K : Type u} [Field K] [LinearOrder K]

theorem scale_finite (t : K) (p : List K) : scale (finite t) (p.map finite) = (scale t p).map finite := by
  simp [scale]

theorem scale_eq_map (x : Line K) (p : List (Line K)) : scale x p = p.map (x * ·) := by
  simp only [scale, mul_comm x]

theorem degree_scale {t : K} (ht : t ≠ 0) (p : List K) : degree (scale t p) = degree p := by
  refine degree_map (fun b => ?_) p
  rw [Bool.eq_iff_iff, beq_iff_eq, beq_iff_eq, mul_eq_zero, or_iff_left ht]

variable [Elementary K]

theorem realRoots_finite_of_degree_lt {p : List K} (h : degree p < 5) (tol : Line K) (multiple : Bool) :
    realRoots tol multiple (p.map finite) =
      (closedForm tol multiple ((p.take (degree p + 1)).map finite)).map fun roots => ⟨roots, 0⟩ := by
  have hdeg := degree_map finite_beq_zero p
  rw [realRoots_of_degree_lt (by rwa [hdeg]), hdeg, List.map_take]

theorem realRoots_finite_of_degree_ge {p : List K} (h : ¬ degree p < 5) (tol : Line K) (multiple : Bool) :
    realRoots tol multiple (p.map finite) =
      (realRoots tol true ((derivative 1 p).map finite)).bind fun critical =>
        (realRoots tol true ((derivative 1 (derivative 1 p)).map finite)).map fun inflection =>
          scanned multiple (p.map finite) critical inflection := by
  have hdeg := degree_map finite_beq_zero p
  rw [realRoots_of_degree_ge (by rwa [hdeg]), derivative_ordinary ordinary_finite,
    derivative_ordinary ordinary_finite]

variable [IsStrictOrderedRing K]

theorem realRoots_finite_ok (tol : Line K) (multiple : Bool) (p : List K) :
    ∃ found, realRoots tol multiple (p.map finite) = .ok found := by
  induction p using derivative_induction generalizing multiple with
  | closed p h =>
      rw [realRoots_finite_of_degree_lt h]
      rcases take_degree p with hp | ⟨q, c, htake, hlen, hc⟩
      · rw [hp.degree_eq_zero, closedForm_of_length_le_one _ _ (by simp)]
        exact ⟨_, rfl⟩
      · obtain ⟨roots, hroots⟩ := closedForm_ok tol multiple (hlen.trans_lt h) (beq_eq_false_iff_ne.1 hc)
        rw [htake, hroots]
        exact ⟨_, rfl⟩
  | step p h hcritical hinflection =>
      obtain ⟨critical, hcritical⟩ := hcritical true
      obtain ⟨inflection, hinflection⟩ := hinflection true
      rw [realRoots_finite_of_degree_ge h, hcritical, hinflection]
      exact ⟨_, rfl⟩

end Exact

theorem realRoots_scale (tol : Line ℝ) (multiple : Bool) (p : List ℝ) {t : ℝ} (ht : t ≠ 0) :
    realRoots tol multiple ((scale t p).map finite) = realRoots tol multiple (p.map finite) := by
  induction p using derivative_induction generalizing multiple with
  | closed p h =>
      have htake' : (scale t p).take (degree p + 1) = scale t (p.take (degree p + 1)) := List.map_take.symm
      rw [realRoots_finite_of_degree_lt (by rwa [degree_scale ht]), degree_scale ht, htake',
        realRoots_finite_of_degree_lt h]
      rcases take_degree p with hp | ⟨q, c, htake, hlen, hc⟩
      · rw [hp.degree_eq_zero, closedForm_of_length_le_one _ _ (by simp),
          closedForm_of_length_le_one _ _ (by simp)]
      · rw [htake, closedForm_scale tol multiple (hlen.trans_lt h) (beq_eq_false_iff_ne.1 hc) ht]
  | step p h hcritical hinflection =>
      have hderivative (p : List ℝ) : derivative 1 (scale t p) = scale t (derivative 1 p) :=
        derivative_map (zero_mul t) (fun x y => mul_right_comm x y t) 1 p
      rw [realRoots_finite_of_degree_ge (by rwa [degree_scale ht]), hderivative, hcritical, hderivative,
        hinflection, ← scale_finite, scale_eq_map, scanned_map (rescaling_finite_mul ht),
        realRoots_finite_of_degree_ge h]

/-- Scaling by a factor that is not zero changes neither the list of real roots nor any point of a search
between breakpoints. -/
theorem scale_invariant (tol : Line ℝ) (p : List ℝ) {t : ℝ} (ht : t ≠ 0) :
    (∀ multiple, ∃ found, realRoots tol multiple (p.map finite) = .ok found ∧
        realRoots tol multiple (scale (finite t) (p.map finite)) = .ok found) ∧
      ∀ (a b : Line ℝ) (n : Nat),
        search (evaluate (scale (finite t) (p.map finite)))
            (evaluate (derivative 1 (scale (finite t) (p.map finite)))) a b n =
          search (evaluate (p.map finite)) (evaluate (derivative 1 (p.map finite))) a b n := by
  constructor
  · intro multiple
    obtain ⟨found, hfound⟩ := realRoots_finite_ok tol multiple p
    refine ⟨found, hfound, ?_⟩
    rw [scale_finite, realRoots_scale tol multiple p ht, hfound]
  · intro a b n
    rw [scale_eq_map, search_map (rescaling_finite_mul ht)]

theorem scale_invariant_quintic :
    (-2 : ℝ) ≠ 0 ∧ ∃ found, realRoots (finite 1) true ([0, -1, 0, 0, 0, (1 : ℝ)].map finite) = .ok found ∧
      realRoots (finite 1) true ([0, 2, 0, 0, 0, (-2 : ℝ)].map finite) = .ok found := by
  have ht : (-2 : ℝ) ≠ 0 := by norm_num
  have hscale : scale (finite (-2)) ([0, -1, 0, 0, 0, (1 : ℝ)].map finite) =
      [0, 2, 0, 0, 0, (-2 : ℝ)].map finite := by
    simp [scale]
  have h := (scale_invariant (finite 1) [0, -1, 0, 0, 0, 1] ht).1 true
  rw [hscale] at h
  exact ⟨ht, h⟩

end Solve

end PolyRoots
