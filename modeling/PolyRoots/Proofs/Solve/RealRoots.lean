import PolyRoots.Solve.RealRoots

universe u

namespace PolyRoots

namespace Solve

open Coeffs

variable {α : Type u} [Zero α] [One α] [Add α] [Sub α] [Neg α] [Mul α] [Div α] [NatCast α] [BEq α]
  [LT α] [DecidableLT α] [LE α] [DecidableLE α] [Elementary α] [Extended α]

theorem realRoots_of_degree_lt {p : List α} (h : degree p < 5) (tol : α) (multiple : Bool) :
    realRoots tol multiple p =
      (closedForm tol multiple (p.take (degree p + 1))).map fun roots => ⟨roots, 0⟩ := by
  rw [realRoots, dif_pos h]
  rfl

theorem realRoots_of_degree_ge {p : List α} (h : ¬ degree p < 5) (tol : α) (multiple : Bool) :
    realRoots tol multiple p = (realRoots tol true (derivative 1 p)).bind fun critical =>
      (realRoots tol true (derivative 1 (derivative 1 p))).map fun inflection =>
        scanned multiple p critical inflection := by
  rw [realRoots, dif_neg h]
  rfl

theorem realRootsAt_degree (tol : α) (multiple : Bool) (p : List α) :
    realRootsAt tol multiple (degree p) p = realRoots tol multiple p := by
  by_cases h : degree p < 5
  · rw [realRootsAt, if_pos h, realRoots, dif_pos h]
  · rw [realRootsAt, if_neg h, realRoots, dif_neg h]

omit [Add α] [Neg α] [Div α] [LT α] [DecidableLT α] [LE α] [DecidableLE α] [Elementary α] [Extended α] in
/-- From degree five on, a fact about a polynomial may be taken from its first two derivatives. -/
theorem derivative_induction {motive : List α → Prop} (closed : ∀ p, degree p < 5 → motive p)
    (step : ∀ p, ¬ degree p < 5 → motive (derivative 1 p) → motive (derivative 1 (derivative 1 p)) →
      motive p) (p : List α) : motive p := by
  induction hn : p.length using Nat.strongRecOn generalizing p with
  | ind n ih =>
      subst hn
      by_cases h : degree p < 5
      · exact closed p h
      · have hle := degree_le_length p
        have hlen := length_derivative_one (p := p) (by omega)
        have hlen' := length_derivative_one (p := derivative 1 p) (by omega)
        exact step p h (ih _ (by omega) _ rfl) (ih _ (by omega) _ rfl)

theorem closedForm_of_length_le_one (tol : α) (multiple : Bool) {p : List α} (h : p.length ≤ 1) :
    closedForm tol multiple p = .ok [] := by
  match p, h with
  | [], _ => rfl
  | [_], _ => rfl

theorem realRoots_of_degree_eq_zero {p : List α} (h : degree p = 0) (tol : α) (multiple : Bool) :
    realRoots tol multiple p = .ok ⟨[], 0⟩ := by
  rw [realRoots_of_degree_lt (by omega), h, closedForm_of_length_le_one _ _ (List.length_take_le 1 p)]
  rfl

end Solve

end PolyRoots
