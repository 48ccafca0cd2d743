import PolyRoots.Proofs.Scalar.Line
import PolyRoots.Proofs.Solve.Quartic
import PolyRoots.Proofs.Solve.Transport
import PolyRoots.Solve.RealRoots

universe u

namespace PolyRoots

namespace Solve

open Elementary Line

section Results

variable {α : Type u} [Zero α] [One α] [Add α] [Sub α] [Neg α] [Mul α] [Div α] [NatCast α] [BEq α] [LT α]
  [DecidableLT α] [Elementary α] {a : α}

omit [One α] in
theorem quadraticReal_ok (multiple : Bool) (ha : (a == 0) = false) (b c : α) :
    ∃ roots, quadraticReal multiple a b c = .ok roots := by
  rw [quadraticReal, if_neg (Bool.eq_false_iff.1 ha)]
  dsimp only
  split_ifs <;> exact ⟨_, rfl⟩

theorem cubicReal_ok [LE α] [DecidableLE α] (multiple : Bool) (ha : (a == 0) = false) (b c d : α) :
    ∃ roots, cubicReal multiple a b c d = .ok roots := by
  rw [cubicReal, if_neg (Bool.eq_false_iff.1 ha)]
  dsimp only
  split_ifs <;> exact ⟨_, rfl⟩

theorem cubicComplex_ok (ha : (a == 0) = false) (b c d : α) : ∃ z, cubicComplex a b c d = .ok z := by
  rw [cubicComplex, if_neg (Bool.eq_false_iff.1 ha)]
  dsimp only
  split_ifs <;> exact ⟨_, rfl⟩

theorem quarticReal_ok [Extended α] (tol : α) (hone : ((1 : α) == 0) = false) (ha : (a == 0) = false)
    {b c d e : α} {f : Depressed α} (hf : depress a b c d e = .ok f) :
    ∃ roots, quarticReal tol a b c d e = .ok roots := by
  obtain ⟨w, hw⟩ := cubicComplex_ok hone (f.p / 2) f.resolventTerm (-f.q * f.q / 64)
  rw [quarticReal, quarticComplex, if_neg (Bool.eq_false_iff.1 ha), hf]
  dsimp only [bind, Except.bind]
  split_ifs
  · exact ⟨_, rfl⟩
  · rw [hw]
    exact ⟨_, rfl⟩

end Results

variable {K : Type u} [Field K] [LinearOrder K] [IsStrictOrderedRing K] [Elementary K]

theorem closedForm_ok (tol : Line K) (multiple : Bool) {q : List K} {a : K} (hq : q.length < 5) (ha : a ≠ 0) :
    ∃ roots, closedForm tol multiple ((q ++ [a]).map finite) = .ok roots := by
  have hlead : (finite a == 0) = false := by rwa [finite_beq_zero, beq_eq_false_iff_ne]
  match q, hq with
  | [], _ => exact ⟨_, rfl⟩
  | [_], _ => exact ⟨_, rfl⟩
  | [_, _], _ => exact quadraticReal_ok multiple hlead _ _
  | [_, _, _], _ => exact cubicReal_ok multiple hlead _ _ _
  | [e, d, c, b], _ =>
      have hone : ((1 : Line K) == 0) = false :=
        (finite_beq_zero (1 : K)).trans (beq_eq_false_iff_ne.2 one_ne_zero)
      have hf := depress_map embedding_finite a b c d e
      rw [depress_eq ha] at hf
      exact quarticReal_ok tol hone hlead hf

end Solve

end PolyRoots
