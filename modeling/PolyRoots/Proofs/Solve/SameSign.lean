import PolyRoots.Proofs.Scalar.Underflow
import PolyRoots.Proofs.Solve.Scan

namespace PolyRoots

namespace Solve

open Binary (Underflows)

section SameSign

variable {f df : Float → Float} {a b : Float}

/-- Without a change of sign no root is reported, as long as the product of the two values does not underflow. -/
theorem search_same_sign (hab : a < b) (hsame : 0 < f a ∧ 0 < f b ∨ f a < 0 ∧ f b < 0) (n : Nat) :
    (search f df a b n).root = none ↔ ¬Underflows (f a) (f b) := by
  have ha : (f a == 0) = false := by
    rcases hsame with ⟨ha, -⟩ | ⟨ha, -⟩
    · exact StrictComparison.beq_right ha
    · exact StrictComparison.beq_left ha
  have hb : (f b == 0) = false := by
    rcases hsame with ⟨-, hb⟩ | ⟨-, hb⟩
    · exact StrictComparison.beq_right hb
    · exact StrictComparison.beq_left hb
  rw [← Binary.zero_lt_mul_iff hsame]
  constructor
  · intro hnone
    by_contra hpos
    obtain ⟨x, hx⟩ : ∃ x, (search f df a b n).root = some x := search_root_change hab ha hb hpos
    rw [hx] at hnone
    cases hnone
  · exact search_root_same hab ha hb

theorem search_same_sign_parabola :
    (-1 : Float) < 1 ∧ 0 < Coeffs.evaluate [1, 0, 1] (-1 : Float) ∧ 0 < Coeffs.evaluate [1, 0, 1] (1 : Float) ∧
      (search (Coeffs.evaluate [1, 0, 1]) (Coeffs.evaluate [0, 2]) (-1 : Float) 1 defaultSteps).root = none := by
  have hab : (-1 : Float) < 1 := by decide +kernel
  have ha : 0 < Coeffs.evaluate [1, 0, 1] (-1 : Float) := by decide +kernel
  have hb : 0 < Coeffs.evaluate [1, 0, 1] (1 : Float) := by decide +kernel
  have hno : ¬Underflows (Coeffs.evaluate [1, 0, 1] (-1)) (Coeffs.evaluate [1, 0, 1] 1) := by
    rintro ⟨u, hu, v, hv, hle⟩
    -- both values are stored as `2`
    have hu : some ((4503599627370496 : Int) * 2 ^ (-51 : Int) : ℚ) = some u := hu
    have hv : some ((4503599627370496 : Int) * 2 ^ (-51 : Int) : ℚ) = some v := hv
    injection hu with hu
    injection hv with hv
    have hone := hle.trans (zpow_le_one_of_nonpos₀ one_le_two (by decide))
    rw [← hu, ← hv] at hone
    norm_num at hone
  exact ⟨hab, ha, hb, (search_same_sign hab (.inl ⟨ha, hb⟩) defaultSteps).2 hno⟩

/-- Multiplied by `10 ^ (-170)` the function has no zero either, and one is reported. -/
theorem search_underflow :
    (-1 : Float) < 1 ∧ 0 < Coeffs.evaluate [1e-170, 0, 1e-170] (-1 : Float) ∧
      0 < Coeffs.evaluate [1e-170, 0, 1e-170] (1 : Float) ∧
      (search (Coeffs.evaluate [1e-170, 0, 1e-170]) (Coeffs.evaluate [0, 2e-170]) (-1 : Float) 1
        defaultSteps).root.isSome := by
  refine ⟨?_, ?_, ?_, ?_⟩ <;> decide +kernel

end SameSign

end Solve

end PolyRoots
