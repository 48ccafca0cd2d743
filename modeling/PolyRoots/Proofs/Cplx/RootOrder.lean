import PolyRoots.Proofs.Cplx.Roots
import PolyRoots.Proofs.Cplx.SquareRoot

universe u

namespace PolyRoots

namespace Cplx

open Elementary

variable {K : Type u} [Field K] [LinearOrder K] [IsStrictOrderedRing K] [Elementary K] [Lawful K] [Principal K]

theorem power_one_div_ofReal {x : K} (hx : 0 < x) {n : Nat} (hn : n ≠ 0) :
    (ofReal x).power (1 / n) = ofReal (pow x (1 / n)) := by
  have hroot := power_one_div_pow (ofReal_ne_zero hx.ne') hn
  rw [power, angle_ofReal hx, zero_mul, polar_zero] at hroot ⊢
  rw [← ofRealHom_apply, ← map_pow, ofRealHom_apply] at hroot
  have hnorm : 0 < (ofReal x).normSq := normSq_pos (ofReal_ne_zero hx.ne')
  have hbase := (pow_left_inj₀ (Lawful.pow_pos _ hnorm).le (Lawful.pow_pos _ hx).le hn).1
    ((congrArg re hroot).trans (pow_one_div_pow hx hn).symm)
  exact congrArg ofReal hbase

theorem axisRoots_eq_polarRoots {x : K} (hx : 0 < x) {n : Nat} (hn : n ≠ 0) (hle : n ≤ 4) :
    axisRoots (pow x (1 / n)) n = polarRoots (ofReal x) n := by
  rw [axisRoots_eq_turns _ hle, polarRoots_eq_turns, power_one_div_ofReal hx hn]

variable [BEq K] [LawfulBEq K]

theorem roots_eq_polarRoots (z : Cplx K) {n : Nat} (hn : n ≠ 0) : z.roots n = polarRoots z n := by
  rw [roots]
  split
  next h =>
    simp only [Bool.and_eq_true, decide_eq_true_eq, beq_iff_eq] at h
    have hz : z = ofReal z.re := Cplx.ext rfl h.1.2
    rw [axisRoots_eq_polarRoots h.2 hn h.1.1, ← hz]
  next => rfl

/-- The roots of degree `n` are all the solutions, the principal power first, and each of them is the principal
power turned by a multiple of a full turn over `n`. The closed forms of positive real scalars agree with the polar
ones entry by entry. -/
theorem roots_in_order {z : Cplx K} (hz : z ≠ 0) {n : Nat} (hn : 1 ≤ n) :
    (∀ w, w ∈ z.roots n ↔ w ^ n = z) ∧ (z.roots n).Nodup ∧ (z.roots n)[0]? = some (z.power (1 / n)) ∧
      z.roots n = (List.range n).map (fun k : Nat =>
        z.power (1 / n) * ⟨cos (2 * pi * k / n), sin (2 * pi * k / n)⟩) ∧
      ∀ x : K, z = ofReal x → 0 < x → n ≤ 4 →
        z.roots n = axisRoots (pow x (1 / n)) n ∧ axisRoots (pow x (1 / n)) n = polarRoots z n := by
  have hn' : n ≠ 0 := Nat.one_le_iff_ne_zero.1 hn
  have hlist : z.roots n = turns (z.power (1 / n)) n :=
    (roots_eq_polarRoots z hn').trans (polarRoots_eq_turns z n)
  refine ⟨mem_roots_iff hz hn', nodup_roots hz hn', ?_, ?_, ?_⟩
  · rw [hlist, turns, List.getElem?_map, List.getElem?_range hn, Option.map_some, pow_zero, mul_one]
  · simp only [hlist, turns, unity_pow, polar_one]
  · rintro x rfl hx hle
    have haxis := axisRoots_eq_polarRoots hx hn' hle
    exact ⟨(roots_eq_polarRoots _ hn').trans haxis.symm, haxis⟩

theorem roots_in_order_fifth :
    Lawful ℝ ∧ Principal ℝ ∧ LawfulBEq ℝ ∧ (⟨0, 1⟩ : Cplx ℝ) ≠ 0 ∧ (ofReal 8 : Cplx ℝ) ≠ 0 ∧ (0 : ℝ) < 8 ∧
      (∀ w : Cplx ℝ, w ∈ (⟨0, 1⟩ : Cplx ℝ).roots 5 ↔ w ^ 5 = ⟨0, 1⟩) ∧ ((⟨0, 1⟩ : Cplx ℝ).roots 5).Nodup ∧
      ((⟨0, 1⟩ : Cplx ℝ).roots 5)[0]? = some ((⟨0, 1⟩ : Cplx ℝ).power (1 / (5 : Nat))) ∧
      (⟨0, 1⟩ : Cplx ℝ).roots 5 = (List.range 5).map (fun k : Nat =>
        (⟨0, 1⟩ : Cplx ℝ).power (1 / (5 : Nat)) * ⟨cos (2 * pi * k / (5 : Nat)), sin (2 * pi * k / (5 : Nat))⟩) ∧
      (ofReal (8 : ℝ)).roots 3 = axisRoots (pow (8 : ℝ) (1 / (3 : Nat))) 3 ∧
      axisRoots (pow (8 : ℝ) (1 / (3 : Nat))) 3 = polarRoots (ofReal (8 : ℝ)) 3 := by
  have hi : (⟨0, 1⟩ : Cplx ℝ) ≠ 0 := fun h => one_ne_zero (congrArg im h)
  have hpos : (0 : ℝ) < 8 := by norm_num
  have height : (ofReal 8 : Cplx ℝ) ≠ 0 := ofReal_ne_zero hpos.ne'
  obtain ⟨hmem, hnodup, hfirst, hlist, _⟩ := roots_in_order hi (n := 5) (by decide)
  obtain ⟨_, _, _, _, haxis⟩ := roots_in_order height (n := 3) (by decide)
  exact ⟨inferInstance, inferInstance, inferInstance, hi, height, hpos, hmem, hnodup, hfirst, hlist,
    haxis 8 rfl hpos (by decide)⟩

end Cplx

end PolyRoots
