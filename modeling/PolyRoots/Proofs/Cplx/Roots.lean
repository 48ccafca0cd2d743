import Mathlib.RingTheory.RootsOfUnity.PrimitiveRoots
import PolyRoots.Proofs.Cplx.Polar

universe u

namespace PolyRoots

namespace Cplx

open Elementary

variable {K : Type u} [Field K]

theorem polar_one [Elementary K] (a : K) : polar 1 a = ⟨cos a, sin a⟩ := Cplx.ext (one_mul _) (one_mul _)

def unity (K : Type u) [Field K] [Elementary K] (n : Nat) : Cplx K := polar 1 (2 * pi / n)

def turns [Elementary K] (w : Cplx K) (n : Nat) : List (Cplx K) :=
  (List.range n).map fun k => w * unity K n ^ k

section Turns

variable [LinearOrder K] [Elementary K] [Lawful K]

theorem unity_pow (n k : Nat) : unity K n ^ k = polar (1 : K) (2 * pi * k / n) := by
  rw [unity, polar_pow, one_pow, mul_comm, div_mul_eq_mul_div]

theorem polarRoots_eq_turns (z : Cplx K) (n : Nat) : polarRoots z n = turns (z.power (1 / n)) n := by
  refine List.map_congr_left fun k _ => ?_
  rw [unity_pow, power, polar_mul, mul_one, div_right_comm (1 : K), add_div, mul_one_div]

variable [IsStrictOrderedRing K]

theorem unity_pow_self {n : Nat} (hn : n ≠ 0) : unity K n ^ n = 1 := by
  have hturn := polar_turns (1 : K) 0 1
  rw [Nat.cast_one, mul_one, zero_add, polar_zero] at hturn
  rw [unity_pow, mul_div_cancel_right₀ _ (Nat.cast_ne_zero.2 hn), hturn]
  rfl

theorem isPrimitiveRoot_unity {n : Nat} (hn : 0 < n) : IsPrimitiveRoot (unity K n) n := by
  refine IsPrimitiveRoot.mk_of_lt _ hn (unity_pow_self hn.ne') fun k hk hkn => ?_
  have hn' : (0 : K) < n := Nat.cast_pos.2 hn
  have hturn : 0 < 2 * (pi : K) := mul_pos two_pos Lawful.pi_pos
  have hpos : 0 < 2 * pi * (k : K) / n := div_pos (mul_pos hturn (Nat.cast_pos.2 hk)) hn'
  have hlt : 2 * pi * (k : K) / n < 0 + 2 * pi := by
    rw [zero_add, div_lt_iff₀ hn']
    exact mul_lt_mul_of_pos_left (Nat.cast_lt.2 hkn) hturn
  have hone : (1 : Cplx K) = polar 1 0 := (polar_zero 1).symm
  rw [unity_pow, hone]
  exact (polar_ne one_ne_zero hpos hlt).symm

theorem unity_im_pos {n : Nat} (hn : 2 < n) : 0 < (unity K n).im := by
  have hn' : (2 : K) < n := by exact_mod_cast hn
  have hpi : 0 < (pi : K) := Lawful.pi_pos
  rw [unity, polar_one]
  refine Lawful.sin_pos (by positivity) ?_
  rw [div_lt_iff₀ (by positivity), mul_comm]
  exact mul_lt_mul_of_pos_left hn' hpi

theorem unity_two : unity K 2 = ⟨-1, 0⟩ := by
  rw [unity, Nat.cast_ofNat, mul_div_cancel_left₀ _ two_ne_zero, polar_one, Lawful.cos_pi, sin_pi]

theorem eq_of_sq_add_self {w : Cplx K} (hw : w * w + w + 1 = 0) (him : 0 < w.im) : w = ⟨-1 / 2, sqrt 3 / 2⟩ := by
  have hre : w.re * w.re - w.im * w.im + w.re + 1 = 0 := congrArg re hw
  have himag : w.re * w.im + w.im * w.re + w.im + 0 = 0 := congrArg im hw
  have hroot : sqrt (3 : K) * sqrt 3 = 3 := Lawful.sqrt_mul_self (by norm_num)
  have hx : w.re = -1 / 2 := by
    have h : w.im * (w.re - -1 / 2) = 0 := by linear_combination himag / 2
    exact sub_eq_zero.1 ((mul_eq_zero.1 h).resolve_left him.ne')
  have hsq : w.im * w.im = sqrt 3 / 2 * (sqrt 3 / 2) := by
    rw [hx] at hre
    linear_combination -hre - hroot / 4
  have hnonneg : 0 ≤ sqrt (3 : K) / 2 := div_nonneg (Lawful.sqrt_nonneg (by norm_num)) two_pos.le
  exact Cplx.ext hx ((mul_self_inj him.le hnonneg).1 hsq)

omit [Elementary K] [Lawful K] in
theorem eq_of_mul_self {w : Cplx K} (hw : w * w = ⟨-1, 0⟩) (him : 0 < w.im) : w = ⟨0, 1⟩ := by
  have hre : w.re * w.re - w.im * w.im = -1 := congrArg re hw
  have himag : w.re * w.im + w.im * w.re = 0 := congrArg im hw
  have hx : w.re = 0 := by
    have h : w.im * w.re = 0 := by linear_combination himag / 2
    exact (mul_eq_zero.1 h).resolve_left him.ne'
  have hsq : w.im * w.im = 1 * 1 := by
    rw [hx] at hre
    linear_combination -hre
  exact Cplx.ext hx ((mul_self_inj him.le zero_le_one).1 hsq)

theorem unity_three : unity K 3 = ⟨-1 / 2, sqrt 3 / 2⟩ := by
  refine eq_of_sq_add_self ?_ (unity_im_pos (by norm_num))
  have hsum : ∑ i ∈ Finset.range 3, unity K 3 ^ i = 0 :=
    (isPrimitiveRoot_unity three_pos).geom_sum_eq_zero (by norm_num)
  rw [Finset.sum_range_succ, Finset.sum_range_succ, Finset.sum_range_one] at hsum
  linear_combination hsum

theorem unity_four : unity K 4 = ⟨0, 1⟩ := by
  refine eq_of_mul_self ?_ (unity_im_pos (by norm_num))
  rw [← unity_two, ← pow_two, unity_pow, unity]
  congr 1
  push_cast
  ring

theorem axisRoots_eq_turns (r : K) {n : Nat} (hn : n ≤ 4) : axisRoots r n = turns (ofReal r) n := by
  match n, hn with
  | 0, _ => rfl
  | 1, _ => simp [axisRoots, axisFormulas, turns, List.range_succ, Cplx.ext_iff]
  | 2, _ => simp [axisRoots, axisFormulas, turns, List.range_succ, unity_two, Cplx.ext_iff]
  | 3, _ =>
      have hroot : sqrt (3 : K) * sqrt 3 = 3 := Lawful.sqrt_mul_self (by norm_num)
      have hfirst : ofReal r * unity K 3 = ⟨-r / 2, sqrt 3 * r / 2⟩ := by
        rw [unity_three]
        apply Cplx.ext <;> simp only [mul_re, mul_im, ofReal_re, ofReal_im] <;> ring
      have hsecond : ofReal r * unity K 3 ^ 2 = ⟨-r / 2, -(sqrt 3 * r / 2)⟩ := by
        rw [pow_two, ← mul_assoc, hfirst, unity_three]
        apply Cplx.ext
        · simp only [mul_re]
          linear_combination -r / 4 * hroot
        · simp only [mul_im]
          ring
      have hlist : axisRoots r 3 = [ofReal r, ofReal r * unity K 3, ofReal r * unity K 3 ^ 2] := by
        rw [hfirst, hsecond]
        rfl
      simp [hlist, turns, List.range_succ]
  | 4, _ => simp [axisRoots, axisFormulas, turns, List.range_succ, unity_four, Cplx.ext_iff, pow_succ]

/-- No solution is missing: two solutions differ by a root of one. -/
theorem mem_turns_iff {v w : Cplx K} (hw : w ≠ 0) {n : Nat} (hn : n ≠ 0) : v ∈ turns w n ↔ v ^ n = w ^ n := by
  rw [turns, List.mem_map]
  constructor
  · rintro ⟨k, _, rfl⟩
    rw [mul_pow, ← pow_mul, mul_comm k n, pow_mul, unity_pow_self hn, one_pow, mul_one]
  · intro hv
    have hone : (v / w) ^ n = 1 := by rw [div_pow, hv, div_self (pow_ne_zero n hw)]
    have := NeZero.mk hn
    obtain ⟨k, hk, hturn⟩ := (isPrimitiveRoot_unity (Nat.pos_of_ne_zero hn)).eq_pow_of_pow_eq_one hone
    exact ⟨k, List.mem_range.2 hk, by rw [hturn, mul_div_cancel₀ _ hw]⟩

theorem nodup_turns {w : Cplx K} (hw : w ≠ 0) (n : Nat) : (turns w n).Nodup := by
  refine List.nodup_range.map_on fun j hj k hk h => ?_
  rw [List.mem_range] at hj hk
  have hn : 0 < n := Nat.zero_lt_of_lt hj
  exact (isPrimitiveRoot_unity hn).pow_inj hj hk (mul_left_cancel₀ hw h)

section Roots

variable [BEq K] [LawfulBEq K]

theorem roots_eq_turns {z : Cplx K} (hz : z ≠ 0) {n : Nat} (hn : n ≠ 0) :
    ∃ w, w ≠ 0 ∧ w ^ n = z ∧ z.roots n = turns w n := by
  rw [roots]
  split
  next h =>
    simp only [Bool.and_eq_true, decide_eq_true_eq, beq_iff_eq] at h
    -- the closed forms start from the positive root
    refine ⟨ofReal (pow z.re (1 / n)), ofReal_ne_zero (Lawful.pow_pos _ h.2).ne', ?_,
      axisRoots_eq_turns _ h.1.1⟩
    rw [← ofRealHom_apply, ← map_pow, pow_one_div_pow h.2 hn]
    exact Cplx.ext rfl h.1.2.symm
  next =>
    refine ⟨z.power (1 / n), ?_, power_one_div_pow hz hn, polarRoots_eq_turns z n⟩
    intro hzero
    have hpower := power_one_div_pow hz hn
    rw [hzero, zero_pow hn] at hpower
    exact hz hpower.symm

theorem mem_roots_iff {z : Cplx K} (hz : z ≠ 0) {n : Nat} (hn : n ≠ 0) (w : Cplx K) :
    w ∈ z.roots n ↔ w ^ n = z := by
  obtain ⟨v, hv, hpow, hroots⟩ := roots_eq_turns hz hn
  rw [hroots, mem_turns_iff hv hn, hpow]

theorem nodup_roots {z : Cplx K} (hz : z ≠ 0) {n : Nat} (hn : n ≠ 0) : (z.roots n).Nodup := by
  obtain ⟨v, hv, _, hroots⟩ := roots_eq_turns hz hn
  rw [hroots]
  exact nodup_turns hv n

end Roots

end Turns

class ExactRoots (K : Type u) [Field K] [LinearOrder K] [BEq K] [Elementary K] : Prop where
  sqrt_nonneg {x : K} : 0 ≤ x → 0 ≤ sqrt x
  sqrt_mul_self {x : K} : 0 ≤ x → sqrt x * sqrt x = x
  power_half (z : Cplx K) : z.power (1 / 2) * z.power (1 / 2) = z
  roots_three {z : Cplx K} : z ≠ 0 → (z.roots 3).Nodup ∧ ∀ w ∈ z.roots 3, w * w * w = z

instance instExactRoots [LinearOrder K] [Elementary K] [Lawful K] [IsStrictOrderedRing K] [BEq K] [LawfulBEq K] :
    ExactRoots K where
  sqrt_nonneg := Lawful.sqrt_nonneg
  sqrt_mul_self := Lawful.sqrt_mul_self
  power_half := power_half_mul_self
  roots_three hz := by
    refine ⟨nodup_roots hz three_ne_zero, ?_⟩
    intro w hw
    rw [← (mem_roots_iff hz three_ne_zero w).1 hw, pow_succ, pow_two]

section Magnitude

variable [LinearOrder K] [IsStrictOrderedRing K] [BEq K] [Elementary K] [ExactRoots K]

theorem abs_nonneg (z : Cplx K) : 0 ≤ z.abs :=
  ExactRoots.sqrt_nonneg (normSq_nonneg z)

theorem abs_eq_zero {z : Cplx K} : z.abs = 0 ↔ z = 0 := by
  have hsq : z.abs * z.abs = z.normSq := ExactRoots.sqrt_mul_self (normSq_nonneg z)
  rw [← normSq_eq_zero, ← hsq, mul_self_eq_zero]

theorem exists_smaller (z w : Cplx K) :
    ∃ v, (if z.abs < w.abs then w else z) + v = z + w ∧ (if z.abs < w.abs then w else z) * v = z * w ∧
      ((if z.abs < w.abs then w else z) = 0 → v = 0) := by
  by_cases h : z.abs < w.abs
  · rw [if_pos h]
    refine ⟨z, add_comm w z, mul_comm w z, ?_⟩
    rintro rfl
    rw [abs_eq_zero.2 rfl] at h
    exact absurd (abs_nonneg z) (not_le_of_gt h)
  · rw [if_neg h]
    refine ⟨w, rfl, rfl, ?_⟩
    rintro rfl
    rw [abs_eq_zero.2 rfl] at h
    exact abs_eq_zero.1 (le_antisymm (le_of_not_gt h) (abs_nonneg w))

end Magnitude

end Cplx

end PolyRoots
