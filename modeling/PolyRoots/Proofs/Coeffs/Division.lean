import Mathlib.Algebra.Polynomial.FieldDivision
import PolyRoots.Coeffs.Division
import PolyRoots.Proofs.Coeffs.Denotation
import PolyRoots.Proofs.Coeffs.Trailing

universe u

namespace PolyRoots

namespace Coeffs

open Polynomial

section Branches

variable {α : Type u} [Zero α] [BEq α] [Sub α] [Mul α] [Div α] {p q s r : List α}

theorem divMod?_eq_none_iff_zeros : divMod? p q = none ↔ Zeros q := by
  cases q with
  | nil => exact iff_of_true rfl nofun
  | cons c q =>
      rw [zeros_cons_iff]
      rcases Nat.eq_zero_or_pos (degree (c :: q)) with hdeg | hpos
      · rw [divMod?_cons_of_degree_eq_zero p hdeg]
        simp [hdeg]
      · rcases Nat.lt_or_ge (degree p) (degree (c :: q)) with hlt | hle
        · rw [divMod?_of_degree_lt hpos hlt]
          simp [hpos.ne']
        · rw [divMod?_of_degree_le hpos hle]
          simp [hpos.ne']

theorem length_divMod? (hpos : 0 < degree q) (hle : degree q ≤ degree p) (h : divMod? p q = some (s, r)) :
    s.length = degree p + 1 - degree q ∧ r.length = degree q := by
  have hp := degree_lt_length_of_pos (hpos.trans_le hle)
  have hlength := length_longDivision hp (degree_lt_length_of_pos hpos) hle
  rw [divMod?_of_degree_le hpos hle] at h
  rwa [Option.some.inj h] at hlength

theorem divMod?_eq_nil_iff (h : divMod? p q = some (s, r)) : s = [] ∨ r = [] ↔ p = [] := by
  cases q with
  | nil => cases h
  | cons c q =>
      rcases Nat.eq_zero_or_pos (degree (c :: q)) with hdeg | hpos
      · rw [divMod?_cons_of_degree_eq_zero p hdeg] at h
        split at h
        · cases h
        · cases h
          simp
      · rcases Nat.lt_or_ge (degree p) (degree (c :: q)) with hlt | hle
        · rw [divMod?_of_degree_lt hpos hlt] at h
          cases h
          simp
        · obtain ⟨hs, hr⟩ := length_divMod? hpos hle h
          have hp := degree_lt_length_of_pos (hpos.trans_le hle)
          have hs' : s ≠ [] := List.ne_nil_of_length_pos (by omega)
          have hr' : r ≠ [] := List.ne_nil_of_length_pos (by omega)
          have hp' : p ≠ [] := List.ne_nil_of_length_pos (by omega)
          simp [hs', hr', hp']

/-- A remainder has as many coefficients as the degree of the divisor says, and one at least. Only a dividend
of lower degree is returned as it is, with the zeros at its end, and can be shorter or longer. -/
theorem length_remainder (hq : ¬Zeros q) : ∃ s r, divMod? p q = some (s, r) ∧
    (degree p < degree q → r = p) ∧
      (r.length = max 1 (degree q) ↔ (degree p < degree q → p.length = degree q)) := by
  obtain ⟨⟨s, r⟩, h⟩ := Option.ne_none_iff_exists'.1 (mt divMod?_eq_none_iff_zeros.1 hq)
  refine ⟨s, r, h, ?_⟩
  rcases Nat.eq_zero_or_pos (degree q) with hconst | hpos
  · have hlow : ¬degree p < degree q := by omega
    have hr : r = [0] := by
      cases q with
      | nil => cases h
      | cons c q =>
          rw [divMod?_cons_of_degree_eq_zero p hconst] at h
          split at h
          · cases h
          · injection h with h
            exact (congrArg Prod.snd h).symm
    refine ⟨fun hlt => absurd hlt hlow, iff_of_true ?_ fun hlt => absurd hlt hlow⟩
    rw [hr, hconst]
    rfl
  · rw [Nat.max_eq_right hpos]
    rcases Nat.lt_or_ge (degree p) (degree q) with hlt | hle
    · rw [divMod?_of_degree_lt hpos hlt] at h
      injection h with h
      obtain rfl : p = r := congrArg Prod.snd h
      exact ⟨fun _ => rfl, (imp_iff_right hlt).symm⟩
    · have hlength := (length_divMod? hpos hle h).2
      exact ⟨fun hlt => absurd hlt hle.not_gt, iff_of_true hlength fun hlt => absurd hlt hle.not_gt⟩

theorem length_remainder_cubeMinusOne : ¬Zeros ([-1, 1, 0] : List ℚ) ∧
    ∃ s r, divMod? ([-1, 0, 0, 1, 0] : List ℚ) [-1, 1, 0] = some (s, r) ∧
      (degree ([-1, 0, 0, 1, 0] : List ℚ) < degree ([-1, 1, 0] : List ℚ) → r = [-1, 0, 0, 1, 0]) ∧
        (r.length = max 1 (degree ([-1, 1, 0] : List ℚ)) ↔
          (degree ([-1, 0, 0, 1, 0] : List ℚ) < degree ([-1, 1, 0] : List ℚ) →
            ([-1, 0, 0, 1, 0] : List ℚ).length = degree ([-1, 1, 0] : List ℚ))) := by
  have hq : ¬Zeros ([-1, 1, 0] : List ℚ) := by decide +kernel
  exact ⟨hq, length_remainder hq⟩

/-- The constant 1, written with four coefficients, keeps them all when it is divided by `x²`. -/
theorem length_remainder_long : ¬Zeros ([0, 0, 1] : List ℚ) ∧
    divMod? ([1, 0, 0, 0] : List ℚ) [0, 0, 1] = some ([0], [1, 0, 0, 0]) ∧
      ([1, 0, 0, 0] : List ℚ).length ≠ max 1 (degree ([0, 0, 1] : List ℚ)) := by
  decide +kernel

end Branches

variable {K : Type u} [Field K]

theorem polynomial_reverse_cons (c : K) (l : List K) :
    polynomial (c :: l).reverse = polynomial l.reverse + C c * X ^ l.length := by
  rw [List.reverse_cons, polynomial_append, List.length_reverse]
  simp only [polynomial_cons, polynomial_nil]
  ring

theorem polynomial_subFront (acc row : List K) (k : Nat) (h : acc.length = row.length + k) :
    polynomial (subFront acc row).reverse =
      polynomial acc.reverse - polynomial row.reverse * X ^ k := by
  induction acc generalizing row with
  | nil =>
      have hrow : row = [] := List.length_eq_zero_iff.1 (by simp only [List.length_nil] at h; omega)
      simp [subFront, hrow]
  | cons a acc ih =>
      cases row with
      | nil => simp [subFront]
      | cons b row =>
          have hlen : acc.length = row.length + k := by simp only [List.length_cons] at h; omega
          rw [subFront, polynomial_reverse_cons, ih row hlen, length_subFront, polynomial_reverse_cons,
            polynomial_reverse_cons, hlen, C_sub, pow_add]
          ring

theorem polynomial_map_mul_reverse (c : K) (l : List K) :
    polynomial (l.map (c * ·)).reverse = C c * polynomial l.reverse := by
  rw [← List.map_reverse, polynomial_map_mul]

/-- The loop splits what it is given into a multiple of the divisor and a rest. -/
theorem polynomial_divLoop (lead : K) (tail : List K) (hlead : lead ≠ 0) (n : Nat) (r : List K)
    (h : r.length = n + tail.length) :
    polynomial r.reverse =
      polynomial (lead :: tail).reverse * polynomial (divLoop lead tail n r).1.reverse +
        polynomial (divLoop lead tail n r).2.reverse := by
  induction n generalizing r with
  | zero => simp [divLoop]
  | succ n ih =>
      cases r with
      | nil => simp only [List.length_nil] at h; omega
      | cons c r =>
          have hlen : r.length = tail.length + n := by simp only [List.length_cons] at h; omega
          have hrow : r.length = (tail.map (c / lead * ·)).length + n := by rwa [List.length_map]
          have hrest : (subFront r (tail.map (c / lead * ·))).length = n + tail.length := by
            rw [length_subFront, hlen, Nat.add_comm]
          have hs := (length_divLoop lead hrest).1
          have hp := ih _ hrest
          rw [polynomial_subFront _ _ n hrow, polynomial_map_mul_reverse] at hp
          have hc : C c = C (c / lead) * C lead := by rw [← C_mul, div_mul_cancel₀ c hlead]
          simp only [divLoop, polynomial_reverse_cons, hs] at hp ⊢
          rw [hlen, pow_add]
          linear_combination hp + X ^ tail.length * X ^ n * hc

section Euclid

variable [BEq K] [LawfulBEq K]

theorem take_degree_reverse (q : List K) (hq : polynomial q ≠ 0) :
    ∃ lead tail, (q.take (degree q + 1)).reverse = lead :: tail ∧ lead ≠ 0 ∧
      tail.length = degree q ∧ polynomial (lead :: tail).reverse = polynomial q := by
  have hlen : (q.take (degree q + 1)).length = degree q + 1 := by
    rw [List.length_take]
    exact Nat.min_eq_left (degree_lt_length hq)
  cases h : (q.take (degree q + 1)).reverse with
  | nil => rw [List.reverse_eq_nil_iff.1 h] at hlen; cases hlen
  | cons lead tail =>
      have htake : q.take (degree q + 1) = (lead :: tail).reverse := by rw [← h, List.reverse_reverse]
      have htail : tail.length = degree q := by
        rw [htake, List.length_reverse, List.length_cons] at hlen
        exact Nat.succ.inj hlen
      have hpoly : polynomial (lead :: tail).reverse = polynomial q := by
        rw [← htake, polynomial_take_degree]
      refine ⟨lead, tail, rfl, ?_, htail, hpoly⟩
      have hlead : (polynomial q).coeff (degree q) = lead := by
        rw [← hpoly, coeff_polynomial, ← htail, List.reverse_cons]
        simp
      rw [← hlead, degree_eq_natDegree]
      exact leadingCoeff_ne_zero.2 hq

theorem polynomial_longDivision (p q : List K) (hq : polynomial q ≠ 0) (h : degree q ≤ degree p)
    (hp : polynomial p ≠ 0) :
    polynomial p = polynomial q * polynomial (longDivision (degree p) (degree q) p q).1 +
      polynomial (longDivision (degree p) (degree q) p q).2 := by
  obtain ⟨lead, tail, hrev, hlead, htail, hpoly⟩ := take_degree_reverse q hq
  have hlen : (p.take (degree p + 1)).reverse.length = degree p + 1 - degree q + tail.length := by
    rw [List.length_reverse, List.length_take, Nat.min_eq_left (degree_lt_length hp)]
    omega
  have hdiv := polynomial_divLoop lead tail hlead _ _ hlen
  rw [List.reverse_reverse, polynomial_take_degree, hpoly] at hdiv
  simp only [longDivision, hrev]
  exact hdiv

def Reduced (r q : List K) : Prop := (∀ a ∈ r, a = 0) ∨ degree r < degree q

theorem reduced_iff {r q : List K} (hq : polynomial q ≠ 0) :
    Reduced r q ↔ (polynomial r).degree < (polynomial q).degree := by
  rw [Reduced, ← polynomial_eq_zero_iff, degree_eq_natDegree, degree_eq_natDegree]
  by_cases hr : polynomial r = 0
  · simp [hr, bot_lt_iff_ne_bot, hq]
  · simp only [hr, false_or]
    exact natDegree_lt_natDegree_iff hr

/-- `p = q s + r`, where the remainder `r` is reduced. -/
def IsDivision (p q s r : List K) : Prop := Agree (add (mul q s) r) p ∧ Reduced r q

theorem isDivision_iff {p q s r : List K} (hq : polynomial q ≠ 0) :
    IsDivision p q s r ↔ polynomial q * polynomial s + polynomial r = polynomial p ∧
      (polynomial r).degree < (polynomial q).degree := by
  rw [IsDivision, agree_iff, polynomial_add, polynomial_mul, reduced_iff hq]

theorem IsDivision.unique {p q s r s' r' : List K} (hq : polynomial q ≠ 0)
    (h : IsDivision p q s r) (h' : IsDivision p q s' r') : Agree s s' ∧ Agree r r' := by
  obtain ⟨heq, hdeg⟩ := (isDivision_iff hq).1 h
  obtain ⟨heq', hdeg'⟩ := (isDivision_iff hq).1 h'
  have hdvd : polynomial q ∣ polynomial r - polynomial r' :=
    ⟨polynomial s' - polynomial s, by linear_combination heq - heq'⟩
  have hlow : (polynomial r - polynomial r').degree < (polynomial q).degree :=
    lt_of_le_of_lt (degree_sub_le _ _) (max_lt hdeg hdeg')
  have hr : polynomial r = polynomial r' := sub_eq_zero.1 (eq_zero_of_dvd_of_degree_lt hdvd hlow)
  have hs : polynomial q * polynomial s = polynomial q * polynomial s' := by
    linear_combination heq - heq' - hr
  exact ⟨(agree_iff _ _).2 (mul_left_cancel₀ hq hs), (agree_iff _ _).2 hr⟩

theorem polynomial_of_degree_eq_zero {c : K} {q : List K} (h : degree (c :: q) = 0) :
    polynomial (c :: q) = C c := by
  rw [degree_eq_natDegree] at h
  rw [eq_C_of_natDegree_eq_zero h, coeff_polynomial, List.getD_cons_zero]

theorem isDivision_const {c : K} {q : List K} (p : List K) (hdeg : degree (c :: q) = 0)
    (hc : c ≠ 0) : IsDivision p (c :: q) (p.map (· / c)) [0] := by
  have hpoly := polynomial_of_degree_eq_zero hdeg
  have hmap : p.map (· / c) = scale c⁻¹ p := by simp only [scale, div_eq_mul_inv]
  rw [isDivision_iff (by rw [hpoly]; exact C_ne_zero.2 hc), hmap, polynomial_scale, hpoly, ← mul_assoc,
    ← C_mul, mul_inv_cancel₀ hc, C_1, degree_C hc]
  simp

omit [LawfulBEq K] in
theorem isDivision_of_degree_lt {p q : List K} (h : degree p < degree q) :
    IsDivision p q [0] p :=
  ⟨(agree_iff _ _).2 (by simp), .inr h⟩

theorem isDivision_longDivision {p q : List K} (hq : polynomial q ≠ 0) (hp : polynomial p ≠ 0)
    (h : degree q ≤ degree p) :
    IsDivision p q (longDivision (degree p) (degree q) p q).1
      (longDivision (degree p) (degree q) p q).2 := by
  obtain ⟨_, hr⟩ := length_longDivision (degree_lt_length hp) (degree_lt_length hq) h
  refine (isDivision_iff hq).2 ⟨(polynomial_longDivision p q hq h hp).symm, ?_⟩
  have hlow := degree_polynomial_lt (longDivision (degree p) (degree q) p q).2
  rw [hr] at hlow
  rwa [Polynomial.degree_eq_natDegree hq, ← degree_eq_natDegree]

/-- All three branches end in a division. -/
theorem divMod?_spec (p q : List K) (hq : polynomial q ≠ 0) :
    ∃ s r, divMod? p q = some (s, r) ∧ IsDivision p q s r ∧ (p ≠ [] → s ≠ [] ∧ r ≠ []) := by
  suffices h : ∃ s r, divMod? p q = some (s, r) ∧ IsDivision p q s r by
    obtain ⟨s, r, heq, hdiv⟩ := h
    exact ⟨s, r, heq, hdiv, fun hp => not_or.1 fun hnil => hp ((divMod?_eq_nil_iff heq).1 hnil)⟩
  rcases Nat.eq_zero_or_pos (degree q) with hconst | hpos
  · cases q with
    | nil => exact absurd rfl hq
    | cons c q =>
        have hc : c ≠ 0 := by
          intro h
          rw [polynomial_of_degree_eq_zero hconst, h, C_0] at hq
          exact hq rfl
        refine ⟨p.map (· / c), [0], ?_, isDivision_const p hconst hc⟩
        rw [divMod?_cons_of_degree_eq_zero p hconst, if_neg (mt beq_iff_eq.1 hc)]
  · rcases Nat.lt_or_ge (degree p) (degree q) with hlow | hle
    · exact ⟨[0], p, divMod?_of_degree_lt hpos hlow, isDivision_of_degree_lt hlow⟩
    · have hp : polynomial p ≠ 0 := by
        intro h
        rw [degree_eq_natDegree p, h, natDegree_zero] at hle
        omega
      exact ⟨_, _, divMod?_of_degree_le hpos hle, isDivision_longDivision hq hp hle⟩

/-- Division with remainder exists and is unique, so it recovers the parts of `q s + r`. -/
theorem divMod?_existsUnique (p q : List K) (hq : ∃ c ∈ q, c ≠ 0) :
    (∃ s r, divMod? p q = some (s, r) ∧ (p ≠ [] → s ≠ [] ∧ r ≠ []) ∧ IsDivision p q s r ∧
      ∀ s' r', IsDivision p q s' r' → Agree s' s ∧ Agree r' r) ∧
    ∀ s r, Reduced r q → ∃ s' r', divMod? (add (mul q s) r) q = some (s', r') ∧
      Agree s' s ∧ Agree r' r := by
  have hq' : polynomial q ≠ 0 := by
    obtain ⟨c, hc, hne⟩ := hq
    intro h
    exact hne ((polynomial_eq_zero_iff q).1 h c hc)
  constructor
  · obtain ⟨s, r, heq, hdiv, hne⟩ := divMod?_spec p q hq'
    exact ⟨s, r, heq, hne, hdiv, fun s' r' h => h.unique hq' hdiv⟩
  · intro s r hr
    obtain ⟨s', r', heq, hdiv, _⟩ := divMod?_spec (add (mul q s) r) q hq'
    exact ⟨s', r', heq, hdiv.unique hq' ⟨(agree_iff _ _).2 rfl, hr⟩⟩

end Euclid

theorem divMod?_existsUnique_cubeMinusOne :
    (∃ c ∈ ([-1, 1, 0] : List ℚ), c ≠ 0) ∧
      ((∃ s r, divMod? ([-1, 0, 0, 1, 0] : List ℚ) [-1, 1, 0] = some (s, r) ∧
        (([-1, 0, 0, 1, 0] : List ℚ) ≠ [] → s ≠ [] ∧ r ≠ []) ∧
        IsDivision [-1, 0, 0, 1, 0] [-1, 1, 0] s r ∧
        ∀ s' r', IsDivision [-1, 0, 0, 1, 0] [-1, 1, 0] s' r' → Agree s' s ∧ Agree r' r) ∧
      ∀ s r, Reduced r ([-1, 1, 0] : List ℚ) → ∃ s' r',
        divMod? (add (mul [-1, 1, 0] s) r) [-1, 1, 0] = some (s', r') ∧ Agree s' s ∧ Agree r' r) :=
  ⟨⟨1, by simp, one_ne_zero⟩, divMod?_existsUnique _ _ ⟨1, by simp, one_ne_zero⟩⟩

example : divMod? ([-1, 0, 0, 1, 0] : List ℚ) [-1, 1, 0] = some ([1, 1, 1], [0]) := by
  decide +kernel

end Coeffs

end PolyRoots
