import PolyRoots.Proofs.Coeffs.Calculus
import PolyRoots.Proofs.Coeffs.Division
import PolyRoots.Proofs.Coeffs.Evaluate

universe u

namespace PolyRoots

namespace Coeffs

open Polynomial

section Ring

variable {R : Type u} [CommRing R] [BEq R] [LawfulBEq R]

theorem leading?_eq {p : List R} (hp : p ≠ []) : leading? p = some (polynomial p).leadingCoeff := by
  have hpos : 0 < p.length := List.length_pos_iff.2 hp
  have hle := degree_le_length p
  have hlt : degree p < p.length := by omega
  rw [leading?, List.getElem?_eq_getElem hlt, Polynomial.leadingCoeff, ← degree_eq_natDegree,
    coeff_polynomial, List.getD_eq_getElem _ _ hlt]

variable [Extended R]

/-- What the ring operations make of two pairs of lists. -/
structure RingAlike (p p' q q' : List R) : Prop where
  degree : degree p = degree p'
  leading : p ≠ [] → p' ≠ [] → leading? p = leading? p'
  evaluate (x : R) : evaluate p x = evaluate p' x
  evaluateComplex (z : Cplx R) : Cplx.evaluate z p = Cplx.evaluate z p'
  add : Agree (add p q) (add p' q')
  sub : Agree (sub p q) (sub p' q')
  neg : Agree (neg p) (neg p')
  scale (c : R) : Agree (scale c p) (scale c p')
  mul : Agree (mul p q) (mul p' q')
  pow (n : Nat) : Agree (pow p n) (pow p' n)
  compose : Agree (compose p q) (compose p' q')
  derivative (k : Nat) : Agree (derivative k p) (derivative k p')

theorem ringAlike [Extended.Exact R] {p p' q q' : List R} (hp : Agree p p') (hq : Agree q q') :
    RingAlike p p' q q' := by
  rw [agree_iff] at hp hq
  constructor
  case degree => rw [degree_eq_natDegree, degree_eq_natDegree, hp]
  case leading => exact fun hne hne' => by rw [leading?_eq hne, leading?_eq hne', hp]
  case evaluate => exact fun x => by rw [evaluate_eq, evaluate_eq, hp]
  case evaluateComplex => exact fun z => by rw [evaluate_cplx_eq, evaluate_cplx_eq, hp]
  all_goals simp [agree_iff, hp, hq]

end Ring

section Field

variable {K : Type u} [Field K]

theorem foldl_add_zeros {l : List K} (hl : ∀ x ∈ l, x = 0) (s : K) : l.foldl (· + ·) s = s := by
  induction l generalizing s with
  | nil => rfl
  | cons x l ih =>
      rw [List.forall_mem_cons] at hl
      rw [List.foldl_cons, hl.1, add_zero, ih hl.2]

theorem integral_append_zeros (p : List K) (n : Nat) (a b : K) :
    integral (· ^ ·) id (p ++ List.replicate n 0) a b = integral (· ^ ·) id p a b := by
  rw [integral, List.mapIdx_append, List.foldl_append, integral]
  refine foldl_add_zeros ?_ _
  intro x hx
  obtain ⟨i, hi, rfl⟩ := List.mem_mapIdx.1 hx
  simp

theorem antiderivative_append_zeros (c : K) (p : List K) (n : Nat) :
    antiderivative c (p ++ List.replicate n 0) = antiderivative c p ++ List.replicate n 0 := by
  rw [antiderivative, List.mapIdx_append, antiderivative, List.cons_append]
  congr 2
  refine List.eq_replicate_iff.2 ⟨by simp, ?_⟩
  intro x hx
  obtain ⟨i, hi, rfl⟩ := List.mem_mapIdx.1 hx
  simp

variable [BEq K] [LawfulBEq K]

theorem divMod?_eq_none_iff (p q : List K) : divMod? p q = none ↔ polynomial q = 0 := by
  rw [divMod?_eq_none_iff_zeros, polynomial_eq_zero_iff]
  simp only [Zeros, beq_iff_eq]

theorem IsDivision.congr {p p' q q' s r : List K} (hp : Agree p p') (hq : Agree q q')
    (hne : polynomial q ≠ 0) (h : IsDivision p q s r) : IsDivision p' q' s r := by
  rw [agree_iff] at hp hq
  rw [isDivision_iff hne] at h
  rwa [isDivision_iff (by rwa [← hq]), ← hp, ← hq]

structure FieldAlike (p p' q q' : List K) : Prop where
  integral (a b : K) : integral (· ^ ·) id p a b = integral (· ^ ·) id p' a b
  antiderivative (c : K) : Agree (antiderivative c p) (antiderivative c p')
  divMod?_none : divMod? p q = none ↔ divMod? p' q' = none
  divMod?_some (s r s' r' : List K) : divMod? p q = some (s, r) → divMod? p' q' = some (s', r') →
    Agree s s' ∧ Agree r r'

theorem fieldAlike {p p' q q' : List K} (hp : Agree p p') (hq : Agree q q') :
    FieldAlike p p' q q' := by
  have hpoly : polynomial q = polynomial q' := (agree_iff q q').1 hq
  constructor
  case integral =>
    intro a b
    obtain ⟨m, n, h⟩ := hp
    rw [← integral_append_zeros p m, h, integral_append_zeros]
  case antiderivative =>
    intro c
    obtain ⟨m, n, h⟩ := hp
    exact ⟨m, n, by rw [← antiderivative_append_zeros, h, antiderivative_append_zeros]⟩
  case divMod?_none => rw [divMod?_eq_none_iff, divMod?_eq_none_iff, hpoly]
  case divMod?_some =>
    intro s r s' r' heq heq'
    have hq0 : polynomial q ≠ 0 := by
      rw [ne_eq, ← divMod?_eq_none_iff p, heq]
      exact nofun
    obtain ⟨s₁, r₁, h₁, hdiv, _⟩ := divMod?_spec p q hq0
    obtain ⟨s₂, r₂, h₂, hdiv', _⟩ := divMod?_spec p' q' (by rwa [← hpoly])
    rw [heq] at h₁
    rw [heq'] at h₂
    cases h₁
    cases h₂
    exact (hdiv.congr hp hq hq0).unique (by rwa [← hpoly]) hdiv'

end Field

end Coeffs

end PolyRoots
