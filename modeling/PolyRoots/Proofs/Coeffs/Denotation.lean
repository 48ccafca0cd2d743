import Mathlib.Algebra.Polynomial.Eval.Degree
import Mathlib.Data.List.GetD
import Mathlib.Tactic.LinearCombination
import PolyRoots.Coeffs.Compose
import PolyRoots.Coeffs.Construct

universe u

namespace PolyRoots

namespace Coeffs

open Polynomial

variable {R : Type u}

section Semiring

variable [Semiring R]

noncomputable def polynomial : List R → R[X]
  | [] => 0
  | a :: p => C a + X * polynomial p

@[simp]
theorem polynomial_nil : polynomial ([] : List R) = 0 := rfl

@[simp]
theorem polynomial_cons (a : R) (p : List R) : polynomial (a :: p) = C a + X * polynomial p := rfl

theorem coeff_polynomial (p : List R) (i : Nat) : (polynomial p).coeff i = p.getD i 0 := by
  induction p generalizing i with
  | nil => simp
  | cons a p ih => cases i <;> simp [coeff_C, ih]

theorem polynomial_append (p q : List R) :
    polynomial (p ++ q) = polynomial p + X ^ p.length * polynomial q := by
  induction p with
  | nil => simp
  | cons a p ih =>
      rw [List.cons_append, polynomial_cons, ih, polynomial_cons, List.length_cons, pow_succ', mul_add,
        add_assoc, mul_assoc]

@[simp]
theorem polynomial_replicate_zero (n : Nat) : polynomial (List.replicate n (0 : R)) = 0 := by
  induction n with
  | zero => rfl
  | succ n ih => simp [List.replicate_succ, ih]

theorem polynomial_map {S : Type u} [Semiring S] (φ : R →+* S) (p : List R) :
    polynomial (p.map φ) = (polynomial p).map φ := by
  induction p with
  | nil => simp
  | cons a p ih => simp [ih]

theorem degree_polynomial_lt (p : List R) : (polynomial p).degree < p.length := by
  rw [degree_lt_iff_coeff_zero]
  intro i hi
  rw [coeff_polynomial, List.getD_eq_default _ _ hi]

theorem polynomial_eq_zero_iff (p : List R) : polynomial p = 0 ↔ ∀ a ∈ p, a = 0 := by
  constructor
  · intro h a ha
    obtain ⟨i, hi, rfl⟩ := List.getElem_of_mem ha
    have hc := coeff_polynomial p i
    rwa [h, coeff_zero, List.getD_eq_getElem _ _ hi, eq_comm] at hc
  · intro h
    induction p with
    | nil => rfl
    | cons a p ih =>
        have ha : a = 0 := h a List.mem_cons_self
        have hp : polynomial p = 0 := ih (fun b hb => h b (List.mem_cons_of_mem _ hb))
        simp [ha, hp]

/-- Coefficient lists that agree up to zeros at the end. -/
def Agree (p q : List R) : Prop :=
  ∃ m n, p ++ List.replicate m 0 = q ++ List.replicate n 0

theorem agree_iff (p q : List R) : Agree p q ↔ polynomial p = polynomial q := by
  constructor
  · rintro ⟨m, n, h⟩
    have hp := congrArg polynomial h
    simpa [polynomial_append] using hp
  · intro h
    refine ⟨q.length, p.length, List.ext_getElem (by simp [Nat.add_comm]) ?_⟩
    intro i hi hj
    have hc (l : List R) (n : Nat) (hl : i < (l ++ List.replicate n 0).length) :
        (l ++ List.replicate n 0)[i] = (polynomial l).coeff i := by
      rw [coeff_polynomial, List.getElem_append]
      split
      next hb => rw [List.getD_eq_getElem _ _ hb]
      next hb => rw [List.getElem_replicate, List.getD_eq_default _ _ (by omega)]
    rw [hc, hc, h]

theorem eq_of_agree {p q : List R} (h : Agree p q) (hlen : p.length = q.length) : p = q := by
  obtain ⟨m, n, h⟩ := h
  exact (List.append_inj h hlen).1

end Semiring

section Ring

variable [CommRing R]

theorem getD_padZip (f : R → R → R) (hf : f 0 0 = 0) (p q : List R) (i : Nat) :
    (padZip f p q).getD i 0 = f (p.getD i 0) (q.getD i 0) := by
  induction p generalizing q i with
  | nil =>
      have h : (q.map (f 0)).getD i (f 0 0) = f 0 (q.getD i 0) := List.getD_map _ _ _
      rwa [hf] at h
  | cons a p ih =>
      cases q with
      | nil =>
          cases i with
          | zero => rfl
          | succ i =>
              have h : (p.map (f · 0)).getD i (f 0 0) = f (p.getD i 0) 0 := List.getD_map _ _ (f · 0)
              rwa [hf] at h
      | cons b q =>
          cases i with
          | zero => rfl
          | succ i => exact ih q i

@[simp]
theorem polynomial_add (p q : List R) : polynomial (add p q) = polynomial p + polynomial q := by
  ext i
  simp only [Polynomial.coeff_add, coeff_polynomial]
  exact getD_padZip _ (add_zero 0) p q i

@[simp]
theorem polynomial_sub (p q : List R) : polynomial (sub p q) = polynomial p - polynomial q := by
  ext i
  simp only [Polynomial.coeff_sub, coeff_polynomial]
  exact getD_padZip _ (sub_zero 0) p q i

@[simp]
theorem polynomial_neg (p : List R) : polynomial (neg p) = -polynomial p := by
  induction p with
  | nil => simp [neg]
  | cons a p ih => rw [neg, List.map_cons, ← neg, polynomial_cons, ih, polynomial_cons, C_neg]; ring

theorem polynomial_map_mul (c : R) (p : List R) :
    polynomial (p.map (c * ·)) = C c * polynomial p := by
  induction p with
  | nil => simp
  | cons a p ih => rw [List.map_cons, polynomial_cons, ih, polynomial_cons, C_mul]; ring

@[simp]
theorem polynomial_scale (c : R) (p : List R) : polynomial (scale c p) = C c * polynomial p := by
  simp only [scale, mul_comm _ c, polynomial_map_mul]

theorem polynomial_addFront (acc row : List R) (h : row.length ≤ acc.length) :
    polynomial (addFront acc row) = polynomial acc + polynomial row := by
  induction acc generalizing row with
  | nil => simp [addFront, List.length_eq_zero_iff.1 (Nat.le_zero.1 h)]
  | cons a acc ih =>
      cases row with
      | nil => simp [addFront]
      | cons b row =>
          simp only [addFront, polynomial_cons, ih row (Nat.le_of_succ_le_succ h), C_add]
          ring

theorem polynomial_mulAdd (q p acc : List R) (h : p.length + q.length ≤ acc.length + 1) :
    polynomial (mulAdd q p acc) = polynomial acc + polynomial p * polynomial q := by
  induction p generalizing acc with
  | nil => simp [mulAdd]
  | cons a p ih =>
      have hrow : (q.map (a * ·)).length ≤ acc.length := by
        simp only [List.length_cons, List.length_map] at h ⊢
        omega
      have hfront := polynomial_addFront acc (q.map (a * ·)) hrow
      have hlen := length_addFront acc (q.map (a * ·))
      rw [polynomial_map_mul] at hfront
      rw [mulAdd]
      split
      next hnil =>
        rw [hnil, polynomial_nil] at hfront
        rw [hnil, List.length_nil] at hlen
        have hp : p = [] := List.length_eq_zero_iff.1 (by simp only [List.length_cons] at h; omega)
        rw [hp, polynomial_nil, polynomial_cons, polynomial_nil, mul_zero, add_zero, hfront]
      next c rest hcons =>
        rw [hcons, polynomial_cons] at hfront
        rw [hcons, List.length_cons] at hlen
        rw [polynomial_cons, ih rest (by simp only [List.length_cons] at h; omega), polynomial_cons]
        linear_combination hfront

@[simp]
theorem polynomial_mul (p q : List R) : polynomial (mul p q) = polynomial p * polynomial q := by
  rw [mul, polynomial_mulAdd _ _ _ (by rw [List.length_replicate]; omega), polynomial_replicate_zero,
    zero_add]

theorem polynomial_mul? (p : Option (List R)) (q : List R) :
    polynomial (mul? p q) = (p.map polynomial).getD 1 * polynomial q := by
  cases p <;> simp [mul?]

theorem polynomial_powLoop (acc : Option (List R)) (base : List R) (n : Nat) (hn : 0 < n) :
    polynomial (powLoop acc base n) = (acc.map polynomial).getD 1 * polynomial base ^ n := by
  induction n using Nat.strongRecOn generalizing acc base with
  | ind n ih =>
      rw [powLoop]
      split
      next h =>
        have hone : n = 1 := by omega
        rw [polynomial_mul?, hone, pow_one]
      next h =>
        have hsq : (polynomial base * polynomial base) ^ (n / 2) = polynomial base ^ (2 * (n / 2)) := by
          rw [← pow_two, ← pow_mul]
        rw [ih (n / 2) (by omega) _ _ (by omega), polynomial_mul, hsq]
        split
        next hodd =>
          have hn' : n = 2 * (n / 2) + 1 := by omega
          rw [Option.map_some, Option.getD_some, polynomial_mul?]
          conv_rhs => rw [hn', pow_succ]
          ring
        next heven =>
          have hn' : n = 2 * (n / 2) := by omega
          rw [← hn']

@[simp]
theorem polynomial_pow (p : List R) (n : Nat) : polynomial (pow p n) = polynomial p ^ n := by
  rw [pow]
  split
  next h => simp [h]
  next h => simp [polynomial_powLoop none p n (Nat.pos_of_ne_zero h)]

theorem polynomial_composeLoop (u p power acc : List R) :
    polynomial (composeLoop scale u p power acc) =
      polynomial acc + polynomial power * (polynomial p).comp (polynomial u) := by
  induction p generalizing power acc with
  | nil => simp [composeLoop]
  | cons c p ih =>
      rw [composeLoop, ih, polynomial_mul, polynomial_add, polynomial_scale, polynomial_cons, add_comp,
        mul_comp, C_comp, X_comp]
      ring

@[simp]
theorem polynomial_compose (p u : List R) :
    polynomial (compose p u) = (polynomial p).comp (polynomial u) := by
  cases p with
  | nil => simp [compose, composeWith]
  | cons c p =>
      rw [compose, composeWith, polynomial_composeLoop, polynomial_cons c p, add_comp, mul_comp, C_comp,
        X_comp]
      simp

theorem polynomial_zipWith_add (p q : List R) (h : p.length = q.length) :
    polynomial (List.zipWith (· + ·) p q) = polynomial p + polynomial q := by
  induction p generalizing q with
  | nil => simp [List.length_eq_zero_iff.1 h.symm]
  | cons a p ih =>
      cases q with
      | nil => cases h
      | cons b q =>
          rw [List.zipWith_cons_cons, polynomial_cons, ih q (Nat.succ.inj h), polynomial_cons,
            polynomial_cons, C_add]
          ring

theorem polynomial_timesRoot (p : List R) (r : R) :
    polynomial (timesRoot p r) = polynomial p * (X - C r) := by
  rw [timesRoot, polynomial_zipWith_add _ _ (by simp), polynomial_scale, polynomial_append]
  simp only [polynomial_cons, polynomial_nil, C_0, C_neg]
  ring

@[simp]
theorem polynomial_fromRoots (roots : List R) :
    polynomial (fromRoots roots) = (roots.map fun r => X - C r).prod := by
  have hfold (p : List R) :
      polynomial (roots.foldl timesRoot p) = polynomial p * (roots.map fun r => X - C r).prod := by
    induction roots generalizing p with
    | nil => simp
    | cons r roots ih =>
        rw [List.foldl_cons, ih, polynomial_timesRoot, List.map_cons, List.prod_cons, mul_assoc]
  rw [fromRoots, hfold]
  simp

end Ring

section Degree

variable [Semiring R] [BEq R] [LawfulBEq R]

theorem lastIndex?_nonzero (p : List R) :
    (lastIndex? (· != 0) p = none ∧ polynomial p = 0) ∨
      (lastIndex? (· != 0) p = some (polynomial p).natDegree ∧ polynomial p ≠ 0) := by
  induction p with
  | nil => exact .inl ⟨rfl, rfl⟩
  | cons c p ih =>
      rcases ih with ⟨hi, hp⟩ | ⟨hi, hp⟩
      · by_cases hc : c = 0
        · left
          simp [lastIndex?, hi, hp, hc]
        · right
          simp [lastIndex?, hi, hp, hc]
      · right
        have := Nontrivial.of_polynomial_ne hp
        have hdeg : (polynomial (c :: p)).natDegree = (polynomial p).natDegree + 1 := by
          rw [polynomial_cons, natDegree_C_add, natDegree_X_mul hp]
        refine ⟨by rw [lastIndex?, hi, hdeg], ?_⟩
        intro h
        rw [h, natDegree_zero] at hdeg
        omega

theorem degree_eq_natDegree (p : List R) : degree p = (polynomial p).natDegree := by
  rcases lastIndex?_nonzero p with ⟨hi, hp⟩ | ⟨hi, _⟩
  · rw [degree, hi, hp, natDegree_zero, Option.getD_none]
  · rw [degree, hi, Option.getD_some]

theorem degree_lt_length {p : List R} (hp : polynomial p ≠ 0) : degree p < p.length := by
  rcases lastIndex?_nonzero p with ⟨_, h⟩ | ⟨hi, _⟩
  · exact absurd h hp
  · rw [degree_eq_natDegree]
    exact lastIndex?_lt hi

theorem polynomial_take_degree (p : List R) : polynomial (p.take (degree p + 1)) = polynomial p := by
  ext i
  rw [coeff_polynomial, coeff_polynomial]
  by_cases hi : i < degree p + 1
  · simp [List.getD_eq_getElem?_getD, hi]
  · have hz : p.getD i 0 = 0 := by
      rw [← coeff_polynomial]
      exact coeff_eq_zero_of_natDegree_lt (by rw [← degree_eq_natDegree]; omega)
    rw [hz, List.getD_eq_default _ _ (by rw [List.length_take]; omega)]

end Degree

end Coeffs

end PolyRoots
