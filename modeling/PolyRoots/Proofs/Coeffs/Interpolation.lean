import Mathlib.LinearAlgebra.Lagrange
import PolyRoots.Proofs.Coeffs.Evaluate

universe u

namespace PolyRoots

namespace Coeffs

open Polynomial

section Nodes

variable {α : Type u}

theorem map_fst_withOthers (l : List α) : (withOthers l).map Prod.fst = l := by
  induction l with
  | nil => rfl
  | cons a l ih =>
      rw [withOthers, List.map_cons, List.map_map]
      exact congrArg (a :: ·) ih

theorem perm_of_mem_withOthers {l : List α} {t : α × List α} (h : t ∈ withOthers l) :
    (t.1 :: t.2).Perm l := by
  induction l generalizing t with
  | nil => cases h
  | cons a l ih =>
      rcases List.mem_cons.1 h with rfl | h
      · exact .refl _
      · obtain ⟨s, hs, rfl⟩ := List.mem_map.1 h
        exact (List.Perm.swap a s.1 s.2).trans ((ih hs).cons a)

theorem distinct_iff_nodup [BEq α] [LawfulBEq α] (l : List α) : distinct l = true ↔ l.Nodup := by
  induction l with
  | nil => simp [distinct]
  | cons a l ih =>
      rw [distinct, Bool.and_eq_true, ih, List.nodup_cons, List.all_eq_true]
      refine and_congr_left' ⟨fun h ha => ?_, fun h b hb => ?_⟩
      · simpa using h a ha
      · rw [Bool.not_eq_true', beq_eq_false_iff_ne]
        rintro rfl
        exact h hb

end Nodes

section Lagrange

variable {K : Type u} [Field K]

/-- The summand for one point: its value times the factors of the other nodes. -/
def lagrangeTerm (x : K) (others : List K) (y : K) : List K :=
  others.foldl (fun basis x' => mul basis (nodeFactor id x x')) [y]

theorem interpolate_eq (xs ys : List K) : interpolate id xs ys =
    ((withOthers xs).zip ys).foldl (fun acc t => add acc (lagrangeTerm t.1.1 t.1.2 t.2)) [0] := rfl

theorem eval_nodeFactor (x x' z : K) :
    (polynomial (nodeFactor id x x')).eval z = (z - x') / (x - x') := by
  simp only [nodeFactor, id, polynomial_cons, polynomial_nil, eval_add, eval_mul, eval_C, eval_X, eval_zero]
  ring

theorem eval_lagrangeTerm (x : K) (others : List K) (y z : K) :
    (polynomial (lagrangeTerm x others y)).eval z =
      y * (others.map fun x' => (z - x') / (x - x')).prod := by
  have hfold (basis : List K) :
      (polynomial (others.foldl (fun basis x' => mul basis (nodeFactor id x x')) basis)).eval z =
        (polynomial basis).eval z * (others.map fun x' => (z - x') / (x - x')).prod := by
    induction others generalizing basis with
    | nil => simp
    | cons x' others ih =>
        rw [List.foldl_cons, ih, polynomial_mul, eval_mul, eval_nodeFactor, List.map_cons, List.prod_cons,
          mul_assoc]
  rw [lagrangeTerm, hfold]
  simp

theorem eval_lagrangeTerm_self {x : K} {others : List K} (h : x ∉ others) (y : K) :
    (polynomial (lagrangeTerm x others y)).eval x = y := by
  have hone : ∀ f ∈ others.map fun x' => (x - x') / (x - x'), f = 1 := by
    intro f hf
    obtain ⟨x', hx', rfl⟩ := List.mem_map.1 hf
    exact div_self (sub_ne_zero.2 (ne_of_mem_of_not_mem hx' h).symm)
  rw [eval_lagrangeTerm, List.prod_eq_one hone, mul_one]

theorem eval_lagrangeTerm_other {z : K} {others : List K} (h : z ∈ others) (x y : K) :
    (polynomial (lagrangeTerm x others y)).eval z = 0 := by
  have hzero : (0 : K) ∈ others.map fun x' => (z - x') / (x - x') :=
    List.mem_map.2 ⟨z, h, by rw [sub_self, zero_div]⟩
  rw [eval_lagrangeTerm, List.prod_eq_zero hzero, mul_zero]

theorem length_lagrangeTerm (x : K) (others : List K) (y : K) :
    (lagrangeTerm x others y).length = others.length + 1 := by
  have hfold (basis : List K) :
      (others.foldl (fun basis x' => mul basis (nodeFactor id x x')) basis).length =
        basis.length + others.length := by
    induction others generalizing basis with
    | nil => rfl
    | cons x' others ih =>
        rw [List.foldl_cons, ih, length_mul, List.length_cons]
        simp only [nodeFactor, List.length_cons, List.length_nil]
        omega
  rw [lagrangeTerm, hfold, List.length_singleton, Nat.add_comm]

theorem polynomial_foldl_add {β : Type u} (term : β → List K) (l : List β) (acc : List K) :
    polynomial (l.foldl (fun acc t => add acc (term t)) acc) =
      polynomial acc + (l.map fun t => polynomial (term t)).sum := by
  induction l generalizing acc with
  | nil => simp
  | cons t l ih => rw [List.foldl_cons, ih, polynomial_add, List.map_cons, List.sum_cons, add_assoc]

theorem length_foldl_add {β : Type u} {term : β → List K} {l : List β} {n : Nat}
    (h : ∀ t ∈ l, (term t).length = n) {acc : List K} (hacc : acc.length = n) :
    (l.foldl (fun acc t => add acc (term t)) acc).length = n := by
  induction l generalizing acc with
  | nil => exact hacc
  | cons t l ih =>
      rw [List.forall_mem_cons] at h
      exact ih h.2 (by rw [length_add, hacc, h.1, Nat.max_self])

theorem length_interpolate {xs ys : List K} (hne : xs ≠ []) (hlen : xs.length = ys.length) :
    (interpolate id xs ys).length = xs.length := by
  have hterm : ∀ t ∈ (withOthers xs).zip ys, (lagrangeTerm t.1.1 t.1.2 t.2).length = xs.length := by
    intro t ht
    rw [length_lagrangeTerm, ← List.length_cons]
    exact (perm_of_mem_withOthers (List.of_mem_zip ht).1).length_eq
  rw [interpolate_eq]
  match xs, ys, hne, hlen with
  | x :: xs, y :: ys, _, _ =>
      rw [withOthers, List.zip_cons_cons] at hterm ⊢
      rw [List.forall_mem_cons] at hterm
      -- the first summand is already as long as the result
      exact length_foldl_add hterm.2 (by rw [length_add, hterm.1]; simp)

theorem sum_ite_zip [DecidableEq K] {xs ys : List K} (hxs : xs.Nodup) {t : K × K} (ht : t ∈ xs.zip ys) :
    ((xs.zip ys).map fun s => if t.1 = s.1 then s.2 else 0).sum = t.2 := by
  induction xs generalizing ys with
  | nil => cases ht
  | cons x xs ih =>
      cases ys with
      | nil => cases ht
      | cons y ys =>
          rw [List.nodup_cons] at hxs
          rw [List.zip_cons_cons] at ht ⊢
          rw [List.map_cons, List.sum_cons]
          rcases List.mem_cons.1 ht with rfl | ht
          · have hrest : ∀ a ∈ (xs.zip ys).map fun s => if x = s.1 then s.2 else 0, a = 0 := by
              intro a ha
              obtain ⟨s, hs, rfl⟩ := List.mem_map.1 ha
              exact if_neg (ne_of_mem_of_not_mem (List.of_mem_zip hs).1 hxs.1).symm
            rw [if_pos rfl, List.sum_eq_zero hrest, add_zero]
          · have hx : t.1 ≠ x := ne_of_mem_of_not_mem (List.of_mem_zip ht).1 hxs.1
            rw [if_neg hx, ih hxs.2 ht, zero_add]

theorem eval_interpolate {xs ys : List K} (hxs : xs.Nodup) {t : K × K} (ht : t ∈ xs.zip ys) :
    (polynomial (interpolate id xs ys)).eval t.1 = t.2 := by
  classical
  have hterm : ∀ s ∈ (withOthers xs).zip ys,
      (polynomial (lagrangeTerm s.1.1 s.1.2 s.2)).eval t.1 = if t.1 = s.1.1 then s.2 else 0 := by
    intro s hs
    have hperm := perm_of_mem_withOthers (List.of_mem_zip hs).1
    obtain ⟨hself, _⟩ := List.nodup_cons.1 (hperm.nodup_iff.2 hxs)
    split
    next heq => rw [heq, eval_lagrangeTerm_self hself]
    next hne =>
      have hmem : t.1 ∈ s.1.1 :: s.1.2 := hperm.mem_iff.2 (List.of_mem_zip ht).1
      exact eval_lagrangeTerm_other ((List.mem_cons.1 hmem).resolve_left hne) _ _
  have hpoints : xs.zip ys = ((withOthers xs).zip ys).map (Prod.map Prod.fst id) := by
    rw [← List.zip_map_left, map_fst_withOthers]
  have hsum := sum_ite_zip hxs ht
  rw [hpoints, List.map_map] at hsum
  rw [interpolate_eq, polynomial_foldl_add, eval_add, eval_listSum, List.map_map]
  simp only [polynomial_cons, polynomial_nil, C_0, mul_zero, add_zero, eval_zero, zero_add]
  rw [← hsum]
  exact congrArg List.sum (List.map_congr_left hterm)

end Lagrange

section Unique

variable {K : Type u} [Field K] [BEq K] [LawfulBEq K] [Extended K]

structure Interpolates (p : List K) (points : List (K × K)) : Prop where
  degree_lt : degree p < points.length
  evaluate_eq : ∀ t ∈ points, evaluate p t.1 = t.2

omit [Extended K] in
theorem degree_polynomial_lt_of_degree_lt {p : List K} {n : Nat} (h : degree p < n) :
    (polynomial p).degree < n := by
  rw [degree_eq_natDegree] at h
  exact degree_le_natDegree.trans_lt (Nat.cast_lt.2 h)

theorem Interpolates.unique [Extended.Exact K] {p q : List K} {xs ys : List K} (hxs : xs.Nodup)
    (hlen : xs.length = ys.length) (hp : Interpolates p (xs.zip ys)) (hq : Interpolates q (xs.zip ys)) :
    Agree p q := by
  classical
  have hcard : xs.toFinset.card = (xs.zip ys).length := by
    rw [List.toFinset_card_of_nodup hxs, List.length_zip, ← hlen, Nat.min_self]
  rw [agree_iff]
  refine eq_of_degrees_lt_of_eval_finset_eq xs.toFinset ?_ ?_ ?_
  · rw [hcard]
    exact degree_polynomial_lt_of_degree_lt hp.degree_lt
  · rw [hcard]
    exact degree_polynomial_lt_of_degree_lt hq.degree_lt
  · intro x hx
    obtain ⟨i, hi, rfl⟩ := List.getElem_of_mem (List.mem_toFinset.1 hx)
    have hi' : i < (xs.zip ys).length := by rw [List.length_zip]; omega
    have ht : (xs[i], ys[i]) ∈ xs.zip ys := List.getElem_zip (h := hi') ▸ List.getElem_mem hi'
    rw [← Coeffs.evaluate_eq, ← Coeffs.evaluate_eq, hp.evaluate_eq _ ht, hq.evaluate_eq _ ht]

theorem interpolates_interpolate [Extended.Exact K] {xs ys : List K} (hne : xs ≠ [])
    (hlen : xs.length = ys.length) (hxs : xs.Nodup) :
    Interpolates (interpolate id xs ys) (xs.zip ys) where
  degree_lt := by
    have hle := degree_le_length (interpolate id xs ys)
    have hpos := List.length_pos_iff.2 hne
    rw [length_interpolate hne hlen] at hle
    rw [List.length_zip]
    omega
  evaluate_eq t ht := by rw [Coeffs.evaluate_eq, eval_interpolate hxs ht]

omit [LawfulBEq K] in
theorem interpolates_samples {q : List K} {xs : List K} (hne : xs ≠ []) (hq : q.length ≤ xs.length) :
    Interpolates q (xs.zip (xs.map (evaluate q))) where
  degree_lt := by
    have hle := degree_le_length q
    have hpos := List.length_pos_iff.2 hne
    rw [List.length_zip, List.length_map]
    omega
  evaluate_eq t ht := by
    rw [← List.map_prod_left_eq_zip] at ht
    obtain ⟨x, hx, rfl⟩ := List.mem_map.1 ht
    rfl

omit [LawfulBEq K] in
theorem Interpolates.perm {p : List K} {points points' : List (K × K)} (h : points'.Perm points)
    (hp : Interpolates p points) : Interpolates p points' where
  degree_lt := h.length_eq ▸ hp.degree_lt
  evaluate_eq t ht := hp.evaluate_eq t (h.mem_iff.1 ht)

theorem interpolate_perm [Extended.Exact K] {xs ys xs' ys' : List K} (hne : xs ≠ [])
    (hlen : xs.length = ys.length) (hxs : xs.Nodup) (hlen' : xs'.length = ys'.length)
    (h : (xs'.zip ys').Perm (xs.zip ys)) : interpolate id xs' ys' = interpolate id xs ys := by
  have hnodes : xs'.Perm xs := by
    have hfst := h.map Prod.fst
    rwa [List.map_fst_zip hlen'.le, List.map_fst_zip hlen.le] at hfst
  have hne' : xs' ≠ [] := fun hnil => hne (by rw [hnil] at hnodes; exact hnodes.nil_eq.symm)
  have hxs' : xs'.Nodup := hnodes.nodup_iff.2 hxs
  refine eq_of_agree (Interpolates.unique hxs hlen ?_ (interpolates_interpolate hne hlen hxs)) ?_
  · exact (interpolates_interpolate hne' hlen' hxs').perm h.symm
  · rw [length_interpolate hne' hlen', length_interpolate hne hlen, hnodes.length_eq]

/-- Through points with distinct nodes passes exactly one polynomial of lower degree than their number,
and interpolation returns it with as many coefficients as there are points. So it recovers a polynomial
from its values, and the order of the points does not matter. -/
theorem interpolate_existsUnique [Extended.Exact K] {xs ys : List K} (hne : xs ≠ [])
    (hlen : xs.length = ys.length) (hxs : xs.Nodup) :
    distinct xs = true ∧ (interpolate id xs ys).length = xs.length ∧
      Interpolates (interpolate id xs ys) (xs.zip ys) ∧
      (∀ q, Interpolates q (xs.zip ys) → Agree q (interpolate id xs ys)) ∧
      (∀ q, q.length ≤ xs.length → Agree (interpolate id xs (xs.map (evaluate q))) q) ∧
      ∀ xs' ys', xs'.length = ys'.length → (xs'.zip ys').Perm (xs.zip ys) →
        interpolate id xs' ys' = interpolate id xs ys := by
  have hown := interpolates_interpolate hne hlen hxs
  refine ⟨(distinct_iff_nodup xs).2 hxs, length_interpolate hne hlen, hown, ?_, ?_, ?_⟩
  · exact fun q hq => hq.unique hxs hlen hown
  · intro q hq
    have hsamples : xs.length = (xs.map (evaluate q)).length := (List.length_map _).symm
    exact (interpolates_interpolate hne hsamples hxs).unique hxs hsamples (interpolates_samples hne hq)
  · exact fun xs' ys' hlen' h => interpolate_perm hne hlen hxs hlen' h

end Unique

instance instExtendedRat : Extended ℚ where
  isNaN _ := false
  isInf _ := false
  nan := 0
  infinity := 0
  sign x := if 0 < x then 1 else if x < 0 then -1 else 0

instance instExactRat : Extended.Exact ℚ where
  isNaN_eq_false _ := rfl
  isInf_eq_false _ := rfl

theorem interpolate_existsUnique_parabola :
    ([0, 1, 2] : List ℚ).Nodup ∧
      Interpolates (interpolate id [0, 1, 2] [1, 3, 7]) [(0, 1), (1, 3), ((2 : ℚ), 7)] ∧
      interpolate id [2, 0, 1] [7, 1, (3 : ℚ)] = interpolate id [0, 1, 2] [1, 3, 7] := by
  have hxs : ([0, 1, 2] : List ℚ).Nodup := by decide
  obtain ⟨_, _, hown, _, _, hperm⟩ :=
    @interpolate_existsUnique ℚ _ _ _ _ _ [0, 1, 2] [1, 3, 7] (List.cons_ne_nil _ _) rfl hxs
  exact ⟨hxs, hown, hperm [2, 0, 1] [7, 1, 3] rfl (by decide)⟩

example : interpolate id [0, 1, (2 : ℚ)] [1, 3, 7] = [1, 1, 1] := by decide +kernel

end Coeffs

end PolyRoots
