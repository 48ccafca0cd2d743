import Mathlib.Algebra.Polynomial.Roots
import PolyRoots.Proofs.Coeffs.Congruence
import PolyRoots.Proofs.Coeffs.Interpolation
import PolyRoots.Proofs.Coeffs.Trailing
import PolyRoots.Proofs.Poly.RingLaws

universe u

namespace PolyRoots

namespace Coeffs

open Polynomial

/-- Polynomials from roots as products of monic factors. All equations are between lists, so there are no zeros at the
end on either side. -/
structure RootProductLaws (R : Type u) [Zero R] [One R] [Add R] [Mul R] [Neg R] [BEq R] : Prop where
  length_fromRoots (r : List R) : (fromRoots r).length = r.length + 1
  getLast?_fromRoots (r : List R) : (fromRoots r).getLast? = some 1
  leading?_fromRoots (r : List R) : leading? (fromRoots r) = some 1
  fromRoots_perm {r s : List R} : r.Perm s → fromRoots r = fromRoots s
  fromRoots_append (r s : List R) : fromRoots (r ++ s) = mul (fromRoots r) (fromRoots s)

/-- The zeros of a polynomial from roots, and what is left of it after division by the factor of one of them. -/
structure RootDivisionLaws (K : Type u) [Field K] [BEq K] [Extended K] : Prop where
  evaluate_eq_zero_iff (r : List K) (x : K) : evaluate (fromRoots r) x = 0 ↔ x ∈ r
  divMod?_linear (r : List K) {i : Nat} (h : i < r.length) :
    divMod? (fromRoots r) [-r[i], 1] = some (fromRoots (r.eraseIdx i), [0])

theorem fromRoots_ne_nil {R : Type u} [Zero R] [One R] [Add R] [Mul R] [Neg R] (r : List R) : fromRoots r ≠ [] :=
  List.ne_nil_of_length_eq_add_one (length_fromRoots r)

section Ring

variable {R : Type u} [CommRing R]

theorem fromRoots_concat (r : List R) (x : R) : fromRoots (r ++ [x]) = timesRoot (fromRoots r) x :=
  List.foldl_concat timesRoot [1] x r

theorem timesRoot_concat (p : List R) (c x : R) : ∃ q, timesRoot (p ++ [c]) x = q ++ [c] := by
  refine ⟨List.zipWith (· + ·) (0 :: p) (scale (-x) (p ++ [c])), ?_⟩
  rw [timesRoot, scale, List.map_append, ← List.cons_append, List.zipWith_append (by simp), scale]
  simp

theorem exists_fromRoots_eq (r : List R) : ∃ p, fromRoots r = p ++ [1] := by
  induction r using List.reverseRecOn with
  | nil => exact ⟨[], rfl⟩
  | append_singleton r x ih =>
      obtain ⟨p, hp⟩ := ih
      rw [fromRoots_concat, hp]
      exact timesRoot_concat p 1 x

theorem fromRoots_singleton (x : R) : fromRoots [x] = [-x, 1] := by
  simp [fromRoots, timesRoot, scale]

theorem monic_polynomial_fromRoots (r : List R) : (polynomial (fromRoots r)).Monic := by
  rw [polynomial_fromRoots]
  exact monic_multisetProd_X_sub_C (r : Multiset R)

theorem getLast?_fromRoots_eq (r : List R) : (fromRoots r).getLast? = some 1 := by
  obtain ⟨p, hp⟩ := exists_fromRoots_eq r
  rw [hp, List.getLast?_concat]

theorem fromRoots_eq_of_perm {r s : List R} (h : r.Perm s) : fromRoots r = fromRoots s := by
  apply eq_of_polynomial
  · rw [length_fromRoots, length_fromRoots, h.length_eq]
  · rw [polynomial_fromRoots, polynomial_fromRoots]
    exact (h.map _).prod_eq

theorem fromRoots_append_eq (r s : List R) : fromRoots (r ++ s) = mul (fromRoots r) (fromRoots s) := by
  apply eq_of_polynomial
  · simp only [length_mul, length_fromRoots, List.length_append]
    omega
  · rw [polynomial_mul, polynomial_fromRoots, polynomial_fromRoots, polynomial_fromRoots, List.map_append,
      List.prod_append]

theorem leading?_fromRoots_eq [BEq R] [LawfulBEq R] (r : List R) : leading? (fromRoots r) = some 1 := by
  rw [leading?_eq (fromRoots_ne_nil r), (monic_polynomial_fromRoots r).leadingCoeff]

theorem degree_fromRoots [BEq R] [LawfulBEq R] [Nontrivial R] (r : List R) : degree (fromRoots r) = r.length := by
  obtain ⟨p, hp⟩ := exists_fromRoots_eq r
  have hlen := length_fromRoots r
  rw [hp, List.length_append] at hlen
  rw [hp, degree_concat p (beq_false_of_ne one_ne_zero)]
  exact Nat.succ.inj hlen

theorem rootProductLaws (R : Type u) [CommRing R] [BEq R] [LawfulBEq R] : RootProductLaws R where
  length_fromRoots := length_fromRoots
  getLast?_fromRoots := getLast?_fromRoots_eq
  leading?_fromRoots := leading?_fromRoots_eq
  fromRoots_perm := fromRoots_eq_of_perm
  fromRoots_append := fromRoots_append_eq

end Ring

theorem rootProductLaws_int64 : RootProductLaws Int64 := @rootProductLaws Int64 wrappingRing _ _

section Field

variable {K : Type u} [Field K] [BEq K] [LawfulBEq K]

/-- Division by some of the factors leaves the product of the others, and as many zeros as there were factors. -/
theorem divMod?_fromRoots_append {r : List K} (hr : r ≠ []) (s : List K) :
    divMod? (fromRoots (r ++ s)) (fromRoots r) = some (fromRoots s, List.replicate r.length 0) := by
  have hpos : 0 < r.length := List.length_pos_iff.2 hr
  have hdeg : degree (fromRoots r) = r.length := degree_fromRoots r
  have hdeg' : degree (fromRoots (r ++ s)) = r.length + s.length := by rw [degree_fromRoots, List.length_append]
  have hne : polynomial (fromRoots r) ≠ 0 := (monic_polynomial_fromRoots r).ne_zero
  have hdivision : IsDivision (fromRoots (r ++ s)) (fromRoots r) (fromRoots s) (List.replicate r.length 0) := by
    rw [isDivision_iff hne, fromRoots_append_eq, polynomial_mul, polynomial_replicate_zero, add_zero,
      Polynomial.degree_zero]
    exact ⟨rfl, bot_lt_iff_ne_bot.2 (Polynomial.degree_ne_bot.2 hne)⟩
  -- the division that is computed is this one, first up to zeros at the end and then by the lengths
  obtain ⟨t, u, heq, hdivision', -⟩ := divMod?_spec (fromRoots (r ++ s)) (fromRoots r) hne
  obtain ⟨ht, hu⟩ := hdivision'.unique hne hdivision
  obtain ⟨htlen, hulen⟩ := length_divMod? (by omega) (by omega) heq
  have hts : t = fromRoots s := eq_of_agree ht (by rw [length_fromRoots]; omega)
  have hur : u = List.replicate r.length 0 := eq_of_agree hu (by rw [List.length_replicate]; omega)
  rw [heq, hts, hur]

theorem divMod?_fromRoots_linear (r : List K) {i : Nat} (h : i < r.length) :
    divMod? (fromRoots r) [-r[i], 1] = some (fromRoots (r.eraseIdx i), [0]) := by
  have hperm : r.Perm ([r[i]] ++ r.eraseIdx i) := (List.getElem_cons_eraseIdx_perm h).symm
  rw [← fromRoots_singleton, fromRoots_eq_of_perm hperm]
  exact divMod?_fromRoots_append (List.cons_ne_nil _ _) _

theorem evaluate_fromRoots_eq_zero_iff [Extended K] [Extended.Exact K] (r : List K) (x : K) :
    evaluate (fromRoots r) x = 0 ↔ x ∈ r := by
  rw [evaluate_eq, polynomial_fromRoots, Polynomial.eval_list_prod, List.prod_eq_zero_iff]
  simp [sub_eq_zero]

theorem rootDivisionLaws (K : Type u) [Field K] [BEq K] [LawfulBEq K] [Extended K] [Extended.Exact K] :
    RootDivisionLaws K where
  evaluate_eq_zero_iff := evaluate_fromRoots_eq_zero_iff
  divMod?_linear := divMod?_fromRoots_linear

end Field

end Coeffs

theorem PolyBatch.coeffs_ofList {α : Type u} [Inhabited α] (l : List α) : (ofList l).coeffs = .ofList l := by
  refine congrArg (Batch.mk [l.length]) (Grid.ext fun i => ?_)
  refine (List.getD_eq_getElem l default i.1.isLt).symm.trans ?_
  exact (Grid.get_ofSeq (s := [l.length]) (fun k => l.getD k default) i).symm

namespace Poly

theorem fromRoots_of_ne_flag {f : Format} (hf : f ≠ .flag) (r : List f.Elem) :
    fromRoots ⟨f, (PolyBatch.ofList r).coeffs⟩ = .ok (ofList f (Coeffs.fromRoots r)) := by
  refine (fromRoots_eq f (PolyBatch.ofList r).rows).trans ?_
  rw [if_neg fun h => hf h.2]
  have hlist := (PolyBatch.fromRoots?_eq_lift (.ofList r)).trans
    (congrArg some (PolyBatch.lift_ofList Coeffs.length_fromRoots r))
  exact congrArg (fun b => fitted b >>= fun b => pure (Poly.mk f b)) hlist

theorem fromRoots_int64 (r : List Int64) :
    fromRoots ⟨.int64, .ofList r⟩ = .ok (ofList .int64 (Coeffs.fromRoots r)) := by
  rw [← PolyBatch.coeffs_ofList]
  exact fromRoots_of_ne_flag (f := .int64) (by decide) r

theorem fromRoots_append_int64 (r s : List Int64) : fromRoots ⟨.int64, .ofList (r ++ s)⟩ =
    fromRoots ⟨.int64, .ofList r⟩ >>= fun p => fromRoots ⟨.int64, .ofList s⟩ >>= fun q => p.mul q := by
  rw [fromRoots_int64, fromRoots_int64, fromRoots_int64, Coeffs.rootProductLaws_int64.fromRoots_append]
  exact (mul_int64 _ _ (Coeffs.fromRoots_ne_nil r)).symm

theorem fromRoots_perm_int64 {r s : List Int64} (h : r.Perm s) :
    fromRoots ⟨.int64, .ofList r⟩ = fromRoots ⟨.int64, .ofList s⟩ := by
  rw [fromRoots_int64, fromRoots_int64, Coeffs.rootProductLaws_int64.fromRoots_perm h]

/-- Over every commutative ring, the polynomial from a list of roots is the monic product of their factors. Polynomials
of integers that wrap around are computed as such lists, and are such products too. Over a field the product can be
taken apart again at its zeros, which are the roots. -/
theorem monic_product_of_roots :
    (∀ (R : Type u) [CommRing R] [BEq R] [LawfulBEq R], Coeffs.RootProductLaws R) ∧
      (∀ (K : Type u) [Field K] [BEq K] [LawfulBEq K] [Extended K] [Extended.Exact K], Coeffs.RootDivisionLaws K) ∧
      Coeffs.RootProductLaws Int64 ∧
      ∀ r s : List Int64,
        fromRoots ⟨.int64, .ofList r⟩ = .ok (ofList .int64 (Coeffs.fromRoots r)) ∧
          (r.Perm s → fromRoots ⟨.int64, .ofList r⟩ = fromRoots ⟨.int64, .ofList s⟩) ∧
          fromRoots ⟨.int64, .ofList (r ++ s)⟩ =
            fromRoots ⟨.int64, .ofList r⟩ >>= fun p => fromRoots ⟨.int64, .ofList s⟩ >>= fun q => p.mul q :=
  ⟨fun R => Coeffs.rootProductLaws R, fun K => Coeffs.rootDivisionLaws K, Coeffs.rootProductLaws_int64,
    fun r s => ⟨fromRoots_int64 r, fromRoots_perm_int64, fromRoots_append_int64 r s⟩⟩

theorem monic_product_of_roots_wraps :
    LawfulBEq ℚ ∧ Extended.Exact ℚ ∧
      ([4, 4611686018427387904] : List Int64).Perm [4611686018427387904, 4] ∧
      fromRoots ⟨.int64, .ofList [4, 4611686018427387904]⟩ = .ok (ofList .int64 [0, -4611686018427387908, 1]) ∧
      Coeffs.divMod? (Coeffs.fromRoots ([2, -1, 2] : List ℚ)) [-2, 1] = some ([-2, -1, 1], [0]) := by
  obtain ⟨-, hdivision, -, hint64⟩ := monic_product_of_roots.{0}
  have hperm : ([4, 4611686018427387904] : List Int64).Perm [4611686018427387904, 4] := List.Perm.swap _ _ _
  have hvalue : Coeffs.fromRoots ([4611686018427387904, 4] : List Int64) = [0, -4611686018427387908, 1] := by
    decide
  have hquotient : Coeffs.fromRoots ([2, -1] : List ℚ) = [-2, -1, 1] := by
    decide +kernel
  refine ⟨inferInstance, inferInstance, hperm, ?_, ?_⟩
  · rw [(hint64 _ _).2.1 hperm, (hint64 _ []).1, hvalue]
  · have hlinear := (hdivision ℚ).divMod?_linear [2, -1, 2] (i := 2) (by decide)
    rw [← hquotient]
    exact hlinear

end Poly

end PolyRoots
