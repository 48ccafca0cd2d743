import PolyRoots.Proofs.Poly.Filled
import PolyRoots.Proofs.Poly.Promotion
import PolyRoots.Proofs.Poly.RingLaws

universe u

namespace PolyRoots

namespace Coeffs

/-- The laws of substitution, where lists are told apart even if they differ in zeros at the end only. -/
structure CompositionLaws (R : Type u) [Zero R] [One R] [Add R] [Mul R] : Prop where
  length_compose {p : List R} (u : List R) : p ≠ [] →
    (compose p u).length = (p.length - 1) * (u.length - 1) + 1
  compose_assoc (p u v : List R) : compose (compose p u) v = compose p (compose u v)
  compose_x (p : List R) : compose p [0, 1] = p
  x_compose {u : List R} : u ≠ [] → compose [0, 1] u = u
  add_compose (p q u : List R) : compose (add p q) u = add (compose p u) (compose q u)
  mul_compose {p q : List R} (u : List R) : p ≠ [] → q ≠ [] →
    compose (mul p q) u = mul (compose p u) (compose q u)

theorem composeLength_of_pos {n : Nat} (m : Nat) (hn : 0 < n) : composeLength n m = (n - 1) * (m - 1) + 1 :=
  if_neg hn.ne'

theorem composeLength_sub_one (n m : Nat) : composeLength n m - 1 = (n - 1) * (m - 1) := by
  cases n with
  | zero => simp [composeLength]
  | succ n => rw [composeLength_of_pos m n.succ_pos, Nat.add_sub_cancel]

theorem composeLength_mono (m : Nat) : Monotone (composeLength · m) := by
  intro k n hkn
  rcases Nat.eq_zero_or_pos k with rfl | hk
  · exact Nat.zero_le _
  · change composeLength k m ≤ composeLength n m
    rw [composeLength_of_pos m hk, composeLength_of_pos m (hk.trans_le hkn)]
    exact Nat.succ_le_succ (Nat.mul_le_mul_right _ (Nat.sub_le_sub_right hkn 1))

theorem composeLength_assoc (k n m : Nat) :
    composeLength (composeLength k n) m = composeLength k (composeLength n m) := by
  rcases Nat.eq_zero_or_pos k with rfl | hk
  · rfl
  · have hpos : 0 < composeLength k n := by
      rw [composeLength_of_pos n hk]
      exact Nat.succ_pos _
    rw [composeLength_of_pos m hpos, composeLength_sub_one, composeLength_of_pos _ hk, composeLength_sub_one,
      Nat.mul_assoc]

section Ring

variable {R : Type u} [CommRing R]

theorem length_compose_eq (p u : List R) : (compose p u).length = composeLength p.length u.length :=
  length_composeWith id (fun _ _ => length_scale _ _) p u

theorem compose_assoc_eq (p u v : List R) : compose (compose p u) v = compose p (compose u v) := by
  apply eq_of_polynomial
  · simp only [length_compose_eq, composeLength_assoc]
  · simp only [polynomial_compose, Polynomial.comp_assoc]

theorem add_compose_eq (p q u : List R) : compose (add p q) u = add (compose p u) (compose q u) := by
  apply eq_of_polynomial
  · rw [length_add, length_compose_eq, length_compose_eq, length_compose_eq, length_add]
    exact (composeLength_mono _).map_max
  · simp only [polynomial_compose, polynomial_add, Polynomial.add_comp]

theorem mul_compose_eq {p q : List R} (u : List R) (hp : p ≠ []) (hq : q ≠ []) :
    compose (mul p q) u = mul (compose p u) (compose q u) := by
  have hp' := List.length_pos_iff.2 hp
  have hq' := List.length_pos_iff.2 hq
  apply eq_of_polynomial
  · rw [length_mul, length_compose_eq, length_compose_eq, length_compose_eq, length_mul,
      composeLength_of_pos _ hp', composeLength_of_pos _ hq', composeLength_of_pos _ (by omega)]
    have hsurplus : p.length + q.length - 1 - 1 = p.length - 1 + (q.length - 1) := by omega
    rw [hsurplus, Nat.add_mul]
    omega
  · simp only [polynomial_compose, polynomial_mul, Polynomial.mul_comp]

theorem polynomial_x : polynomial ([0, 1] : List R) = Polynomial.X := by simp

theorem compositionLaws (R : Type u) [CommRing R] : CompositionLaws R where
  length_compose {p} u hp := by rw [length_compose_eq, composeLength_of_pos _ (List.length_pos_iff.2 hp)]
  compose_assoc := compose_assoc_eq
  compose_x p := by
    apply eq_of_polynomial
    · cases p with
      | nil => rfl
      | cons a p => simp [length_compose_eq, composeLength]
    · rw [polynomial_compose, polynomial_x, Polynomial.comp_X]
  x_compose {u} hu := by
    have hpos := List.length_pos_iff.2 hu
    apply eq_of_polynomial
    · rw [length_compose_eq]
      change composeLength 2 u.length = u.length
      rw [composeLength_of_pos _ two_pos]
      omega
    · rw [polynomial_compose, polynomial_x, Polynomial.X_comp]
  add_compose := add_compose_eq
  mul_compose := mul_compose_eq

end Ring

theorem compositionLaws_int64 : CompositionLaws Int64 := @compositionLaws Int64 wrappingRing

end Coeffs

namespace Poly

theorem composeWith_self (f : Format) (p u : List f.Elem) :
    Coeffs.composeWith (f.convert f) (composeTerm false f f f) p u = Coeffs.compose p u := by
  have hstart : f.convert f = id := funext f.convert_self
  have hterm : composeTerm false f f f = Coeffs.scale := by
    funext c power
    simp only [composeTerm, Bool.false_eq_true, if_false, Format.convert_self, map_convert_self]
  rw [hstart, hterm, Coeffs.compose]

theorem compose_int64 {p u : List Int64} (hp : p ≠ []) (hu : u ≠ []) :
    (ofList .int64 p).compose (ofList .int64 u) = .ok (ofList .int64 (Coeffs.compose p u)) := by
  by_cases hone : p.length = 1
  · obtain ⟨c, rfl⟩ := List.length_eq_one_iff.1 hone
    rfl
  · have hpos := List.length_pos_iff.2 hp
    refine (compose_ofList (by omega) hu).trans ?_
    exact congrArg (fun l => Except.ok (ofList .int64 l)) (composeWith_self .int64 p u)

/-- Over every commutative ring, composition of coefficient lists is an associative substitution. Polynomials of
integers that wrap around are added, multiplied and composed as such lists, and obey its laws too. -/
theorem composition_substitutes :
    (∀ (R : Type u) [CommRing R], Coeffs.CompositionLaws R) ∧ Coeffs.CompositionLaws Int64 ∧
      ∀ p u : List Int64, p ≠ [] → u ≠ [] →
        (ofList .int64 p).compose (ofList .int64 u) = .ok (ofList .int64 (Coeffs.compose p u)) ∧
          (ofList .int64 p).add (ofList .int64 u) = .ok (ofList .int64 (Coeffs.add p u)) ∧
          (ofList .int64 p).mul (ofList .int64 u) = .ok (ofList .int64 (Coeffs.mul p u)) :=
  ⟨Coeffs.compositionLaws, Coeffs.compositionLaws_int64,
    fun p u hp hu => ⟨compose_int64 hp hu, add_int64 p u, mul_int64 p u hp⟩⟩

theorem composition_substitutes_wraps :
    ([1, 0, -9223372036854775808] : List Int64) ≠ [] ∧ ([3, 2] : List Int64) ≠ [] ∧
      (ofList .int64 [1, 0, -9223372036854775808]).compose (ofList .int64 [3, 2]) =
        .ok (ofList .int64 [-9223372036854775807, 0, 0]) := by
  have hp : ([1, 0, -9223372036854775808] : List Int64) ≠ [] := List.cons_ne_nil _ _
  have hu : ([3, 2] : List Int64) ≠ [] := List.cons_ne_nil _ _
  have hcompose := (composition_substitutes.{0}.2.2 _ _ hp hu).1
  have hvalue : Coeffs.compose ([1, 0, -9223372036854775808] : List Int64) [3, 2] =
      [-9223372036854775807, 0, 0] := by
    decide
  rw [hvalue] at hcompose
  exact ⟨hp, hu, hcompose⟩

end Poly

end PolyRoots
