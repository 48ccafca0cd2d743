import PolyRoots.Proofs.Poly.RingLaws

universe u

namespace PolyRoots

namespace Coeffs

/-- Repeated squaring with at most `k` rounds. A round takes the last binary digit off the exponent and squares
`base` unless that was the first one. -/
def powRounds {α : Type u} [Zero α] [Add α] [Mul α] :
    Nat → Option (List α) → List α → Nat → Option (List α)
  | 0, _, _, _ => none
  | k + 1, acc, base, n =>
    let acc := if n % 2 = 1 then some (mul? acc base) else acc
    if n / 2 = 0 then acc else powRounds k acc (mul base base) (n / 2)

/-- The laws of powers, where lists are told apart even if they differ in zeros at the end only. -/
structure PowerLaws (R : Type u) [Zero R] [One R] [Add R] [Mul R] : Prop where
  powRounds_eq (p : List R) {n : Nat} (k : Nat) : 0 < n →
    powRounds k none p n = if n.log2 < k then some (pow p n) else none
  pow_eq_foldl (p : List R) (n : Nat) : pow p n = (List.replicate n p).foldl mul [1]
  length_pow {p : List R} (n : Nat) : p ≠ [] → (pow p n).length = n * (p.length - 1) + 1
  pow_add (p : List R) (m n : Nat) : pow p (m + n) = mul (pow p m) (pow p n)
  pow_mul (p : List R) (m n : Nat) : pow p (m * n) = pow (pow p m) n

theorem powRounds_eq_powLoop {α : Type u} [Zero α] [Add α] [Mul α] (k : Nat) (acc : Option (List α))
    (base : List α) {n : Nat} (hn : 0 < n) :
    powRounds k acc base n = if n.log2 < k then some (powLoop acc base n) else none := by
  induction k generalizing acc base n with
  | zero => simp [powRounds]
  | succ k ih =>
      rw [powRounds, powLoop, Nat.log2_def]
      by_cases hlast : n < 2
      · -- the first digit is a one, so there is a result
        have hone : n = 1 := by omega
        subst hone
        simp
      · have hhalf : ¬n / 2 = 0 := by omega
        simp [hlast, hhalf, Nat.le_of_not_lt hlast, ih _ _ (Nat.pos_of_ne_zero hhalf)]

section Ring

variable {R : Type u} [CommRing R]

theorem length_pow_of_ne_nil {p : List R} (n : Nat) (hp : p ≠ []) :
    (pow p n).length = n * (p.length - 1) + 1 := by
  obtain ⟨a, p, rfl⟩ := List.exists_cons_of_ne_nil hp
  rw [length_pow, powLength, List.length_cons, Nat.add_sub_cancel]
  split
  next hn => rw [hn, Nat.zero_mul]
  next hn =>
    rw [Nat.mul_succ]
    omega

theorem pow_nil {n : Nat} (hn : n ≠ 0) : pow ([] : List R) n = [] := by
  rw [pow, if_neg hn]
  exact powLoop_eq_nil n (by simp)

theorem pow_add_eq (p : List R) (m n : Nat) : pow p (m + n) = mul (pow p m) (pow p n) := by
  by_cases hp : p = []
  · subst hp
    cases m with
    | zero =>
        rw [Nat.zero_add]
        exact ((ringLaws R).one_mul _).symm
    | succ m =>
        rw [pow_nil (by omega), pow_nil m.succ_ne_zero]
        cases n with
        | zero => rfl
        | succ n =>
            rw [pow_nil n.succ_ne_zero]
            rfl
  · apply eq_of_polynomial
    · rw [length_mul, length_pow_of_ne_nil _ hp, length_pow_of_ne_nil _ hp, length_pow_of_ne_nil _ hp,
        Nat.add_mul]
      omega
    · rw [polynomial_mul, polynomial_pow, polynomial_pow, polynomial_pow, pow_add]

theorem pow_one_eq (p : List R) : pow p 1 = p := by
  rw [pow, if_neg one_ne_zero, powLoop]
  rfl

theorem pow_succ_eq (p : List R) (n : Nat) : pow p (n + 1) = mul (pow p n) p := by
  rw [pow_add_eq, pow_one_eq]

theorem powerLaws (R : Type u) [CommRing R] : PowerLaws R where
  powRounds_eq p n k hn := by
    rw [powRounds_eq_powLoop k none p hn, pow, if_neg hn.ne']
  pow_eq_foldl p n := by
    induction n with
    | zero => rfl
    | succ n ih => rw [pow_succ_eq, ih, List.replicate_succ', List.foldl_append, List.foldl_cons, List.foldl_nil]
  length_pow n hp := length_pow_of_ne_nil n hp
  pow_add := pow_add_eq
  pow_mul p m n := by
    induction n with
    | zero => rfl
    | succ n ih => rw [Nat.mul_succ, pow_add_eq, ih, ← pow_succ_eq]

end Ring

theorem powerLaws_int64 : PowerLaws Int64 := @powerLaws Int64 wrappingRing

end Coeffs

namespace Poly

theorem pow_int64 {p : List Int64} (hp : p ≠ []) (n : Nat) :
    (ofList .int64 p).pow n = .ok (ofList .int64 (Coeffs.pow p n)) := by
  have hwidth : ¬(p.length = 0 ∧ 1 < (n : Int)) := fun h => hp (List.length_eq_zero_iff.1 h.1)
  rw [pow, if_neg (Int.not_lt.2 (Int.natCast_nonneg n)), if_neg (fun h => absurd h.2 one_ne_zero)]
  refine (if_neg hwidth).trans ?_
  have hlist := (PolyBatch.pow?_eq_lift (.ofList p) n).trans
    (congrArg some (PolyBatch.lift_ofList (Coeffs.length_pow · n) p))
  rw [Int.toNat_natCast]
  exact congrArg (fun b => fitted b >>= fun b => pure (Poly.mk .int64 b)) hlist

/-- Over every commutative ring, powers by repeated squaring are the repeated products and obey the laws of powers.
Polynomials of integers that wrap around are multiplied and raised to powers as such lists, and obey them too. -/
theorem powers_repeat_product :
    (∀ (R : Type u) [CommRing R], Coeffs.PowerLaws R) ∧ Coeffs.PowerLaws Int64 ∧
      ∀ p q : List Int64, p ≠ [] →
        (∀ n : Nat, (ofList .int64 p).pow n = .ok (ofList .int64 (Coeffs.pow p n))) ∧
          (ofList .int64 p).mul (ofList .int64 q) = .ok (ofList .int64 (Coeffs.mul p q)) :=
  ⟨Coeffs.powerLaws, Coeffs.powerLaws_int64, fun p q hp => ⟨pow_int64 hp, mul_int64 p q hp⟩⟩

theorem powers_repeat_product_wraps :
    ([4294967296, 1] : List Int64) ≠ [] ∧
      (ofList .int64 [4294967296, 1]).pow (3 : Nat) = .ok (ofList .int64 [0, 0, 12884901888, 1]) := by
  have hne : ([4294967296, 1] : List Int64) ≠ [] := List.cons_ne_nil _ _
  have hpow := (powers_repeat_product.{0}.2.2 [4294967296, 1] [1] hne).1 3
  have hvalue : Coeffs.pow ([4294967296, 1] : List Int64) 3 = [0, 0, 12884901888, 1] := by
    rw [Coeffs.powerLaws_int64.pow_eq_foldl]
    decide
  rw [hvalue] at hpow
  exact ⟨hne, hpow⟩

end Poly

end PolyRoots
