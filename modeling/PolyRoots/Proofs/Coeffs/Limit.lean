import Mathlib.Data.Sign.Basic
import PolyRoots.Coeffs.Evaluate
import PolyRoots.Proofs.Coeffs.Trailing
import PolyRoots.Proofs.Scalar.Binary

universe u

namespace PolyRoots

namespace Coeffs

open Extended Overflowing

variable {α : Type u} [Zero α] [Add α] [Neg α] [Mul α] [BEq α] [LT α] [DecidableLT α] [Extended α]
variable {x : α}

/-- The limit of a polynomial at an infinity: its constant, or the infinity on the side that the rule
of signs gives for the leading term. -/
def limit (p : List α) (x : α) : α :=
  if degree p = 0 then p.headD 0
  else infiniteTo (direction ((leading? p).getD 0) * direction x ^ degree p)

section Horner

omit [Neg α] [LT α] [DecidableLT α] in
theorem Horner.fixed_append (q : List α) {t : List α} {i : Nat} {r : α}
    (h : (run x (i + q.length) t).fixed = some r) : (run x i (q ++ t)).fixed = some r := by
  induction q generalizing i with
  | nil => exact h
  | cons a q ih =>
      have hq := ih (i := i + 1) (by rwa [List.length_cons, Nat.add_comm q.length, ← Nat.add_assoc] at h)
      rw [List.cons_append, run, step]
      simp only [hq, Option.some_or]

variable [Overflowing α]

theorem Horner.run_zeros {z : List α} (hz : Zeros z) (i : Nat) :
    (run x i z).value == 0 ∧ (run x i z).fixed = none := by
  induction z generalizing i with
  | nil => exact ⟨zero_beq_zero, rfl⟩
  | cons a z ih =>
      obtain ⟨ha, hz⟩ := List.forall_mem_cons.1 hz
      obtain ⟨hvalue, hfixed⟩ := ih hz (i + 1)
      have hinf : isInf a = false := isInf_of_isFinite (isFinite_of_beq_zero ha)
      simp [run, step, hvalue, hfixed, hinf, ha]

theorem Horner.step_of_zero {h : Horner α} (hvalue : h.value == 0) (hfixed : h.fixed = none) (a : α)
    (i : Nat) : step x i a h = step x i a ⟨0, none⟩ := by
  rw [step, hfixed, step, if_pos hvalue, if_pos zero_beq_zero]

theorem Horner.run_append_zeros {l : List α} (hl : l ≠ []) {z : List α} (hz : Zeros z) (i : Nat) :
    run x i (l ++ z) = run x i l := by
  induction l generalizing i with
  | nil => exact absurd rfl hl
  | cons a l ih =>
      cases l with
      | nil =>
          obtain ⟨hvalue, hfixed⟩ := run_zeros hz (x := x) (i + 1)
          exact step_of_zero hvalue hfixed a i
      | cons b l => exact congrArg (step x i a) (ih (List.cons_ne_nil b l) (i + 1))

theorem Horner.run_cons_zeros {c : α} (hc : isFinite c) {z : List α} (hz : Zeros z) (i : Nat) :
    run x i (c :: z) = ⟨c, none⟩ := by
  have hinf : isInf c = false := isInf_of_isFinite hc
  rw [← List.singleton_append, run_append_zeros (List.cons_ne_nil c []) hz]
  simp [run, step, hinf, zero_beq_zero]

/-- At an infinite point the result is fixed right below the leading coefficient, of index `i + 1`. -/
theorem Horner.run_infinite (hx : isInf x) {b c : α} (hb : isFinite b) (hc : isFinite c)
    (hne : (c == 0) = false) {z : List α} (hz : Zeros z) (i : Nat) :
    (run x i (b :: c :: z)).fixed = some (infiniteTo (direction c * direction x ^ (i + 1))) := by
  have hdx : direction x ≠ 0 := direction_ne_zero hx
  have hdc : direction c ≠ 0 := direction_ne_zero_of_isFinite hc hne
  have hd : direction c * direction x ≠ 0 := mul_ne_zero hdc hdx
  have hprod : c * x = infiniteTo (direction c * direction x) := finite_mul hc hdc hx
  have hsum : c * x + b = infiniteTo (direction c * direction x) := by
    rw [hprod, infinite_add (isInf_infiniteTo hd) hb, direction_infiniteTo]
  have hnan : isNaN x = false := isNaN_of_isInf hx
  have hodd : infiniteTo (direction c * direction x) * sign x =
      infiniteTo (direction c * direction x * direction x) := by
    rw [infinite_mul (isInf_infiniteTo hd) (isFinite_sign hnan) (by rwa [direction_sign hnan]),
      direction_infiniteTo, direction_sign hnan]
  rw [run, run_cons_zeros hc hz, step]
  simp only [hne, hsum, isInf_infiniteTo hd, hodd, Option.none_or, Bool.false_eq_true, if_false, if_true,
    Option.some.injEq]
  split
  next heven => rw [SignType.pow_odd _ (Nat.even_iff.2 heven).add_one]
  next hodd => rw [mul_assoc, ← pow_two, SignType.pow_even _ (by decide) hdx,
      SignType.pow_even _ (Nat.not_even_iff_odd.1 (mt Nat.even_iff.1 hodd)).add_one hdx]

/-- A run at a finite point: it goes on with a finite value, or its result is fixed and defined. -/
inductive Horner.Defined (h : Horner α) : Prop
  | running (hfixed : h.fixed = none) (hvalue : isFinite h.value)
  | overflowed (r : α) (hfixed : h.fixed = some r) (hr : isNaN r = false)

omit [Zero α] [Add α] [Neg α] [Mul α] [BEq α] [LT α] [DecidableLT α] [Overflowing α] in
theorem Horner.Defined.isNaN_result {h : Horner α} (hh : h.Defined) : isNaN h.result = false := by
  cases hh with
  | running hfixed hvalue =>
      rw [result, hfixed]
      exact isNaN_of_isFinite hvalue
  | overflowed r hfixed hr =>
      rw [result, hfixed]
      exact hr

def Horner.next (x a v : α) : α := if v == 0 then a else v * x + a

omit [Neg α] [LT α] [DecidableLT α] [Overflowing α] in
theorem Horner.step_running {h : Horner α} (hfixed : h.fixed = none) (a : α) (i : Nat) :
    step x i a h = ⟨next x a h.value, if isInf (next x a h.value) then
      some (if i % 2 = 0 then next x a h.value else next x a h.value * sign x) else none⟩ := by
  rw [step, hfixed, Option.none_or, next]

theorem Horner.isNaN_next (hx : isFinite x) {a v : α} (ha : isFinite a) (hv : isFinite v) :
    isNaN (next x a v) = false := by
  rw [next]
  split
  next => exact isNaN_of_isFinite ha
  next =>
    cases hinf : isInf (v * x) with
    | true =>
        rw [infinite_add hinf ha]
        exact isNaN_of_isInf (isInf_infiniteTo (direction_ne_zero hinf))
    | false => exact isNaN_add (isFinite_of_isInf_eq_false (isNaN_mul hv hx) hinf) ha

theorem Horner.isFinite_next_zero (hx : x == 0) {a v : α} (ha : isFinite a) (hv : isFinite v) :
    isFinite (next x a v) := by
  rw [next]
  split
  · exact ha
  · exact isFinite_zero_add (mul_beq_zero hv hx) ha

theorem isNaN_mul_sign {v : α} (hv : isInf v) (hx : isNaN x = false) (hdx : direction x ≠ 0) :
    isNaN (v * sign x) = false := by
  have hsign : direction (sign x) ≠ 0 := by rwa [direction_sign hx]
  rw [infinite_mul hv (isFinite_sign hx) hsign]
  exact isNaN_of_isInf (isInf_infiniteTo (mul_ne_zero (direction_ne_zero hv) hsign))

theorem Horner.Defined.step (hx : isFinite x) {a : α} (ha : isFinite a) {h : Horner α}
    (hh : h.Defined) (i : Nat) : (Horner.step x i a h).Defined := by
  cases hh with
  | overflowed r hfixed hr => exact .overflowed r (by rw [Horner.step, hfixed, Option.some_or]) hr
  | running hfixed hvalue =>
      have hnan : isNaN (next x a h.value) = false := isNaN_next hx ha hvalue
      rw [step_running hfixed]
      cases hinf : isInf (next x a h.value) with
      | false => exact .running rfl (isFinite_of_isInf_eq_false hnan hinf)
      | true =>
          -- an overflow at zero is impossible, so the odd powers of `x` have a side
          have hdx : direction x ≠ 0 := by
            intro hdx
            have hzero : x == 0 := direction_eq_zero (isNaN_of_isFinite hx) hdx
            rw [isInf_of_isFinite (isFinite_next_zero hzero ha hvalue)] at hinf
            cases hinf
          refine .overflowed _ rfl ?_
          split
          · exact hnan
          · exact isNaN_mul_sign hinf (isNaN_of_isFinite hx) hdx

theorem Horner.run_defined (hx : isFinite x) {p : List α} (hp : ∀ a ∈ p, isFinite a) (i : Nat) :
    (run x i p).Defined := by
  induction p generalizing i with
  | nil => exact .running rfl (isFinite_of_beq_zero zero_beq_zero)
  | cons a p ih =>
      rw [List.forall_mem_cons] at hp
      exact (ih hp.2 (i + 1)).step hx hp.1 i

end Horner

section Limit

variable [Overflowing α]

theorem result_zeros {p : List α} (hp : Zeros p) : (Horner.run x 0 p).result = limit p x := by
  rw [limit, if_pos hp.degree_eq_zero]
  cases p with
  | nil => rfl
  | cons a z =>
      obtain ⟨ha, hz⟩ := List.forall_mem_cons.1 hp
      rw [Horner.run_cons_zeros (isFinite_of_beq_zero ha) hz, Horner.result, List.headD_cons,
        Option.getD_none]

omit [Add α] [Mul α] [Overflowing α] in
theorem limit_leading (q : List α) {c : α} (hne : (c == 0) = false) {z : List α} (hz : Zeros z) :
    limit (q ++ [c] ++ z) x =
      if q.length = 0 then c else infiniteTo (direction c * direction x ^ q.length) := by
  rw [limit, degree_append_zeros _ hz, degree_concat q hne, leading?_concat_append_zeros q hne hz,
    Option.getD_some]
  cases q <;> rfl

theorem result_leading (hx : isInf x) (q : List α) {c : α} (hq : ∀ a ∈ q, isFinite a)
    (hc : isFinite c) (hne : (c == 0) = false) {z : List α} (hz : Zeros z) :
    (Horner.run x 0 (q ++ [c] ++ z)).result = limit (q ++ [c] ++ z) x := by
  rw [limit_leading q hne hz]
  rcases List.eq_nil_or_concat q with rfl | ⟨r, b, rfl⟩
  · exact congrArg Horner.result (Horner.run_cons_zeros hc hz 0)
  · have hb : isFinite b := hq b (by simp)
    have htop := Horner.run_infinite hx hb hc hne hz (0 + r.length)
    have hfixed := Horner.fixed_append r htop
    simp [Horner.result, hfixed]

theorem result_infinite (hx : isInf x) {p : List α} (hp : ∀ a ∈ p, isFinite a) :
    (Horner.run x 0 p).result = limit p x := by
  rcases exists_leading p with hz | ⟨q, c, z, rfl, hne, hz⟩
  · exact result_zeros hz
  · exact result_leading hx q (fun a ha => hp a (by simp [ha])) (hp c (by simp)) hne hz

theorem isNaN_limit (hx : isInf x) {p : List α} (hp : ∀ a ∈ p, isFinite a) :
    isNaN (limit p x) = false := by
  rcases exists_leading p with hz | ⟨q, c, z, rfl, hne, hz⟩
  · rw [limit, if_pos hz.degree_eq_zero]
    cases p with
    | nil => exact isNaN_of_isFinite (isFinite_of_beq_zero zero_beq_zero)
    | cons a p => exact isNaN_of_isFinite (hp a List.mem_cons_self)
  · have hc : isFinite c := hp c (by simp)
    rw [limit_leading q hne hz]
    split
    · exact isNaN_of_isFinite hc
    · exact isNaN_of_isInf (isInf_infiniteTo (mul_ne_zero (direction_ne_zero_of_isFinite hc hne)
        (pow_ne_zero _ (direction_ne_zero hx))))

theorem evaluate_append_zeros {l z : List α} (hl : l ≠ []) (hz : Zeros z) :
    evaluate (l ++ z) = evaluate l := by
  funext x
  rw [evaluate, Horner.run_append_zeros hl hz, evaluate]

/-- Where finite results may overflow, the value of a polynomial with finite coefficients is not
undefined, and at an infinity it is the limit. -/
theorem evaluate_overflowing {p : List α} (hp : ∀ a ∈ p, isFinite a) (hx : isNaN x = false) :
    isNaN (evaluate p x) = false ∧ (isInf x → evaluate p x = limit p x) := by
  rw [evaluate, hx, if_neg Bool.false_ne_true]
  cases hinf : isInf x with
  | true =>
      rw [result_infinite hinf hp]
      exact ⟨isNaN_limit hinf hp, fun _ => rfl⟩
  | false =>
      exact ⟨(Horner.run_defined (isFinite_of_isInf_eq_false hx hinf) hp 0).isNaN_result, nofun⟩

theorem evaluate_overflowing_cubic :
    (∀ a ∈ [1, 0, 0, -2, (0 : Float)], isFinite a) ∧ isNaN (-infinity : Float) = false ∧
      isNaN (evaluate [1, 0, 0, -2, (0 : Float)] (-infinity)) = false ∧
      evaluate [1, 0, 0, -2, (0 : Float)] (-infinity) = infinity := by
  have hp : ∀ a ∈ [1, 0, 0, -2, (0 : Float)], isFinite a := by decide
  have hx : isNaN (-infinity : Float) = false := by decide
  have hlimit : limit [1, 0, 0, -2, (0 : Float)] (-infinity) = infinity := by decide
  obtain ⟨hdefined, hinfinite⟩ := evaluate_overflowing hp hx
  exact ⟨hp, hx, hdefined, (hinfinite rfl).trans hlimit⟩

end Limit

end Coeffs

end PolyRoots
