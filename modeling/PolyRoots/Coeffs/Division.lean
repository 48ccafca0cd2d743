import PolyRoots.Coeffs.Basic

universe u

namespace PolyRoots

namespace Coeffs

variable {α : Type u} [Zero α] [BEq α] [Sub α] [Mul α] [Div α]

def subFront : List α → List α → List α
  | [], _ => []
  | a :: acc, [] => a :: acc
  | a :: acc, b :: row => (a - b) :: subFront acc row

/-- The given number of division steps by `lead :: tail`, highest coefficient first: the quotient
digits and what is left of the dividend. -/
def divLoop (lead : α) (tail : List α) : Nat → List α → List α × List α
  | 0, r => ([], r)
  | _ + 1, [] => ([], [])
  | n + 1, c :: r =>
    let digit := c / lead
    let (s, r) := divLoop lead tail n (subFront r (tail.map (digit * ·)))
    (digit :: s, r)

/-- Quotient and remainder of two polynomials whose degrees are `m` and `n ≤ m`. Digits are found from
the highest coefficient down, so the lists are cut to their degrees and reversed. -/
def longDivision (m n : Nat) (p q : List α) : List α × List α :=
  match (q.take (n + 1)).reverse with
  | [] => ([], [])
  | lead :: tail =>
    let (s, r) := divLoop lead tail (m + 1 - n) (p.take (m + 1)).reverse
    (s.reverse, r.reverse)

/-- Quotient and remainder of two polynomials of degrees `m` and `n`. There are none if every
coefficient of the divisor is zero. A constant divisor leaves the remainder `[0]`, and a dividend of
lower degree is its own remainder. -/
def divModAt? (m n : Nat) (p q : List α) : Option (List α × List α) :=
  if n = 0 then
    match q with
    | c :: _ => if c == 0 then none else some (p.map (· / c), [0])
    | [] => none
  else if m < n then some ([0], p)
  else some (longDivision m n p q)

def divMod? (p q : List α) : Option (List α × List α) := divModAt? (degree p) (degree q) p q

theorem divMod?_cons_of_degree_eq_zero (p : List α) {c : α} {q : List α} (h : degree (c :: q) = 0) :
    divMod? p (c :: q) = if c == 0 then none else some (p.map (· / c), [0]) := if_pos h

theorem divMod?_of_degree_lt {p q : List α} (hpos : 0 < degree q) (h : degree p < degree q) :
    divMod? p q = some ([0], p) :=
  (if_neg (Nat.ne_of_gt hpos)).trans (if_pos h)

theorem divMod?_of_degree_le {p q : List α} (hpos : 0 < degree q) (h : degree q ≤ degree p) :
    divMod? p q = some (longDivision (degree p) (degree q) p q) :=
  (if_neg (Nat.ne_of_gt hpos)).trans (if_neg (Nat.not_lt.2 h))

omit [Zero α] [BEq α] [Mul α] [Div α] in
@[simp]
theorem length_subFront (acc row : List α) : (subFront acc row).length = acc.length := by
  induction acc generalizing row with
  | nil => rfl
  | cons a acc ih => cases row <;> simp [subFront, ih]

omit [Zero α] [BEq α] in
theorem length_divLoop (lead : α) {tail r : List α} {n : Nat} (h : r.length = n + tail.length) :
    (divLoop lead tail n r).1.length = n ∧ (divLoop lead tail n r).2.length = tail.length := by
  induction n generalizing r with
  | zero => simpa [divLoop] using h
  | succ n ih =>
    cases r with
    | nil => simp at h; omega
    | cons c r =>
      have hrest : (subFront r (tail.map (c / lead * ·))).length = n + tail.length := by
        simp at h ⊢
        omega
      obtain ⟨hs, hr⟩ := ih hrest
      exact ⟨by simp [divLoop, hs], hr⟩

theorem length_longDivision {p q : List α} (hp : degree p < p.length) (hq : degree q < q.length)
    (h : degree q ≤ degree p) :
    (longDivision (degree p) (degree q) p q).1.length = degree p + 1 - degree q ∧
      (longDivision (degree p) (degree q) p q).2.length = degree q := by
  have hdivisor : (q.take (degree q + 1)).reverse.length = degree q + 1 := by simp; omega
  unfold longDivision
  split
  next hnil => simp [hnil] at hdivisor
  next lead tail hrev =>
    have htail : tail.length = degree q := by simpa [hrev] using hdivisor
    have hlen : (p.take (degree p + 1)).reverse.length = degree p + 1 - degree q + tail.length := by
      simp
      omega
    obtain ⟨hs, hr⟩ := length_divLoop lead hlen
    exact ⟨by simp [hs], by simp [hr, htail]⟩

end Coeffs

end PolyRoots
