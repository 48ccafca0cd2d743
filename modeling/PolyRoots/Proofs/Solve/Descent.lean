import Mathlib.Algebra.Order.Ring.Rat
import Mathlib.Logic.Function.Iterate
import Mathlib.Tactic.Linarith
import PolyRoots.Proofs.Solve.Newton

universe u v

namespace PolyRoots

namespace Solve

section Steps

variable {α : Type u} [Zero α] [Sub α] [Neg α] [Div α] [BEq α] [LT α] [DecidableLT α]

def iterate (f df : α → α) (x : α) (k : Nat) : α := (fun t => t - f t / df t)^[k] x

/-- A run of at most `n` Newton steps from `x` that ended at the iterate of index `k`. -/
structure Descent (f df : α → α) (x : α) (n k : Nat) (s : Search α) : Prop where
  budget : k ≤ n
  root : s.root = some (iterate f df x k)
  sloped : ∀ j < k, (df (iterate f df x j) == 0) = false
  decreasing : ∀ j < k, magnitude (f (iterate f df x (j + 1))) < magnitude (f (iterate f df x j))
  unsettled : s.settled = false ↔ k = n
  stop : k < n → df (iterate f df x k) == 0 ∨
    ¬ magnitude (f (iterate f df x (k + 1))) < magnitude (f (iterate f df x k))

variable {f df : α → α} {x : α} {n k : Nat} {s : Search α}

theorem Descent.after (h : Descent f df x n k s) (evals slopes : List α) :
    Descent f df x n k (s.after evals slopes) :=
  ⟨h.budget, h.root, h.sloped, h.decreasing, h.unsettled, h.stop⟩

theorem Descent.cons (h : Descent f df (x - f x / df x) n k s) (hslope : (df x == 0) = false)
    (hlt : magnitude (f (x - f x / df x)) < magnitude (f x)) : Descent f df x (n + 1) (k + 1) s where
  budget := Nat.succ_le_succ h.budget
  root := h.root
  sloped j hj := by
    cases j with
    | zero => exact hslope
    | succ j => exact h.sloped j (Nat.lt_of_succ_lt_succ hj)
  decreasing j hj := by
    cases j with
    | zero => exact hlt
    | succ j => exact h.decreasing j (Nat.lt_of_succ_lt_succ hj)
  unsettled := h.unsettled.trans Nat.succ_inj.symm
  stop hk := h.stop (Nat.lt_of_succ_lt_succ hk)

theorem Descent.here (hroot : s.root = some x) (hsettled : s.settled = true)
    (hstop : df x == 0 ∨ ¬ magnitude (f (x - f x / df x)) < magnitude (f x)) :
    Descent f df x (n + 1) 0 s where
  budget := Nat.zero_le _
  root := hroot
  sloped j hj := absurd hj (Nat.not_lt_zero j)
  decreasing j hj := absurd hj (Nat.not_lt_zero j)
  unsettled := by simp [hsettled]
  stop _ := hstop

variable (f df)

theorem newtonSteps_descent (n : Nat) (x : α) :
    (∃ k, Descent f df x n k (newtonSteps f df n x (f x))) ∧
      (newtonSteps f df n x (f x)).evals.length ≤ n ∧
      (newtonSteps f df n x (f x)).slopes.length ≤ n := by
  induction n generalizing x with
  | zero => exact ⟨⟨0, Nat.le_refl 0, rfl, nofun, nofun, by simp [newtonSteps], nofun⟩,
      Nat.le_refl 0, Nat.le_refl 0⟩
  | succ n ih =>
      simp only [newtonSteps]
      split
      next hslope => exact ⟨⟨0, .here rfl rfl (.inl hslope)⟩, by simp, by simp⟩
      next hslope =>
        split
        next hlt =>
          obtain ⟨⟨k, hk⟩, hevals, hslopes⟩ := ih (x - f x / df x)
          have hcons := hk.cons (Bool.eq_false_iff.2 hslope) hlt
          refine ⟨⟨k + 1, hcons.after [x - f x / df x] [x]⟩, ?_, ?_⟩
          · simpa [Search.after] using hevals
          · simpa [Search.after] using hslopes
        next hlt => exact ⟨⟨0, .here rfl rfl (.inr hlt)⟩, by simp, by simp⟩

end Steps

section Contract

variable {α : Type u} [Zero α] [One α] [Add α] [Sub α] [Neg α] [Mul α] [Div α] [NatCast α] [BEq α]
  [LT α] [DecidableLT α] [Extended α]

/-- No root is looked for: the ends are in the wrong order, or neither is a zero and they are equal or
show the same sign. -/
def Refused (f : α → α) (a b : α) : Prop :=
  b < a ∨ ((f a == 0) = false ∧ a == b) ∨
    ((f a == 0) = false ∧ (f b == 0) = false ∧ 0 < f a * f b)

/-- The outcome of a search, in the order in which the two ends are looked at. -/
structure Outcome (f df : α → α) (a b : α) (n : Nat) (s : Search α) : Prop where
  none_iff : s.root = none ↔ Refused f a b
  refused : Refused f a b → s.settled = true
  left : ¬ Refused f a b → f a == 0 → s.root = some a ∧ s.settled = true
  right : ¬ Refused f a b → (f a == 0) = false → f b == 0 → s.root = some b ∧ s.settled = true
  descent : ¬ Refused f a b → (f a == 0) = false → (f b == 0) = false →
    ∃ k, Descent f df (seed a b) n k s
  evals : s.evals.length ≤ n + 3
  slopes : s.slopes.length ≤ n

variable {f df : α → α} {a b : α} {n : Nat}

theorem search_of_refused (h : Refused f a b) :
    ∃ evals, evals.length ≤ 2 ∧ search f df a b n = .early none evals := by
  by_cases hab : b < a
  · exact ⟨[], by simp, if_pos hab⟩
  · rcases h with h | ⟨ha, heq⟩ | ⟨ha, hb, hpos⟩
    · exact absurd h hab
    · exact ⟨[a], by simp, by simp [search, hab, ha, heq]⟩
    · by_cases heq : a == b
      · exact ⟨[a], by simp, by simp [search, hab, ha, heq]⟩
      · exact ⟨[a, b], by simp, by simp [search, hab, ha, heq, hb, hpos]⟩

theorem search_of_left (h : ¬ Refused f a b) (ha : f a == 0) :
    search f df a b n = .early (some a) [a] := by
  have hab : ¬ b < a := fun hab => h (.inl hab)
  simp [search, hab, ha]

theorem search_of_right (h : ¬ Refused f a b) (ha : (f a == 0) = false) (hb : f b == 0) :
    search f df a b n = .early (some b) [a, b] := by
  have hab : ¬ b < a := fun hab => h (.inl hab)
  have heq : (a == b) = false := Bool.eq_false_iff.2 fun heq => h (.inr (.inl ⟨ha, heq⟩))
  simp [search, hab, ha, heq, hb]

theorem search_of_change (h : ¬ Refused f a b) (ha : (f a == 0) = false) (hb : (f b == 0) = false) :
    search f df a b n =
      (newtonSteps f df n (seed a b) (f (seed a b))).after [a, b, seed a b] [] := by
  have hab : ¬ b < a := fun hab => h (.inl hab)
  have heq : (a == b) = false := Bool.eq_false_iff.2 fun heq => h (.inr (.inl ⟨ha, heq⟩))
  have hpos : ¬ 0 < f a * f b := fun hpos => h (.inr (.inr ⟨ha, hb, hpos⟩))
  simp [search, hab, ha, heq, hb, hpos]

variable (f df a b n)

theorem search_outcome : Outcome f df a b n (search f df a b n) := by
  by_cases hno : Refused f a b
  · obtain ⟨evals, hevals, hs⟩ : ∃ evals, evals.length ≤ 2 ∧ search f df a b n = .early none evals :=
      search_of_refused hno
    rw [hs]
    exact ⟨iff_of_true rfl hno, fun _ => rfl, fun h => absurd hno h, fun h => absurd hno h,
      fun h => absurd hno h, Nat.le_add_left_of_le (hevals.trans (by decide)), Nat.zero_le n⟩
  · cases ha : f a == 0 with
    | true =>
        rw [search_of_left hno ha]
        exact ⟨iff_of_false nofun hno, fun h => absurd h hno, fun _ _ => ⟨rfl, rfl⟩, by simp [ha],
          by simp [ha], Nat.le_add_left _ _, Nat.zero_le n⟩
    | false =>
        cases hb : f b == 0 with
        | true =>
            rw [search_of_right hno ha hb]
            exact ⟨iff_of_false nofun hno, fun h => absurd h hno, by simp [ha],
              fun _ _ _ => ⟨rfl, rfl⟩, by simp [hb], Nat.le_add_left _ _, Nat.zero_le n⟩
        | false =>
            obtain ⟨⟨k, hk⟩, hevals, hslopes⟩ := newtonSteps_descent f df n (seed a b)
            have hk' := hk.after [a, b, seed a b] []
            rw [search_of_change hno ha hb]
            refine ⟨iff_of_false ?_ hno, fun h => absurd h hno, by simp [ha], by simp [hb],
              fun _ _ _ => ⟨k, hk'⟩, ?_, hslopes⟩
            · rw [hk'.root]
              exact nofun
            · rw [Search.after, List.length_append]
              exact (Nat.add_le_add_left hevals 3).trans_eq (Nat.add_comm 3 n)

end Contract

section Seed

variable {K : Type v} [Field K] [LinearOrder K]

theorem seed_negInf_finite (y : K) : seed .negInf (Line.finite y) = .finite (min y 1 - 1) := by
  have hlt : Line.finite y < 1 ↔ y < 1 := Line.finite_lt_finite y 1
  rw [min_def_lt]
  by_cases h : y < 1
  · rw [if_pos h]
    exact (congrArg (· - 1) (if_pos (hlt.2 h))).trans (Line.finite_sub y 1)
  · rw [if_neg h]
    exact (congrArg (· - 1) (if_neg (mt hlt.1 h))).trans (Line.finite_sub 1 1)

theorem seed_negInf_posInf : seed .negInf .posInf = (Line.finite 0 : Line K) := by
  rw [← sub_self (1 : K)]
  exact Line.finite_sub 1 1

theorem seed_finite_posInf (x : K) : seed (Line.finite x) .posInf = .finite (max (-1) x + 1) := by
  have hlt : (-1 : Line K) < .finite x ↔ -1 < x := Line.finite_lt_finite (-1) x
  rw [max_def_lt]
  by_cases h : -1 < x
  · rw [if_pos h]
    exact congrArg (· + 1) (if_pos (hlt.2 h))
  · rw [if_neg h]
    exact congrArg (· + 1) (if_neg (mt hlt.1 h))

variable [IsStrictOrderedRing K]

theorem seed_between {a b : Line K} (h : a < b) : a < seed a b ∧ seed a b < b := by
  match a, b with
  | .negInf, .finite y =>
      rw [seed_negInf_finite, Line.finite_lt_finite]
      exact ⟨rfl, (sub_lt_self _ one_pos).trans_le (min_le_left y 1)⟩
  | .negInf, .posInf =>
      rw [seed_negInf_posInf]
      exact ⟨rfl, rfl⟩
  | .finite x, .posInf =>
      rw [seed_finite_posInf, Line.finite_lt_finite]
      exact ⟨(le_max_right (-1) x).trans_lt (lt_add_one _), rfl⟩
  | .finite x, .finite y =>
      rw [Line.finite_lt_finite] at h
      rw [seed_finite, Line.finite_lt_finite, Line.finite_lt_finite]
      constructor <;> linarith

end Seed

/-- The contract of a search. Over scalars of any kind: when nothing is searched, which end is returned,
and otherwise the iterate at which the search ended and why; and how often the functions are asked. Over
the extended line of an ordered field: that the search begins between the ends. -/
theorem search_contract :
    (∀ (α : Type u) [Zero α] [One α] [Add α] [Sub α] [Neg α] [Mul α] [Div α] [NatCast α] [BEq α] [LT α]
        [DecidableLT α] [Extended α] (f df : α → α) (a b : α) (n : Nat),
      Outcome f df a b n (search f df a b n)) ∧
    ∀ (K : Type v) [Field K] [LinearOrder K] [IsStrictOrderedRing K] (a b : Line K),
      a < b → a < seed a b ∧ seed a b < b :=
  ⟨fun _ => search_outcome, fun _ _ _ _ _ _ => seed_between⟩

theorem search_contract_half_line :
    (0 : Line ℚ) < .posInf ∧
      Outcome (Coeffs.evaluate [-2, 0, 1]) (Coeffs.evaluate [0, 3]) (0 : Line ℚ) .posInf 5
        (search (Coeffs.evaluate [-2, 0, 1]) (Coeffs.evaluate [0, 3]) 0 .posInf 5) ∧
      (0 : Line ℚ) < seed 0 .posInf ∧ seed 0 .posInf < (.posInf : Line ℚ) :=
  ⟨rfl, search_contract.{0, 0}.1 (Line ℚ) _ _ _ _ _, search_contract.{0, 0}.2 ℚ 0 .posInf rfl⟩

end Solve

end PolyRoots
