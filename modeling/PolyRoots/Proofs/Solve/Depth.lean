import PolyRoots.Poly.Roots
import PolyRoots.Proofs.Coeffs.Trailing
import PolyRoots.Proofs.Scalar.Conversion
import PolyRoots.Proofs.Scalar.Magnitude
import PolyRoots.Proofs.Solve.Failure

universe u

namespace PolyRoots

namespace Coeffs

theorem lastIndex?_mapIdx {α β : Type u} {keep : α → Bool} {keep' : β → Bool} {f : Nat → α → β} {p : List α}
    (h : ∀ i < p.length, ∀ a, keep' (f i a) = keep a) :
    lastIndex? keep' (p.mapIdx f) = lastIndex? keep p := by
  induction p generalizing f with
  | nil => rfl
  | cons a p ih =>
      have htail := ih (f := fun i => f (i + 1)) fun i hi => h (i + 1) (Nat.succ_lt_succ hi)
      rw [List.mapIdx_cons, lastIndex?, htail, h 0 (Nat.succ_pos _), lastIndex?]

theorem lastIndex?_congr {α : Type u} {keep keep' : α → Bool} {p : List α} (h : ∀ a ∈ p, keep a = keep' a) :
    lastIndex? keep p = lastIndex? keep' p := by
  induction p with
  | nil => rfl
  | cons a p ih =>
      rw [List.forall_mem_cons] at h
      rw [lastIndex?, ih h.2, h.1, lastIndex?]

/-- Conversion keeps the degree of a list if it neither loses nor brings forth one of its coefficients. -/
theorem degree_map_of_mem {α β : Type u} [Zero α] [BEq α] [Zero β] [BEq β] {f : β → α} {p : List β}
    (hf : ∀ b ∈ p, (f b == 0) = (b == 0)) : degree (p.map f) = degree p := by
  have hkeep : ∀ b ∈ p, (f b != 0) = (b != 0) := fun b hb => congrArg not (hf b hb)
  rw [degree, lastIndex?_map, lastIndex?_congr hkeep, degree]

variable {α : Type u} [Zero α] [One α] [Sub α] [Mul α] [NatCast α] [BEq α]

variable (α) in
/-- The factors of the derivatives of lists of up to `N` coefficients neither lose a coefficient nor bring
one forth from zero. -/
def FactorsFaithful (N : Nat) : Prop :=
  ∀ i < N, 0 < i → ∀ x : α, (x * fallingFactor i 1 == 0) = (x == 0)

omit [One α] [Sub α] [Mul α] [NatCast α] in
theorem degree_cons_tail {a : α} {p : List α} (h : 0 < degree (a :: p)) : degree (a :: p) = degree p + 1 := by
  unfold degree at h ⊢
  rw [lastIndex?] at h ⊢
  cases hp : lastIndex? (· != 0) p with
  | some i => rfl
  | none =>
      rw [hp] at h
      dsimp only at h
      split at h <;> exact absurd h (lt_irrefl 0)

theorem degree_derivative {p : List α} (hfactor : FactorsFaithful α p.length) (hp : 0 < degree p) :
    degree (derivative 1 p) + 1 = degree p := by
  cases p with
  | nil => exact absurd hp (lt_irrefl 0)
  | cons a p =>
      have hle := degree_le_length (a :: p)
      have hlong : ¬ (a :: p).length ≤ 1 := by omega
      have hkeep : ∀ i < p.length, ∀ c : α, (c * fallingFactor (i + 1) 1 != 0) = (c != 0) := fun i hi c =>
        congrArg not (hfactor (i + 1) (Nat.succ_lt_succ hi) (Nat.succ_pos i) c)
      rw [derivative, if_neg one_ne_zero, if_neg hlong, List.drop_one, List.tail_cons, degree,
        lastIndex?_mapIdx hkeep, degree_cons_tail hp, degree]

omit [BEq α] in
theorem length_derivative_le {p : List α} (hp : 1 < p.length) : (derivative 1 p).length ≤ p.length := by
  rw [length_derivative_one hp]
  exact Nat.sub_le _ _

theorem degree_derivative_twice {p : List α} (hfactor : FactorsFaithful α p.length) (hp : 1 < degree p) :
    degree (derivative 1 (derivative 1 p)) + 2 = degree p := by
  have hle := degree_le_length p
  have hlen := length_derivative_le (p := p) (by omega)
  have hdeg := degree_derivative hfactor (by omega)
  have hdeg' := degree_derivative (p := derivative 1 p) (fun i hi => hfactor i (hi.trans_le hlen)) (by omega)
  omega

end Coeffs

namespace Solve

open Coeffs

section Legal

variable {α : Type u} [Zero α] [BEq α]

/-- What a closed form may be given: no equation at all, or one whose leading coefficient is not zero. -/
def legal (p : List α) : Bool := decide (p.length ≤ 1) || p.getLast?.any (· != 0)

theorem legal_take_degree (p : List α) : legal (p.take (degree p + 1)) := by
  rcases take_degree p with hp | ⟨q, c, hq, -, hc⟩
  · have hlen := List.length_take_le (degree p + 1) p
    rw [hp.degree_eq_zero] at hlen ⊢
    simp only [legal, decide_eq_true hlen, Bool.true_or]
  · rw [hq]
    simp [legal, bne, hc]

end Legal

variable {α : Type u} [Zero α] [One α] [Add α] [Sub α] [Neg α] [Mul α] [Div α] [NatCast α] [BEq α]
  [LT α] [DecidableLT α] [LE α] [DecidableLE α] [Elementary α] [Extended α]

/-- The recursion for at most `n` levels below the first. It gives up when it would have to go deeper, when
a closed form would be given an illegal equation, and when the first and second derivative do not lower the
degree by one and two. -/
def realRootsWithin (tol : α) : Nat → Bool → List α → Option (Except Fault (Found α))
  | n, multiple, p =>
    if degree p < 5 then
      let equation := p.take (degree p + 1)
      if legal equation then some ((closedForm tol multiple equation).map fun roots => ⟨roots, 0⟩) else none
    else
      match n with
      | 0 => none
      | n + 1 =>
        let d₁ := derivative 1 p
        let d₂ := derivative 1 d₁
        if degree d₁ + 1 = degree p ∧ degree d₂ + 2 = degree p then do
          let critical ← realRootsWithin tol n true d₁
          let inflection ← realRootsWithin tol n true d₂
          some (critical.bind fun critical => inflection.map fun inflection =>
            scanned multiple p critical inflection)
        else none

omit [Add α] [Neg α] [Div α] [LT α] [DecidableLT α] [LE α] [DecidableLE α] [Elementary α] [Extended α] in
theorem degree_induction {N : Nat} (hfactor : FactorsFaithful α N) {motive : List α → Prop}
    (closed : ∀ p, degree p < 5 → motive p)
    (step : ∀ p, ¬ degree p < 5 → degree (derivative 1 p) + 1 = degree p →
      degree (derivative 1 (derivative 1 p)) + 2 = degree p → motive (derivative 1 p) →
      motive (derivative 1 (derivative 1 p)) → motive p) (p : List α) (hN : p.length ≤ N) : motive p := by
  induction p using derivative_induction with
  | closed p h => exact closed p h
  | step p h ih₁ ih₂ =>
      have hle := degree_le_length p
      have hlen := length_derivative_le (p := p) (by omega)
      have hfactor' : FactorsFaithful α p.length := fun i hi => hfactor i (hi.trans_le hN)
      have hdeg := degree_derivative hfactor' (by omega)
      have hle' := degree_le_length (derivative 1 p)
      have hlen' := length_derivative_le (p := derivative 1 p) (by omega)
      have hdeg' := degree_derivative_twice hfactor' (by omega)
      exact step p h hdeg hdeg' (ih₁ (by omega)) (ih₂ (by omega))

/-- The degree less four bounds the levels of the recursion. -/
theorem realRootsWithin_eq {N : Nat} (hfactor : FactorsFaithful α N) (tol : α) (p : List α)
    (hN : p.length ≤ N) (multiple : Bool) (n : Nat) (hn : degree p - 4 ≤ n) :
    realRootsWithin tol n multiple p = some (realRoots tol multiple p) := by
  refine degree_induction hfactor (motive := fun p => ∀ (multiple : Bool) (n : Nat), degree p - 4 ≤ n →
    realRootsWithin tol n multiple p = some (realRoots tol multiple p)) ?_ ?_ p hN multiple n hn
  · intro p h multiple n _
    unfold realRootsWithin
    rw [if_pos h, if_pos (legal_take_degree p), realRoots_of_degree_lt h]
  · intro p h hdeg hdeg' ih₁ ih₂ multiple n hn
    obtain ⟨n, rfl⟩ : ∃ m, n = m + 1 := ⟨n - 1, by omega⟩
    unfold realRootsWithin
    rw [if_neg h, realRoots_of_degree_ge h]
    dsimp only
    rw [if_pos ⟨hdeg, hdeg'⟩, ih₁ true n (by omega), ih₂ true n (by omega)]
    rfl

theorem eq_zeroDenominator_of_error (hone : ((1 : α) == 0) = false) {tol : α} {p : List α} {multiple : Bool}
    {f : Fault} (h : realRoots tol multiple p = .error f) : f = .zeroDenominator := by
  induction p using derivative_induction generalizing multiple with
  | closed p hp =>
      rw [realRoots_of_degree_lt hp, map_error_iff] at h
      exact ((closedForm_take_error_iff hone hp).1 h).2.2
  | step p hp ih₁ ih₂ =>
      rw [realRoots_of_degree_ge hp, bind_map_error_iff] at h
      rcases h with h | ⟨-, h⟩
      · exact ih₁ h
      · exact ih₂ h

theorem factorsFaithful_float : FactorsFaithful Float (2 ^ 64) := fun _ hi hpos _ =>
  Binary.mul_beq_zero_of_above (Binary.above_fallingFactor hpos hi) (Binary.isFinite_fallingFactor hi)

theorem realRoots_ne_zeroLeading (hone : ((1 : α) == 0) = false) (tol : α) (p : List α) (multiple : Bool)
    (equation : Equation) : realRoots tol multiple p ≠ .error (.zeroLeading equation) := fun h =>
  Fault.noConfusion (eq_zeroDenominator_of_error hone h)

theorem realRoots_single {p : Poly} {l : List p.format.Elem} (hl : p.single .realRoots = .ok l)
    (multiple : Bool) : p.realRoots multiple =
      realRoots Poly.imaginaryTolerance multiple (l.map (p.format.convert (.real .double))) := by
  have hdegree : degree (l.map (p.format.convert (.real .double))) = degree l :=
    degree_map (Format.convert_beq_zero_of_join p.format.join_double) l
  rw [Poly.realRoots, hl, ← realRootsAt_degree, hdegree]
  rfl

/-- The search for real roots ends after as many levels as the degree exceeds four, however many zeros the
list ends with. On the way each derivative lowers the degree by one and no closed form is given a vanishing
leading coefficient, so none complains about it. Machine numbers of 64 bits may be undefined or infinite;
stored polynomials are converted to them first, which must neither lose a coefficient nor bring one forth. -/
theorem realRoots_depth (α : Type u) [Zero α] [One α] [Add α] [Sub α] [Neg α] [Mul α] [Div α] [NatCast α]
    [BEq α] [LT α] [DecidableLT α] [LE α] [DecidableLE α] [Elementary α] [Extended α] :
    (((1 : α) == 0) = false → ∀ (tol : α) (p : List α), FactorsFaithful α p.length →
      (0 < degree p → degree (derivative 1 p) + 1 = degree p) ∧
        (1 < degree p → degree (derivative 1 (derivative 1 p)) + 2 = degree p) ∧
        ∀ multiple, realRootsWithin tol (degree p - 4) multiple p = some (realRoots tol multiple p) ∧
          ∀ equation, realRoots tol multiple p ≠ .error (.zeroLeading equation)) ∧
      ∀ (p : Poly) (l : List p.format.Elem), p.single .realRoots = .ok l → l.length < 2 ^ 64 →
        (∀ c ∈ l, (p.format.convert (.real .double) c == 0) = (c == 0)) → ∀ multiple,
          realRootsWithin Poly.imaginaryTolerance (degree l - 4) multiple
              (l.map (p.format.convert (.real .double))) = some (p.realRoots multiple) ∧
            ∀ equation, p.realRoots multiple ≠ .error (.zeroLeading equation) := by
  refine ⟨fun hone tol p hfactor => ⟨degree_derivative hfactor, degree_derivative_twice hfactor,
    fun multiple => ⟨?_, ?_⟩⟩, fun p l hl hlen hconvert multiple => ?_⟩
  · exact realRootsWithin_eq hfactor tol p (le_refl _) multiple _ (le_refl _)
  · exact realRoots_ne_zeroLeading hone tol p multiple
  · have hN : (l.map (p.format.convert (.real .double))).length ≤ 2 ^ 64 := by
      rw [List.length_map]
      exact hlen.le
    rw [realRoots_single hl, ← degree_map_of_mem hconvert]
    exact ⟨realRootsWithin_eq factorsFaithful_float _ _ hN multiple _ (le_refl _),
      realRoots_ne_zeroLeading rfl _ _ multiple⟩

theorem realRoots_depth_quintic :
    (((1 : Float) == 0) = false ∧ FactorsFaithful Float [0, -1, 0, 0, 0, 1, (0 : Float)].length ∧
        realRootsWithin 1e-12 1 true [0, -1, 0, 0, 0, 1, (0 : Float)] =
          some (realRoots 1e-12 true [0, -1, 0, 0, 0, 1, (0 : Float)])) ∧
      ∀ equation, (Poly.ofList (.real .double) [0, -1, 0, 0, 0, 1, 0]).realRoots true ≠
        .error (.zeroLeading equation) := by
  have hone : ((1 : Float) == 0) = false := rfl
  have hfactor : FactorsFaithful Float [0, -1, 0, 0, 0, 1, (0 : Float)].length := fun i hi =>
    factorsFaithful_float i (hi.trans (by decide))
  obtain ⟨hlist, hstored⟩ := realRoots_depth Float
  have hdegree : degree [0, -1, 0, 0, 0, 1, (0 : Float)] = 5 := by decide
  have hwithin := ((hlist hone 1e-12 _ hfactor).2.2 true).1
  rw [hdegree] at hwithin
  exact ⟨⟨hone, hfactor, hwithin⟩, (hstored (Poly.ofList (.real .double) [0, -1, 0, 0, 0, 1, 0])
    [0, -1, 0, 0, 0, 1, 0] rfl (by decide) (fun _ _ => rfl) true).2⟩

end Solve

end PolyRoots
