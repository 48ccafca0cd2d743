import PolyRoots.Proofs.Scalar.Guarded
import PolyRoots.Proofs.Solve.Depth
import PolyRoots.Proofs.Solve.Newton
import PolyRoots.Proofs.Solve.Transport

universe u

namespace PolyRoots

namespace Solve

open Coeffs Elementary Guarded

section Search

variable {α : Type u} [Zero α] [One α] [Add α] [Sub α] [Neg α] [Mul α] [Div α] [NatCast α] [BEq α] [LT α]
  [DecidableLT α] [LE α] [Extended α] [Signed α]

theorem seed_value (a b : α) : seed (value a) (value b) = value (seed a b) := by
  have hleft : (value a == -Extended.infinity) = (a == -Extended.infinity) := rfl
  have hright : (value b == Extended.infinity) = (b == Extended.infinity) := rfl
  have hone : value b < 1 ↔ b < 1 := value_lt
  have hneg : -1 < value a ↔ -1 < a := value_lt
  have hmiddle : (value a + value b) / 2 = value ((a + b) / 2) := (embedding_value.div_two (a + b)).symm
  simp only [seed, hleft, hright, hone, hneg, hmiddle]
  split_ifs <;> rfl

theorem search_value (f df : α → α) (a b : α) (n : Nat) :
    search (lift f) (lift df) (value a) (value b) n = (search f df a b n).map value := by
  have h : Embedding (value : α → Guarded α) := embedding_value
  have hvalue (x : α) : lift f (value x) = value (f x) := rfl
  have hsteps (x : α) : (newtonSteps (lift f) (lift df) n (value x) (value (f x))).after
      [value a, value b, value x] [] = ((newtonSteps f df n x (f x)).after [a, b, x] []).map value := by
    rw [newtonSteps_map h hvalue fun _ => rfl, Search.map_after]
    rfl
  simp only [search, hvalue, h.lt, h.beq_zero, h.beq, ← h.mul, h.zero_lt, seed_value, hsteps]
  split_ifs <;> rfl

end Search

section Breakpoints

variable {α : Type u}

theorem mem_of_mem_insertNew [BEq α] {l xs : List α} {x : α} (h : x ∈ insertNew l xs) : x ∈ l ∨ x ∈ xs := by
  induction xs generalizing l with
  | nil => exact .inl h
  | cons y xs ih =>
      rw [insertNew, List.foldl_cons] at h
      rcases ih h with h | h
      · split at h
        · exact .inl h
        · rcases List.mem_append.1 h with h | h
          · exact .inl h
          · exact .inr (List.mem_cons.2 (.inl (List.mem_singleton.1 h)))
      · exact .inr (List.mem_cons_of_mem y h)

theorem isNaN_of_mem_breakpoints [Neg α] [BEq α] [LT α] [DecidableLT α] [Extended α]
    (hinf : Extended.isNaN (Extended.infinity : α) = false)
    (hneg : Extended.isNaN (-Extended.infinity : α) = false) {candidates : List α} {x : α}
    (h : x ∈ breakpoints candidates) : Extended.isNaN x = false := by
  rw [breakpoints, List.mem_mergeSort] at h
  rcases mem_of_mem_insertNew h with h | h
  · rcases List.mem_pair.1 h with rfl | rfl
    · exact hneg
    · exact hinf
  · exact Extended.isNaN_of_isFinite (List.mem_filter.1 h).2

end Breakpoints

section RealRoots

variable {α : Type u} [Zero α] [One α] [Add α] [Sub α] [Neg α] [Mul α] [Div α] [NatCast α] [BEq α]
  [LT α] [DecidableLT α] [LE α] [DecidableLE α] [Elementary α] [Extended α]

def quarticDerivative (p : List α) : List α := (derivative 1)^[degree p - 4] p

omit [Add α] [Neg α] [Div α] [LT α] [DecidableLT α] [LE α] [DecidableLE α] [Elementary α] [Extended α] in
theorem quarticDerivative_derivative {p : List α} (hdeg : degree (derivative 1 p) + 1 = degree p)
    (h : 5 ≤ degree p) : quarticDerivative (derivative 1 p) = quarticDerivative p := by
  obtain ⟨n, hn⟩ : ∃ n, degree p = n + 5 := ⟨degree p - 5, by omega⟩
  rw [quarticDerivative, quarticDerivative, ← Function.iterate_succ_apply,
    show degree (derivative 1 p) - 4 = n by omega, show degree p - 4 = n + 1 by omega]

/-- All quartics that the search comes across are one derivative of the polynomial, so the search fails only
with that one. -/
theorem realRoots_error_iff {N : Nat} (hone : ((1 : α) == 0) = false) (hfactor : FactorsFaithful α N) {tol : α}
    {p : List α} (hN : p.length ≤ N) {multiple : Bool} {f : Fault} :
    realRoots tol multiple p = .error f ↔
      4 ≤ degree p ∧ VanishingLead (quarticDerivative p) ∧ f = .zeroDenominator := by
  refine degree_induction hfactor (motive := fun p => ∀ multiple, realRoots tol multiple p = .error f ↔
    4 ≤ degree p ∧ VanishingLead (quarticDerivative p) ∧ f = .zeroDenominator) ?_ ?_ p hN multiple
  · intro p h multiple
    have hself : quarticDerivative p = p := by
      rw [quarticDerivative, show degree p - 4 = 0 by omega, Function.iterate_zero_apply]
    have hfour : degree p = 4 ↔ 4 ≤ degree p := by omega
    rw [realRoots_of_degree_lt h, map_error_iff, closedForm_take_error_iff hone h, hself, hfour]
  · intro p h hdeg hdeg' ih₁ ih₂ multiple
    rw [realRoots_of_degree_ge h, bind_map_error_iff, ih₁, ih₂, quarticDerivative_derivative hdeg (by omega)]
    constructor
    · rintro (⟨-, hlead, hf⟩ | ⟨-, hfour, hlead, hf⟩)
      · exact ⟨by omega, hlead, hf⟩
      · rw [quarticDerivative_derivative (by omega) (by omega),
          quarticDerivative_derivative hdeg (by omega)] at hlead
        exact ⟨by omega, hlead, hf⟩
    · rintro ⟨-, hlead, hf⟩
      exact .inl ⟨by omega, hlead, hf⟩

end RealRoots

section Main

variable {α : Type u} [Zero α] [One α] [Add α] [Sub α] [Neg α] [Mul α] [Div α] [NatCast α] [BEq α]
  [LT α] [DecidableLT α] [LE α] [DecidableLE α] [Elementary α] [Extended α]

/-- The closed forms fail for a vanishing leading coefficient and say so. Those of degree four also fail for
one that makes a denominator vanish. -/
structure Failures (multiple : Bool) (tol a b c d e : α) (f : Fault) : Prop where
  quadratic : quadraticReal multiple a b c = .error f ↔ a == 0 ∧ f = .zeroLeading .quadratic
  cubic : cubicReal multiple a b c d = .error f ↔ a == 0 ∧ f = .zeroLeading .cubic
  cubicRoots : cubicComplex a b c d = .error f ↔ a == 0 ∧ f = .zeroLeading .cubic
  quarticRoots : quarticComplex a b c d e = .error f ↔ QuarticFails a f
  quartic : quarticReal tol a b c d e = .error f ↔ QuarticFails a f

/-- The closed forms compute nothing undefined: guarded scalars are not refused, and the denominators in
front of which no test stands are not zero. -/
structure FormsDefined (multiple : Bool) (a b c d : α) : Prop where
  linear : -value b / value a = value (-b / a)
  quadratic : quadraticReal multiple (value a) (value b) (value c) =
    (quadraticReal multiple a b c).map (List.map value)
  cubic : cubicReal multiple (value a) (value b) (value c) (value d) =
    (cubicReal multiple a b c d).map (List.map value)
  cubicDenominator : (3 * a == 0) = false
  quarticShift : (4 * a == 0) = false

variable (α) in
structure SearchDefined : Prop where
  search (f df : α → α) (a b : α) (n : Nat) :
    search (lift f) (lift df) (value a) (value b) n = (search f df a b n).map value
  ends (candidates : List α) (x : α) : x ∈ breakpoints candidates → Extended.isNaN x = false

theorem failures (hone : ((1 : α) == 0) = false) (multiple : Bool) (tol a b c d e : α) (f : Fault) :
    Failures multiple tol a b c d e f where
  quadratic := quadraticReal_error_iff
  cubic := cubicReal_error_iff
  cubicRoots := cubicComplex_error_iff
  quarticRoots := quarticComplex_error_iff hone
  quartic := quarticReal_error_iff hone

omit [Extended α] in
theorem formsDefined [Signed α] {a : α} (ha : (a == 0) = false) (multiple : Bool) (b c d : α) :
    FormsDefined multiple a b c d where
  linear := (elementaryEmbedding_value.div (-b) ha).symm
  quadratic := quadraticReal_map elementaryEmbedding_value multiple ha b c
  cubic := cubicReal_map elementaryEmbedding_value multiple ha b c d
  cubicDenominator := Signed.three_mul_beq_zero ha
  quarticShift := Signed.four_mul_beq_zero ha

omit [DecidableLE α] [Elementary α] in
theorem searchDefined [Signed α] (hinf : Extended.isNaN (Extended.infinity : α) = false)
    (hneg : Extended.isNaN (-Extended.infinity : α) = false) : SearchDefined α where
  search := search_value
  ends _ _ := isNaN_of_mem_breakpoints hinf hneg

end Main

theorem not_vanishing_of_above {a : Float} (ha : Binary.Above (-270) (Binary.unpacked a)) : ¬Vanishing a := by
  have hsq := Binary.above_mul ha ha (by decide)
  have h8 := Binary.above_mul (Binary.above_zero_natCast (n := 8) (by decide) (by decide)) hsq (by decide)
  have h256 := Binary.above_mul (Binary.above_natCast (n := 256) (by decide) (by decide)) hsq (by decide)
  have hp : (8 * (a * a) == 0) = false := Binary.beq_zero_of_above h8
  have hq : (8 * (a * a) * a == 0) = false := Binary.beq_zero_of_above (Binary.above_mul h8 ha (by decide))
  have hr : (256 * (a * a) * (a * a) == 0) = false :=
    Binary.beq_zero_of_above (Binary.above_mul h256 hsq (by decide))
  rintro (h | h | h)
  · exact Bool.eq_false_iff.1 hp h
  · exact Bool.eq_false_iff.1 hq h
  · exact Bool.eq_false_iff.1 hr h

/-- When the closed forms and the search for real roots fail among machine numbers of 64 bits, be they finite
or not, and that nothing else that is undefined is computed on the way. -/
theorem realRoots_domain (multiple : Bool) (tol a b c d e : Float) (p : Poly) {l : List p.format.Elem}
    (hl : p.single .realRoots = .ok l) (hlen : l.length < 2 ^ 64) (f : Fault) :
    Failures multiple tol a b c d e f ∧ ((a == 0) = false → FormsDefined multiple a b c d) ∧
      (Binary.Above (-270) (Binary.unpacked a) → ¬Vanishing a) ∧ SearchDefined Float ∧
      (p.realRoots multiple = .error f ↔ 4 ≤ degree (l.map (p.format.convert (.real .double))) ∧
        VanishingLead (quarticDerivative (l.map (p.format.convert (.real .double)))) ∧
        f = .zeroDenominator) := by
  refine ⟨failures rfl multiple tol a b c d e f, fun ha => formsDefined ha multiple b c d,
    not_vanishing_of_above, searchDefined rfl rfl, ?_⟩
  rw [realRoots_single hl]
  refine realRoots_error_iff rfl factorsFaithful_float ?_
  rw [List.length_map]
  exact hlen.le

theorem realRoots_domain_unity : (Poly.ofList (.real .double) [-1, 0, 0, 0, 1]).single .realRoots =
      .ok [-1, 0, 0, 0, 1] ∧ ((1 : Float) == 0) = false ∧ Binary.Above (-270) (Binary.unpacked 1) ∧
    ∀ f, quarticReal 1e-12 1 0 0 0 (-1 : Float) ≠ .error f ∧
      (Poly.ofList (.real .double) [-1, 0, 0, 0, 1]).realRoots true ≠ .error f := by
  have hone : ((1 : Float) == 0) = false := rfl
  have habove : Binary.Above (-270) (Binary.unpacked 1) := Binary.above_one.mono (by decide)
  refine ⟨rfl, hone, habove, fun f => ?_⟩
  obtain ⟨hforms, -, hvanishing, -, hroots⟩ := realRoots_domain true 1e-12 1 0 0 0 (-1)
    (Poly.ofList (.real .double) [-1, 0, 0, 0, 1]) rfl (by decide) f
  constructor
  · intro herror
    rcases hforms.quartic.1 herror with ⟨hzero, -⟩ | ⟨-, hvanish, -⟩
    · exact Bool.eq_false_iff.1 hone hzero
    · exact hvanishing habove hvanish
  · intro herror
    obtain ⟨-, ⟨a, ha, hvanish⟩, -⟩ := hroots.1 herror
    have hlead : leading? (quarticDerivative [-1, 0, 0, 0, (1 : Float)]) = some 1 := by decide
    obtain rfl : 1 = a := Option.some.inj (hlead.symm.trans ha)
    exact hvanishing habove hvanish

/-- The fourth power of a leading coefficient other than zero may vanish. -/
theorem quarticComplex_underflow : ((1e-100 : Float) == 0) = false ∧
    quarticComplex (1e-100 : Float) 0 0 0 0 = .error .zeroDenominator := by
  have hlead : ((1e-100 : Float) == 0) = false := by decide +kernel
  have hpower : 256 * ((1e-100 : Float) * 1e-100) * (1e-100 * 1e-100) == 0 := by decide +kernel
  exact ⟨hlead, (quarticComplex_error_iff rfl).2 (.inr ⟨hlead, .inr (.inr hpower), rfl⟩)⟩

end Solve

end PolyRoots
