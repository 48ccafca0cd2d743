import PolyRoots.Proofs.Coeffs.Trailing
import PolyRoots.Proofs.Solve.FiniteForms
import PolyRoots.Proofs.Solve.RealRoots

universe u v

namespace PolyRoots

namespace Solve

section Except

variable {ε : Type v} {β γ δ : Type u} {x : Except ε β} {y : Except ε γ} {e : ε}

theorem map_error_iff {g : β → γ} : x.map g = .error e ↔ x = .error e := by
  cases x <;> simp [Except.map]

theorem bind_map_error_iff {g : β → γ → δ} :
    (x.bind fun b => y.map (g b)) = .error e ↔ x = .error e ∨ (∃ b, x = .ok b) ∧ y = .error e := by
  cases x <;> cases y <;> simp [Except.bind, Except.map]

end Except

theorem error_iff_of_ok {α β : Type u} [Zero α] [BEq α] {a : α} {e : Equation} {f : Fault}
    {form : Except Fault β} (hzero : a == 0 → form = .error (.zeroLeading e))
    (hok : (a == 0) = false → ∃ roots, form = .ok roots) :
    form = .error f ↔ a == 0 ∧ f = .zeroLeading e := by
  cases ha : a == 0 with
  | true => simp [hzero ha, eq_comm]
  | false =>
      obtain ⟨roots, hroots⟩ := hok ha
      simp [hroots]

section Quotient

variable {α : Type u} [Zero α] [Div α] [BEq α] {x y : α}

theorem quotient_of_beq_zero (h : y == 0) : quotient x y = .error .zeroDenominator := if_pos h

theorem quotient_of_beq_zero_eq_false (h : (y == 0) = false) : quotient x y = .ok (x / y) :=
  if_neg (Bool.eq_false_iff.1 h)

end Quotient

section Depress

variable {α : Type u} [Zero α] [Add α] [Sub α] [Mul α] [Div α] [NatCast α] [BEq α]

/-- One of the denominators of a depressed quartic with this leading coefficient is zero. -/
def Vanishing (a : α) : Prop := 8 * (a * a) == 0 ∨ 8 * (a * a) * a == 0 ∨ 256 * (a * a) * (a * a) == 0

def QuarticFails (a : α) (f : Fault) : Prop :=
  a == 0 ∧ f = .zeroLeading .quartic ∨ (a == 0) = false ∧ Vanishing a ∧ f = .zeroDenominator

instance instDecidableVanishing (a : α) : Decidable (Vanishing a) :=
  inferInstanceAs (Decidable (_ ∨ _ ∨ _))

theorem depress_of_vanishing {a : α} (h : Vanishing a) (b c d e : α) :
    depress a b c d e = .error .zeroDenominator := by
  rw [depress]
  cases hp : 8 * (a * a) == 0 with
  | true => rw [quotient_of_beq_zero hp]; rfl
  | false =>
      rw [quotient_of_beq_zero_eq_false hp]
      cases hq : 8 * (a * a) * a == 0 with
      | true => rw [quotient_of_beq_zero hq]; rfl
      | false =>
          have hr : 256 * (a * a) * (a * a) == 0 :=
            (h.resolve_left (Bool.eq_false_iff.1 hp)).resolve_left (Bool.eq_false_iff.1 hq)
          rw [quotient_of_beq_zero_eq_false hq, quotient_of_beq_zero hr]
          rfl

theorem depress_of_not_vanishing {a : α} (h : ¬Vanishing a) (b c d e : α) :
    ∃ f, depress a b c d e = .ok f := by
  rw [Vanishing, not_or, not_or, Bool.not_eq_true, Bool.not_eq_true, Bool.not_eq_true] at h
  obtain ⟨hp, hq, hr⟩ := h
  rw [depress, quotient_of_beq_zero_eq_false hp, quotient_of_beq_zero_eq_false hq,
    quotient_of_beq_zero_eq_false hr]
  exact ⟨_, rfl⟩

end Depress

section Forms

variable {α : Type u} [Zero α] [Add α] [Sub α] [Neg α] [Mul α] [Div α] [NatCast α] [BEq α] [LT α]
  [DecidableLT α] [Elementary α] {a b c d e : α} {f : Fault}

theorem quadraticReal_error_iff {multiple : Bool} :
    quadraticReal multiple a b c = .error f ↔ a == 0 ∧ f = .zeroLeading .quadratic :=
  error_iff_of_ok (fun ha => if_pos ha) fun ha => quadraticReal_ok multiple ha b c

variable [One α]

theorem cubicReal_error_iff [LE α] [DecidableLE α] {multiple : Bool} :
    cubicReal multiple a b c d = .error f ↔ a == 0 ∧ f = .zeroLeading .cubic :=
  error_iff_of_ok (fun ha => if_pos ha) fun ha => cubicReal_ok multiple ha b c d

theorem cubicComplex_error_iff :
    cubicComplex a b c d = .error f ↔ a == 0 ∧ f = .zeroLeading .cubic :=
  error_iff_of_ok (fun ha => if_pos ha) fun ha => cubicComplex_ok ha b c d

theorem quarticComplex_error_iff (hone : ((1 : α) == 0) = false) :
    quarticComplex a b c d e = .error f ↔ QuarticFails a f := by
  unfold QuarticFails
  cases ha : a == 0 with
  | true => simp [quarticComplex, ha, eq_comm]
  | false =>
      rw [quarticComplex, if_neg (Bool.eq_false_iff.1 ha)]
      by_cases hv : Vanishing a
      · simp [depress_of_vanishing hv, bind, Except.bind, hv, eq_comm]
      · obtain ⟨g, hg⟩ := depress_of_not_vanishing hv b c d e
        obtain ⟨w, hw⟩ := cubicComplex_ok hone (g.p / 2) g.resolventTerm (-g.q * g.q / 64)
        simp only [hg, hv, hw, bind, Except.bind, pure, Except.pure]
        split <;> simp

theorem quarticReal_error_iff [Extended α] (hone : ((1 : α) == 0) = false) {tol : α} :
    quarticReal tol a b c d e = .error f ↔ QuarticFails a f := by
  rw [← quarticComplex_error_iff (b := b) (c := c) (d := d) (e := e) hone, quarticReal]
  cases quarticComplex a b c d e <;> simp [bind, Except.bind, pure, Except.pure]

end Forms

section ClosedForm

open Coeffs

variable {α : Type u} [Zero α] [One α] [Add α] [Sub α] [Neg α] [Mul α] [Div α] [NatCast α] [BEq α] [LT α]
  [DecidableLT α] [LE α] [DecidableLE α] [Elementary α] [Extended α] {f : Fault}

def VanishingLead (p : List α) : Prop := ∃ a, leading? p = some a ∧ Vanishing a

theorem closedForm_error_iff (hone : ((1 : α) == 0) = false) {tol : α} {multiple : Bool} {q : List α} {a : α}
    (hq : q.length < 5) (ha : (a == 0) = false) :
    closedForm tol multiple (q ++ [a]) = .error f ↔ q.length = 4 ∧ Vanishing a ∧ f = .zeroDenominator := by
  match q, hq with
  | [], _ => simp [closedForm]
  | [_], _ => simp [closedForm]
  | [_, _], _ => simp [closedForm, quadraticReal_error_iff, ha]
  | [_, _, _], _ => simp [closedForm, cubicReal_error_iff, ha]
  | [_, _, _, _], _ => simp [closedForm, quarticReal_error_iff hone, QuarticFails, ha]

theorem closedForm_take_error_iff (hone : ((1 : α) == 0) = false) {tol : α} {multiple : Bool} {p : List α}
    (hp : degree p < 5) :
    closedForm tol multiple (p.take (degree p + 1)) = .error f ↔
      degree p = 4 ∧ VanishingLead p ∧ f = .zeroDenominator := by
  rcases take_degree p with hz | ⟨q, a, hq, hlen, ha⟩
  · have hdeg := hz.degree_eq_zero
    rw [hdeg, closedForm_of_length_le_one _ _ (List.length_take_le 1 p)]
    simp
  · have hlead : leading? p = some a := by
      rw [leading?, ← List.getElem?_take_of_lt (Nat.lt_succ_self (degree p)), hq, ← hlen]
      exact List.getElem?_concat_length
    rw [hq, closedForm_error_iff hone (hlen.trans_lt hp) ha, hlen]
    simp [VanishingLead, hlead]

end ClosedForm

end Solve

end PolyRoots
