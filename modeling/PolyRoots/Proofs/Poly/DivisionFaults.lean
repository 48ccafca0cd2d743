import PolyRoots.Proofs.Coeffs.Division
import PolyRoots.Proofs.Poly.Promotion
import PolyRoots.Proofs.Scalar.Conversion

namespace PolyRoots

namespace Poly

section Lists

/-- What keeps two coefficient lists from being divided. Two lists of integers lack a place for the
products in a long division. -/
def listFault? {f g : Format} (a : List f.Elem) (b : List g.Elem) : Option Fault :=
  if b.isEmpty then some .noEntry
  else if Coeffs.Zeros b then some .zeroDivisor
  else if a.isEmpty then some .emptyCoefficients
  else if (f = .int64 ∧ g = .int64) ∧ 0 < Coeffs.degree b ∧ Coeffs.degree b ≤ Coeffs.degree a then
    some .fractionalDigits
  else none

/-- A run that ends with the given fault, or with a value if there is none. -/
def EndsWith {α : Type} (r : Except Fault α) (o : Option Fault) : Prop :=
  match o with
  | some e => r = .error e
  | none => ∃ v, r = .ok v

theorem divModReal_endsWith (p : Precision) (a b : List p.Elem) :
    EndsWith (divModReal p (Coeffs.degree a) (Coeffs.degree b) a b) (listFault? (f := .real p) (g := .real p) a b) := by
  unfold divModReal listFault?
  cases b.isEmpty with
  | true => rfl
  | false =>
      have hint : ¬((Format.real p = .int64 ∧ Format.real p = .int64) ∧
          0 < Coeffs.degree b ∧ Coeffs.degree b ≤ Coeffs.degree a) := nofun
      rw [if_neg Bool.false_ne_true, if_neg Bool.false_ne_true]
      have hdivision : Coeffs.divModAt? (Coeffs.degree a) (Coeffs.degree b) a b = Coeffs.divMod? a b := rfl
      rw [hdivision]
      cases hdiv : Coeffs.divMod? a b with
      | none =>
          rw [if_pos (Coeffs.divMod?_eq_none_iff_zeros.1 hdiv)]
          rfl
      | some parts =>
          obtain ⟨s, t⟩ := parts
          have hzeros : ¬Coeffs.Zeros b := fun h => by
            rw [Coeffs.divMod?_eq_none_iff_zeros.2 h] at hdiv
            cases hdiv
          rw [if_neg hzeros]
          have hnil := Coeffs.divMod?_eq_nil_iff hdiv
          cases a with
          | nil =>
              rcases hnil.2 rfl with rfl | rfl
              · rfl
              · cases s <;> rfl
          | cons x a =>
              have hparts : s ≠ [] ∧ t ≠ [] := by
                rw [← not_or, hnil]
                exact List.cons_ne_nil x a
              obtain ⟨y, s, rfl⟩ := List.exists_cons_of_ne_nil hparts.1
              obtain ⟨z, t, rfl⟩ := List.exists_cons_of_ne_nil hparts.2
              rw [List.isEmpty_cons, if_neg Bool.false_ne_true, if_neg hint]
              exact ⟨_, rfl⟩

/-- The first digit of a long division is written, and its product with the divisor has no place among
integers. -/
theorem divLoopWhole_int64 (lead : Int64) (tail : List Int64) {n : Nat} (hn : n ≠ 0) {r : List Int64} (hr : r ≠ []) :
    divLoopWhole .int64 lead tail n r = .error .fractionalDigits := by
  obtain ⟨n, rfl⟩ := Nat.exists_eq_succ_of_ne_zero hn
  obtain ⟨c, r, rfl⟩ := List.exists_cons_of_ne_nil hr
  rfl

theorem divModWhole_const (a : List Int64) {c : Int64} {b : List Int64} (hdeg : Coeffs.degree (c :: b) = 0) :
    EndsWith (divModWhole .int64 (Coeffs.degree a) (Coeffs.degree (c :: b)) a (c :: b))
      (listFault? (f := .int64) (g := .int64) a (c :: b)) := by
  have hzeros := Coeffs.zeros_cons_iff (c := c) (q := b)
  unfold divModWhole listFault?
  rw [List.isEmpty_cons, if_neg Bool.false_ne_true, if_pos hdeg]
  cases hc : c == 0 with
  | true =>
      rw [if_pos (hzeros.2 ⟨hdeg, hc⟩)]
      simp only [hc]
      rfl
  | false =>
      have hne : ¬Coeffs.Zeros (c :: b) := fun h => by
        rw [(hzeros.1 h).2] at hc
        cases hc
      rw [if_neg hne]
      cases a with
      | nil =>
          simp only [hc]
          rfl
      | cons x a =>
          rw [List.isEmpty_cons, if_neg Bool.false_ne_true, if_neg fun h => h.2.1.ne' hdeg]
          simp only [hc]
          exact ⟨_, rfl⟩

theorem divModWhole_lower {a : List Int64} {c : Int64} {b : List Int64}
    (hlt : Coeffs.degree a < Coeffs.degree (c :: b)) :
    EndsWith (divModWhole .int64 (Coeffs.degree a) (Coeffs.degree (c :: b)) a (c :: b))
      (listFault? (f := .int64) (g := .int64) a (c :: b)) := by
  have hpos : 0 < Coeffs.degree (c :: b) := Nat.zero_lt_of_lt hlt
  have hne : ¬Coeffs.Zeros (c :: b) := fun h => hpos.ne' (Coeffs.zeros_cons_iff.1 h).1
  unfold divModWhole listFault?
  rw [List.isEmpty_cons, if_neg Bool.false_ne_true, if_neg hpos.ne', if_pos hlt, if_neg hne]
  cases a with
  | nil => rfl
  | cons x a =>
      rw [List.isEmpty_cons, if_neg Bool.false_ne_true, if_neg fun h => hlt.not_ge h.2.2]
      exact ⟨_, rfl⟩

theorem divModWhole_long {a : List Int64} {c : Int64} {b : List Int64} (hpos : 0 < Coeffs.degree (c :: b))
    (hle : Coeffs.degree (c :: b) ≤ Coeffs.degree a) :
    EndsWith (divModWhole .int64 (Coeffs.degree a) (Coeffs.degree (c :: b)) a (c :: b))
      (listFault? (f := .int64) (g := .int64) a (c :: b)) := by
  have hne : ¬Coeffs.Zeros (c :: b) := fun h => hpos.ne' (Coeffs.zeros_cons_iff.1 h).1
  cases a with
  | nil => exact absurd hpos hle.not_gt
  | cons x a =>
      have hdividend : ((x :: a).take (Coeffs.degree (x :: a) + 1)).reverse ≠ [] := by simp
      obtain ⟨lead, tail, hdivisor⟩ : ∃ lead tail,
          ((c :: b).take (Coeffs.degree (c :: b) + 1)).reverse = lead :: tail :=
        List.exists_cons_of_ne_nil (by simp)
      unfold divModWhole listFault?
      rw [if_neg hpos.ne', if_neg hle.not_gt, hdivisor, List.isEmpty_cons, List.isEmpty_cons,
        if_neg Bool.false_ne_true, if_neg hne, if_neg Bool.false_ne_true, if_pos ⟨⟨rfl, rfl⟩, hpos, hle⟩]
      exact congrArg (· >>= _) (divLoopWhole_int64 lead tail (by omega) hdividend)

theorem divModWhole_endsWith (a b : List Int64) :
    EndsWith (divModWhole .int64 (Coeffs.degree a) (Coeffs.degree b) a b) (listFault? (f := .int64) (g := .int64) a b) := by
  cases b with
  | nil => rfl
  | cons c b =>
      rcases Nat.eq_zero_or_pos (Coeffs.degree (c :: b)) with hdeg | hpos
      · exact divModWhole_const a hdeg
      · rcases Nat.lt_or_ge (Coeffs.degree a) (Coeffs.degree (c :: b)) with hlt | hle
        · exact divModWhole_lower hlt
        · exact divModWhole_long hpos hle

theorem divModIn_endsWith {f : Format} (hf : f ≠ .flag) (a b : List f.Elem) :
    EndsWith (divModIn f (Coeffs.degree a) (Coeffs.degree b) a b) (listFault? a b) := by
  cases f with
  | flag => exact absurd rfl hf
  | int64 => exact divModWhole_endsWith a b
  | real p => exact divModReal_endsWith p a b

theorem listFault?_map {f g h : Format} (hf : f ≠ .flag) (hg : g ≠ .flag) (hh : f.join g = h)
    (a : List f.Elem) (b : List g.Elem) :
    listFault? (a.map (f.convert h)) (b.map (g.convert h)) = listFault? a b := by
  have ha := Format.convert_beq_zero_of_join (hh ▸ Format.join_join_left f g)
  have hb := Format.convert_beq_zero_of_join (hh ▸ Format.join_join_right f g)
  have hzeros : Coeffs.Zeros (b.map (g.convert h)) ↔ Coeffs.Zeros b := by
    simp [Coeffs.Zeros, hb]
  have hint : h = .int64 ∧ h = .int64 ↔ f = .int64 ∧ g = .int64 := by
    rw [and_self_iff, ← hh, Format.join_eq_int64_iff hf hg]
  simp only [listFault?, Coeffs.degree_map ha, Coeffs.degree_map hb, hzeros, hint, List.isEmpty_map]

end Lists

def divisionFault? (p q : Poly) : Option Fault :=
  match p.body.single?, q.body.single? with
  | none, _ => some (.batched .divmod p.coeffs.shape)
  | some _, none => some (.batched .divmod q.coeffs.shape)
  | some a, some b => listFault? a b

theorem divMod_endsWith {p q : Poly} (hp : p.format ≠ .flag) (hq : q.format ≠ .flag) :
    EndsWith (p.divMod q) (p.divisionFault? q) := by
  unfold divMod single divisionFault?
  cases p.body.single? with
  | none => rfl
  | some a =>
      cases q.body.single? with
      | none => rfl
      | some b =>
          have hlists := divModIn_endsWith (Format.join_ne_flag q.format hp)
            (a.map (p.format.convert _)) (b.map (q.format.convert _))
          rwa [listFault?_map hp hq rfl, degree_map_convert (Format.join_join_left p.format q.format),
            degree_map_convert (Format.join_join_right p.format q.format)] at hlists

/-- Whether division has a result, and which fault it meets otherwise, is decided by the shapes, the zeros
and the degrees of its operands. -/
theorem divMod_outcome (p q : Poly) (hp : p.format ≠ .flag) (hq : q.format ≠ .flag) :
    match p.divisionFault? q with
    | some e => p.divMod q = .error e ∧ p.div q = .error e ∧ p.mod q = .error e
    | none => ∃ s r, p.divMod q = .ok (s, r) ∧ p.div q = .ok s ∧ p.mod q = .ok r := by
  have h := divMod_endsWith hp hq
  unfold div mod
  cases hfault : p.divisionFault? q with
  | some e =>
      rw [hfault] at h
      rw [show p.divMod q = .error e from h]
      exact ⟨rfl, rfl, rfl⟩
  | none =>
      rw [hfault] at h
      obtain ⟨⟨s, r⟩, h⟩ := h
      rw [h]
      exact ⟨s, r, rfl, rfl, rfl⟩

theorem divMod_outcome_mixed :
    Format.int64 ≠ .flag ∧ Format.real .double ≠ .flag ∧
      ∃ s r, (ofList .int64 [-1, 0, 1]).divMod (ofList (.real .double) [-1, 1]) = .ok (s, r) ∧
        (ofList .int64 [-1, 0, 1]).div (ofList (.real .double) [-1, 1]) = .ok s ∧
        (ofList .int64 [-1, 0, 1]).mod (ofList (.real .double) [-1, 1]) = .ok r :=
  ⟨nofun, nofun, divMod_outcome (ofList .int64 [-1, 0, 1]) (ofList (.real .double) [-1, 1]) nofun nofun⟩

/-- Among integers `x² - 1` divided by `x - 1` has no result, though the digits have no fractions. -/
theorem divMod_integers_refused :
    ¬Coeffs.Zeros ([-1, 1] : List Int64) ∧
      (ofList .int64 [-1, 0, 1]).divMod (ofList .int64 [-1, 1]) = .error .fractionalDigits :=
  ⟨by decide, rfl⟩

end Poly

end PolyRoots
