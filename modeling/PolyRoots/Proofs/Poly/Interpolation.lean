import PolyRoots.Poly.Basic
import PolyRoots.Proofs.Coeffs.Interpolation
import PolyRoots.Proofs.Coeffs.Transport
import PolyRoots.Proofs.Scalar.Guarded
import PolyRoots.Proofs.Scalar.Separation

universe u

namespace PolyRoots

namespace Grid

theorem toList_map {s : Shape} {α β : Type u} (f : α → β) (x : Grid s α) :
    (map f x).toList = x.toList.map f := by
  induction s generalizing α β with
  | nil => rfl
  | cons n s ih =>
    have hrow (r : Row n α) : (Row.map f r).toList = r.toList.map f := rfl
    rw [map, toList, rows_ofRows, ih, toList, List.flatMap_map, List.map_flatMap]
    simp only [hrow]

end Grid

theorem Tensor.toList_cast (t : Tensor) (f : Format) :
    (t.cast f).toList = t.cells.toList.map (t.format.convert f) := Grid.toList_map _ _

namespace Coeffs

variable {α : Type u} {l : List α}

theorem distinct_iff_pairwise [BEq α] : distinct l = true ↔ l.Pairwise fun a b => (a == b) = false := by
  induction l with
  | nil => simp [distinct]
  | cons a l ih => simp [distinct, ih]

theorem forall_withOthers {R : α → α → Prop} (hsymm : ∀ {a b}, R a b → R b a) (h : l.Pairwise R) :
    ∀ t ∈ withOthers l, ∀ b ∈ t.2, R t.1 b := by
  intro t ht
  have hpairs := (perm_of_mem_withOthers ht).symm.pairwise h hsymm
  exact (List.pairwise_cons.1 hpairs).1

end Coeffs

namespace Format

variable {f : Format}

def toQuotients (a : f.Elem) : f.quotients.Elem := f.convert (.real f.quotients) a

def gap (a b : f.Elem) : f.quotients.Elem := toQuotients (a - b)

theorem gap_beq_zero (hf : f ≠ .flag) {a b : f.Elem} (ha : f.isFinite a) (hb : f.isFinite b) :
    (gap a b == 0) = (a == b) := by
  have hjoin : f.join (.real f.quotients) = .real f.quotients := by
    rcases f with _ | _ | _ | _ <;> rfl
  exact (convert_beq_zero hf hjoin (a - b)).trans (sub_beq_zero hf ha hb)

end Format

namespace Poly

open Coeffs (withOthers)
open Format (gap toQuotients)

section Divisors

variable {x y : Tensor} {p : Poly}

def nodes (x y : Tensor) : List (x.format.join y.format).Elem := (x.cast (x.format.join y.format)).toList

def values (x y : Tensor) : List (x.format.join y.format).Elem := (y.cast (x.format.join y.format)).toList

theorem distinct_of_interpolate (h : interpolate x y = .ok p) : Coeffs.distinct x.cells.toList = true := by
  by_contra hne
  rw [Bool.not_eq_true] at hne
  unfold interpolate at h
  rw [hne] at h
  split_ifs at h
  contradiction

theorem eq_of_interpolate (hx : x.format ≠ .flag) (h : interpolate x y = .ok p) :
    (values x y).length = 1 ∨
      p = ofList (.real (x.format.join y.format).quotients)
        (Coeffs.interpolate toQuotients (nodes x y) (values x y)) := by
  unfold interpolate at h
  split_ifs at h
  dsimp only at h
  have hflag := Format.join_ne_flag y.format hx
  unfold nodes values
  generalize (x.cast (x.format.join y.format)).toList = xs at *
  generalize (y.cast (x.format.join y.format)).toList = ys at *
  generalize x.format.join y.format = f at *
  split at h
  · exact .inl rfl
  · exact absurd rfl hflag
  · exact .inl rfl
  · injection h with h
    exact .inr h.symm

theorem nodes_eq (x y : Tensor) :
    nodes x y = x.cells.toList.map (x.format.convert (x.format.join y.format)) := x.toList_cast _

theorem isFinite_of_mem_nodes (hx : x.format ≠ .flag) (hfin : ∀ a ∈ x.cells.toList, x.format.isFinite a) :
    ∀ a ∈ nodes x y, (x.format.join y.format).isFinite a := by
  intro a ha
  rw [nodes_eq] at ha
  obtain ⟨b, hb, rfl⟩ := List.mem_map.1 ha
  exact Format.isFinite_convert (Format.join_join_left _ _) hx (hfin b hb)

theorem gap_nodes (hx : x.format ≠ .flag) (hfin : ∀ a ∈ x.cells.toList, x.format.isFinite a) :
    ∀ a ∈ nodes x y, ∀ b ∈ nodes x y, (gap a b == 0) = (a == b) := by
  intro a ha b hb
  have hfinite := isFinite_of_mem_nodes (y := y) hx hfin
  exact Format.gap_beq_zero (Format.join_ne_flag _ hx) (hfinite a ha) (hfinite b hb)

/-- Accepted nodes are distinct, and stay so in a format that has room for them. -/
theorem pairwise_nodes (hx : x.format ≠ .flag) (hfin : ∀ a ∈ x.cells.toList, x.format.isFinite a)
    (h : interpolate x y = .ok p) (hfits : ∀ a ∈ x.cells.toList, x.format.Fits (x.format.join y.format) a) :
    (nodes x y).Pairwise fun a b => (a == b) = false := by
  have hdistinct := Coeffs.distinct_iff_pairwise.1 (distinct_of_interpolate h)
  rw [nodes_eq, List.pairwise_map]
  apply hdistinct.imp_of_mem
  intro a b ha hb hab
  rw [← hab]
  exact Format.convert_beq_convert (Format.join_join_left _ _) hx (hfin a ha) (hfin b hb) (hfits a ha)
    (hfits b hb)

/-- The polynomial through more than one point is Lagrange's form over the converted nodes. A difference by which
this divides is zero exactly if the two nodes are equal in the common format. As soon as this has room for every
node none of the differences is zero, and the run that refuses to divide by zero computes the same numbers. -/
theorem interpolate_divisors (hx : x.format ≠ .flag) (hfin : ∀ a ∈ x.cells.toList, x.format.isFinite a)
    (h : interpolate x y = .ok p) :
    ((values x y).length = 1 ∨ p = ofList (.real (x.format.join y.format).quotients)
      (Coeffs.interpolate toQuotients (nodes x y) (values x y))) ∧
    (∀ t ∈ withOthers (nodes x y), ∀ b ∈ t.2, (gap t.1 b == 0) = (t.1 == b)) ∧
    ((∀ a ∈ x.cells.toList, x.format.Fits (x.format.join y.format) a) →
      (∀ t ∈ withOthers (nodes x y), ∀ b ∈ t.2, (gap t.1 b == 0) = false) ∧
      Coeffs.interpolate (fun a => Guarded.value (toQuotients a)) (nodes x y) (values x y) =
        (Coeffs.interpolate toQuotients (nodes x y) (values x y)).map Guarded.value) := by
  have hgap : ∀ t ∈ withOthers (nodes x y), ∀ b ∈ t.2, (gap t.1 b == 0) = (t.1 == b) := by
    intro t ht b hb
    have hperm := Coeffs.perm_of_mem_withOthers ht
    apply gap_nodes hx hfin
    · exact hperm.mem_iff.1 List.mem_cons_self
    · exact hperm.mem_iff.1 (List.mem_cons_of_mem _ hb)
  refine ⟨eq_of_interpolate hx h, hgap, ?_⟩
  intro hfits
  have hall : ∀ t ∈ withOthers (nodes x y), ∀ b ∈ t.2, (gap t.1 b == 0) = false := by
    intro t ht b hb
    rw [hgap t ht b hb]
    refine Coeffs.forall_withOthers ?_ (pairwise_nodes hx hfin h hfits) t ht b hb
    intro a b hab
    rwa [Format.beq_comm (Format.join_ne_flag _ hx)]
  exact ⟨hall, Coeffs.interpolate_map Guarded.embedding_value toQuotients _ hall⟩

theorem interpolate_divisors_mixed :
    ∃ p, interpolate ⟨.int64, .ofList [0, 1, -3]⟩ ⟨.real .double, .ofList [1, 2, 5]⟩ = .ok p ∧
      ∀ t ∈ withOthers (nodes ⟨.int64, .ofList [0, 1, -3]⟩ ⟨.real .double, .ofList [1, 2, 5]⟩),
        ∀ b ∈ t.2, (gap t.1 b == 0) = false := by
  have hfits : ∀ a ∈ ([0, 1, -3] : List Int64), Format.int64.Fits (.real .double) a := by
    simp only [List.forall_mem_cons, Format.Fits]
    exact ⟨by decide +kernel, by decide +kernel, by decide +kernel, nofun⟩
  refine ⟨_, rfl, ?_⟩
  exact ((interpolate_divisors (x := ⟨.int64, .ofList [0, 1, -3]⟩) (y := ⟨.real .double, .ofList [1, 2, 5]⟩)
    nofun (fun _ _ => rfl) rfl).2.2 hfits).1

/-- Two integers that are told apart and have the same nearest floating-point number. -/
theorem interpolate_zero_divisor :
    ∃ p, interpolate ⟨.int64, .ofList [9007199254740992, 9007199254740993]⟩
        ⟨.real .double, .ofList [1, 2]⟩ = .ok p ∧
      ∃ t ∈ withOthers (nodes ⟨.int64, .ofList [9007199254740992, 9007199254740993]⟩
        ⟨.real .double, .ofList [1, 2]⟩), ∃ b ∈ t.2, gap t.1 b == 0 := by
  refine ⟨_, rfl, ?_⟩
  exact ⟨_, List.mem_cons_self, _, List.mem_cons_self, rfl⟩

end Divisors

end Poly

end PolyRoots
