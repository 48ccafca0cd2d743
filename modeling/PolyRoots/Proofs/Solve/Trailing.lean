import PolyRoots.Proofs.Coeffs.Congruence
import PolyRoots.Proofs.Coeffs.Limit
import PolyRoots.Proofs.Scalar.Range
import PolyRoots.Proofs.Scalar.Real
import PolyRoots.Proofs.Solve.RealRoots

universe u v

namespace PolyRoots

namespace Coeffs

variable {α : Type u} [Zero α] [One α] [Add α] [Sub α] [Neg α] [Mul α] [NatCast α] [BEq α] [LT α]
  [DecidableLT α] [Extended α] [Overflowing α]

theorem derivative_append_zeros {l z : List α} (hl : 1 < l.length) (hz : Zeros z)
    (hfactor : ∀ i < l.length + z.length, Extended.isFinite (fallingFactor i 1 : α)) :
    ∃ z', derivative 1 (l ++ z) = derivative 1 l ++ z' ∧ Zeros z' ∧ z'.length = z.length := by
  have hlen : ¬ (l ++ z).length ≤ 1 := by rw [List.length_append]; omega
  refine ⟨z.mapIdx fun i c => c * fallingFactor (i + (l.drop 1).length + 1) 1, ?_, ?_, List.length_mapIdx⟩
  · rw [derivative, if_neg one_ne_zero, if_neg hlen, List.drop_append_of_le_length hl.le,
      List.mapIdx_append, derivative, if_neg one_ne_zero, if_neg (Nat.not_le.2 hl)]
  · intro a ha
    obtain ⟨i, hi, rfl⟩ := List.mem_mapIdx.1 ha
    refine Overflowing.beq_zero_mul (hz _ (List.getElem_mem hi)) (hfactor _ ?_)
    rw [List.length_drop]
    omega

end Coeffs

namespace Solve

open Coeffs

variable {α : Type u} [Zero α] [One α] [Add α] [Sub α] [Neg α] [Mul α] [Div α] [NatCast α] [BEq α]
  [LT α] [DecidableLT α] [LE α] [DecidableLE α] [Elementary α] [Extended α] [Overflowing α]

theorem realRoots_append_zeros {N : Nat}
    (hfactor : ∀ i < N, Extended.isFinite (fallingFactor i 1 : α)) (tol : α) (multiple : Bool)
    {l z : List α} (hl : l ≠ []) (hz : Zeros z) (hN : l.length + z.length ≤ N) :
    realRoots tol multiple (l ++ z) = realRoots tol multiple l := by
  induction hn : l.length using Nat.strongRecOn generalizing l z multiple with
  | ind n ih =>
      subst hn
      have hdeg := degree_append_zeros l hz
      have hle := degree_le_length l
      by_cases hlt : degree l < 5
      · have hpos : 0 < l.length := List.length_pos_iff.2 hl
        rw [realRoots_of_degree_lt (by rwa [hdeg]), hdeg,
          List.take_append_of_le_length (by omega), realRoots_of_degree_lt hlt]
      · have hfive : 5 < l.length := by omega
        have hlen := length_derivative_one (p := l) (by omega)
        have hlen' := length_derivative_one (p := derivative 1 l) (by omega)
        obtain ⟨z₁, h₁, hz₁, hl₁⟩ := derivative_append_zeros (l := l) (by omega) hz
          fun i hi => hfactor i (by omega)
        obtain ⟨z₂, h₂, hz₂, hl₂⟩ := derivative_append_zeros (l := derivative 1 l) (by omega) hz₁
          fun i hi => hfactor i (by omega)
        have hne : derivative 1 l ≠ [] := List.ne_nil_of_length_pos (by omega)
        have hne' : derivative 1 (derivative 1 l) ≠ [] := List.ne_nil_of_length_pos (by omega)
        have hcritical := ih _ (by omega) true hne hz₁ (by omega) rfl
        have hinflection := ih _ (by omega) true hne' hz₂ (by omega) rfl
        have hscan : scanned multiple (l ++ z) = scanned multiple l := by
          unfold scanned
          rw [h₁, evaluate_append_zeros hl hz, evaluate_append_zeros hne hz₁]
        rw [realRoots_of_degree_ge (by rwa [hdeg]), h₁, hcritical, h₂, hinflection, hscan,
          realRoots_of_degree_ge hlt]

theorem realRoots_alike {N : Nat} (hfactor : ∀ i < N, Extended.isFinite (fallingFactor i 1 : α))
    (tol : α) (multiple : Bool) {p p' : List α} (h : Alike p p') (hp : p.length ≤ N)
    (hp' : p'.length ≤ N) : realRoots tol multiple p = realRoots tol multiple p' := by
  obtain ⟨l, z, z', rfl, rfl, hz, hz'⟩ := h
  rw [List.length_append] at hp hp'
  by_cases hl : l = []
  · subst hl
    rw [List.nil_append, List.nil_append, realRoots_of_degree_eq_zero hz.degree_eq_zero,
      realRoots_of_degree_eq_zero hz'.degree_eq_zero]
  · rw [realRoots_append_zeros hfactor tol multiple hl hz hp,
      realRoots_append_zeros hfactor tol multiple hl hz' hp']

section Exact

variable {K : Type v} [Field K] [LinearOrder K]

theorem zeros_map_finite {z y : List K} {m : Nat} (h : List.replicate m 0 = z ++ y) :
    Zeros (z.map Line.finite) := by
  intro a ha
  obtain ⟨x, hx, rfl⟩ := List.mem_map.1 ha
  have hmem : x ∈ List.replicate m (0 : K) := by
    rw [h]
    exact List.mem_append_left y hx
  rw [Line.finite_beq_zero, List.eq_of_mem_replicate hmem]
  exact beq_self_eq_true 0

theorem alike_of_agree {p p' : List K} (h : Agree p p') :
    Alike (p.map Line.finite) (p'.map Line.finite) := by
  obtain ⟨m, n, h⟩ := h
  -- one of the lists is the other one with some of its zeros
  rcases List.append_eq_append_iff.1 h with ⟨z, rfl, hz⟩ | ⟨z, rfl, hz⟩
  · exact ⟨_, [], z.map Line.finite, (List.append_nil _).symm, List.map_append, nofun, zeros_map_finite hz⟩
  · exact ⟨_, z.map Line.finite, [], List.map_append, (List.append_nil _).symm, zeros_map_finite hz, nofun⟩

theorem isFinite_fallingFactor_line (i k : Nat) :
    Extended.isFinite (fallingFactor i k : Line K) := by
  rw [fallingFactor_ordinary Line.ordinary_finite]
  rfl

variable [IsStrictOrderedRing K] [Elementary K]

theorem realRoots_of_agree (tol : Line K) (multiple : Bool) {p p' : List K} (h : Agree p p') :
    realRoots tol multiple (p.map Line.finite) = realRoots tol multiple (p'.map Line.finite) :=
  realRoots_alike (fun i _ => isFinite_fallingFactor_line i 1) tol multiple (alike_of_agree h)
    (le_max_left _ _) (le_max_right _ _)

end Exact

/-- Lists of machine numbers, undefined ones and infinities included, that are not longer than a word of
the machine can tell. -/
theorem realRoots_of_alike_float (tol : Float) (multiple : Bool) {p p' : List Float} (h : Alike p p')
    (hp : p.length < 2 ^ 64) (hp' : p'.length < 2 ^ 64) :
    realRoots tol multiple p = realRoots tol multiple p' :=
  realRoots_alike (fun _ => Binary.isFinite_fallingFactor) tol multiple h hp.le hp'.le

/-- Zeros at the end never matter: not to the ring operations, not to those that divide, and not to the
list of real roots, among exact scalars and among machine numbers. -/
theorem trailing_zeros {R : Type u} [CommRing R] [BEq R] [LawfulBEq R] [Extended R] [Extended.Exact R]
    {K : Type v} [Field K] [LinearOrder K] [IsStrictOrderedRing K] [Elementary K] :
    (∀ p p' q q' : List R, Agree p p' → Agree q q' → RingAlike p p' q q') ∧
      (∀ p p' q q' : List K, Agree p p' → Agree q q' → FieldAlike p p' q q') ∧
      (∀ (tol : Line K) (multiple : Bool) (p p' : List K), Agree p p' →
        realRoots tol multiple (p.map Line.finite) = realRoots tol multiple (p'.map Line.finite)) ∧
      ∀ (tol : Float) (multiple : Bool) (p p' : List Float), p.length < 2 ^ 64 → p'.length < 2 ^ 64 →
        Alike p p' → realRoots tol multiple p = realRoots tol multiple p' :=
  ⟨fun _ _ _ _ => ringAlike, fun _ _ _ _ => fieldAlike, fun tol multiple _ _ =>
    realRoots_of_agree tol multiple, fun tol multiple _ _ hp hp' h =>
    realRoots_of_alike_float tol multiple h hp hp'⟩

theorem trailing_zeros_quintic :
    (Agree [-1, 0, 0, 0, 0, (1 : ℤ)] [-1, 0, 0, 0, 0, 1, 0] ∧ Agree [1, (2 : ℤ), 0] [1, 2] ∧
        RingAlike [-1, 0, 0, 0, 0, (1 : ℤ)] [-1, 0, 0, 0, 0, 1, 0] [1, 2, 0] [1, 2]) ∧
      (Agree [-1, 0, 0, 0, 0, (1 : ℝ)] [-1, 0, 0, 0, 0, 1, 0] ∧ Agree [1, (2 : ℝ), 0] [1, 2] ∧
        FieldAlike [-1, 0, 0, 0, 0, (1 : ℝ)] [-1, 0, 0, 0, 0, 1, 0] [1, 2, 0] [1, 2]) ∧
      Alike [-1, 0, 0, 0, 0, 1, (-0 : Float)] [-1, 0, 0, 0, 0, 1, 0, 0] ∧
      realRoots 1e-12 true [-1, 0, 0, 0, 0, 1, (-0 : Float)] =
        realRoots 1e-12 true [-1, 0, 0, 0, 0, 1, 0, 0] := by
  obtain ⟨hring, hfield, _, hroots⟩ := trailing_zeros (R := ℤ) (K := ℝ)
  have hp {R : Type} [CommRing R] : Agree [-1, 0, 0, 0, 0, (1 : R)] [-1, 0, 0, 0, 0, 1, 0] := ⟨1, 0, rfl⟩
  have hq {R : Type} [CommRing R] : Agree [1, (2 : R), 0] [1, 2] := ⟨0, 1, rfl⟩
  have hzeros : Alike [-1, 0, 0, 0, 0, 1, (-0 : Float)] [-1, 0, 0, 0, 0, 1, 0, 0] :=
    ⟨[-1, 0, 0, 0, 0, 1], [-0], [0, 0], rfl, rfl, by decide, by decide⟩
  exact ⟨⟨hp, hq, hring _ _ _ _ hp hq⟩, ⟨hp, hq, hfield _ _ _ _ hp hq⟩, hzeros,
    hroots _ _ _ _ (by decide) (by decide) hzeros⟩

end Solve

end PolyRoots
