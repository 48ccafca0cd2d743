import Mathlib.Tactic.FieldSimp
import PolyRoots.Proofs.Cplx.Roots
import PolyRoots.Proofs.Solve.Vieta
import PolyRoots.Solve.Cubic

universe u

namespace PolyRoots

namespace Solve

section Formula

variable {F : Type u} [Field F]

theorem vieta₃_cube_roots {w : Row 3 F} {z : F} (h₀₁ : w.get 0 ≠ w.get 1) (h₀₂ : w.get 0 ≠ w.get 2)
    (h₁₂ : w.get 1 ≠ w.get 2) (hw : ∀ k, w.get k * w.get k * w.get k = z) : Vieta₃ 1 0 0 (-z) w := by
  have hpair {x y : F} (hne : x ≠ y) (hx : x * x * x = z) (hy : y * y * y = z) :
      x * x + x * y + y * y = 0 := by
    have hmul : (x - y) * (x * x + x * y + y * y) = 0 := by linear_combination hx - hy
    exact (mul_eq_zero.1 hmul).resolve_left (sub_ne_zero.2 hne)
  have q₀₁ := hpair h₀₁ (hw 0) (hw 1)
  have q₀₂ := hpair h₀₂ (hw 0) (hw 2)
  have hsum : w.get 0 + w.get 1 + w.get 2 = 0 := by
    have hmul : (w.get 1 - w.get 2) * (w.get 0 + w.get 1 + w.get 2) = 0 := by
      linear_combination q₀₁ - q₀₂
    exact (mul_eq_zero.1 hmul).resolve_left (sub_ne_zero.2 h₁₂)
  have hpairs : w.get 0 * w.get 1 + w.get 0 * w.get 2 + w.get 1 * w.get 2 = 0 := by
    linear_combination (w.get 0 + w.get 1) * hsum - q₀₁
  refine ⟨by linear_combination hsum, by linear_combination hpairs, ?_⟩
  linear_combination w.get 0 * hpairs - w.get 0 * w.get 0 * hsum + hw 0

/-- Cardano's substitution: if `z` and `z'` have the sum `- s` and the product `- u³`, the cube roots
`w` of `z` give the roots `w - u / w` of `y³ + 3 u y + s`. -/
theorem vieta₃_cardano {w : Row 3 F} {u s z z' : F} (hw : Vieta₃ 1 0 0 (-z) w) (hz : z ≠ 0)
    (hsum : z + z' = -s) (hproduct : z * z' = -(u * u * u)) :
    Vieta₃ 1 0 (3 * u) s (w.map fun w => w - u / w) := by
  obtain ⟨h₁, h₂, h₃⟩ := hw
  obtain ⟨t, ht⟩ : ∃ t, u = t * z := ⟨u / z, (div_mul_cancel₀ u hz).symm⟩
  have hquot {x y : F} (hxy : x * y = z) : u / x = t * y := by
    have hx : x ≠ 0 := left_ne_zero_of_mul (by rwa [hxy])
    rw [div_eq_iff hx, ht, ← hxy]
    ring
  have hv₀ : u / w.get 0 = t * (w.get 1 * w.get 2) := hquot (by linear_combination h₃)
  have hv₁ : u / w.get 1 = t * (w.get 0 * w.get 2) := hquot (by linear_combination h₃)
  have hv₂ : u / w.get 2 = t * (w.get 0 * w.get 1) := hquot (by linear_combination h₃)
  have hlast : z - t * t * t * (z * z) = -s := by
    apply mul_left_cancel₀ hz
    linear_combination z * hsum - hproduct + (u * u + u * t * z + t * z * (t * z)) * ht
  refine ⟨?_, ?_, ?_⟩
  · simp only [Row.get_map, hv₀, hv₁, hv₂]
    linear_combination h₁ - t * h₂
  · simp only [Row.get_map, hv₀, hv₁, hv₂]
    linear_combination h₂ + 3 * t * h₃ - 3 * ht +
      (t * t * (w.get 0 * w.get 1 * w.get 2) -
        t * (w.get 0 * w.get 1 + w.get 0 * w.get 2 + w.get 1 * w.get 2)) * h₁
  · simp only [Row.get_map, hv₀, hv₁, hv₂]
    linear_combination hlast + (1 - t * t * t * (w.get 0 * w.get 1 * w.get 2 + z)) * h₃ -
      (t * (w.get 0 * w.get 1 + w.get 0 * w.get 2 + w.get 1 * w.get 2) +
        2 * t * t * (w.get 0 * w.get 1 * w.get 2)) * h₂ +
      (2 * t + t * t * (w.get 0 + w.get 1 + w.get 2)) * (w.get 0 * w.get 1 * w.get 2) * h₁

theorem Vieta₃.shift [CharZero F] {a b c d u s : F} {y : Row 3 F} (h : Vieta₃ 1 0 (3 * u) s y)
    (ha : a ≠ 0) (hu : u = 3 * a * c - b * b) (hs : s = 2 * b * b * b - 9 * a * b * c + 27 * a * a * d) :
    Vieta₃ a b c d (y.map fun y => (y - b) / (3 * a)) := by
  obtain ⟨h₁, h₂, h₃⟩ := h
  refine ⟨?_, ?_, ?_⟩
  · simp only [Row.get_map]
    field_simp
    linear_combination h₁
  · simp only [Row.get_map]
    field_simp
    linear_combination h₂ - 2 * b * h₁ + 3 * hu
  · simp only [Row.get_map]
    field_simp
    linear_combination h₃ - b * h₂ + b * b * h₁ - 3 * b * hu - hs

end Formula

section Steps

variable {α : Type u} [Zero α] [One α] [Add α] [Sub α] [Neg α] [Mul α] [Div α] [NatCast α] [BEq α] [LT α]
  [DecidableLT α] [Elementary α]

open Cplx (ofReal)

def radicand (u s : α) : Cplx α :=
  let root := (ofReal (s * s + 4 * u * u * u)).power (1 / 2)
  let plus := root.divReal 2 - ofReal (s / 2)
  let minus := (-root).divReal 2 - ofReal (s / 2)
  if plus.abs < minus.abs then minus else plus

def tripleRoot (a b : α) : Row 3 (Cplx α) :=
  let x := ofReal (-b / (3 * a))
  ⟨[x, x, x], rfl⟩

def cubeRoots (z : Cplx α) : Row 3 (Cplx α) := ⟨z.roots 3, Cplx.length_roots z 3⟩

def cardano (a b u : α) (z : Cplx α) : Row 3 (Cplx α) :=
  (cubeRoots z).map fun w => (w - ofReal u / w - ofReal b).divReal (3 * a)

theorem cubicComplex_eq {a b c d u s : α} (ha : (a == 0) = false) (hu : u = 3 * a * c - b * b)
    (hs : s = 2 * b * b * b - 9 * a * b * c + 27 * a * a * d) :
    cubicComplex a b c d =
      .ok (if (radicand u s).abs == 0 then tripleRoot a b else cardano a b u (radicand u s)) := by
  subst hu hs
  exact (if_neg (Bool.eq_false_iff.1 ha)).trans (apply_ite Except.ok _ _ _).symm

end Steps

section Complex

open Cplx (ofReal ofReal_add ofReal_sub ofReal_neg ofReal_mul ofReal_div ofReal_ofNat)

variable {K : Type u} [Field K] [LinearOrder K] [IsStrictOrderedRing K] {a b c d u s : K}

theorem vieta₃_undepress (ha : a ≠ 0) (hu : u = 3 * a * c - b * b)
    (hs : s = 2 * b * b * b - 9 * a * b * c + 27 * a * a * d) {y : Row 3 (Cplx K)}
    (h : Vieta₃ 1 0 (3 * ofReal u) (ofReal s) y) :
    Vieta₃ (ofReal a) (ofReal b) (ofReal c) (ofReal d)
      (y.map fun y => (y - ofReal b).divReal (3 * a)) := by
  have hU : ofReal u = 3 * ofReal a * ofReal c - ofReal b * ofReal b := by
    rw [hu, ofReal_sub, ofReal_mul, ofReal_mul, ofReal_mul, ofReal_ofNat]
  have hS : ofReal s = 2 * ofReal b * ofReal b * ofReal b - 9 * ofReal a * ofReal b * ofReal c +
      27 * ofReal a * ofReal a * ofReal d := by
    rw [hs]
    simp only [ofReal_sub, ofReal_add, ofReal_mul]
    rw [ofReal_ofNat, ofReal_ofNat, ofReal_ofNat]
  have hden : ofReal (3 * a) = 3 * ofReal a := by rw [ofReal_mul, ofReal_ofNat]
  simp only [Cplx.divReal_eq, hden]
  exact h.shift (Cplx.ofReal_ne_zero ha) hU hS

variable [BEq K] [Elementary K] [Cplx.ExactRoots K]

theorem vieta₃_cubeRoots {z : Cplx K} (hz : z ≠ 0) : Vieta₃ 1 0 0 (-z) (cubeRoots z) := by
  obtain ⟨hnodup, hcube⟩ := Cplx.ExactRoots.roots_three hz
  have hne {j k : Fin 3} (hjk : j ≠ k) : (cubeRoots z).get j ≠ (cubeRoots z).get k := fun h =>
    hjk ((cubeRoots z).get_injective hnodup h)
  exact vieta₃_cube_roots (hne (by decide)) (hne (by decide)) (hne (by decide))
    fun k => hcube _ ((cubeRoots z).get_mem k)

theorem radicand_spec (u s : K) :
    ∃ z, radicand u s + z = -ofReal s ∧ radicand u s * z = -(ofReal u * ofReal u * ofReal u) ∧
      (radicand u s = 0 → z = 0) := by
  obtain ⟨root, hroot, hsq⟩ : ∃ root, (ofReal (s * s + 4 * u * u * u)).power (1 / 2) = root ∧
      root * root = ofReal (s * s + 4 * u * u * u) := ⟨_, rfl, Cplx.ExactRoots.power_half _⟩
  rw [ofReal_add, ofReal_mul, ofReal_mul, ofReal_mul, ofReal_mul, ofReal_ofNat] at hsq
  obtain ⟨z, hsum, hproduct, hzero⟩ :=
    Cplx.exists_smaller (root.divReal 2 - ofReal (s / 2)) ((-root).divReal 2 - ofReal (s / 2))
  simp only [radicand, hroot]
  refine ⟨z, hsum.trans ?_, hproduct.trans ?_, hzero⟩
  · rw [Cplx.divReal_eq, Cplx.divReal_eq, ofReal_div, ofReal_ofNat]
    ring
  · rw [Cplx.divReal_eq, Cplx.divReal_eq, ofReal_div, ofReal_ofNat]
    linear_combination -hsq / 4

theorem radicand_eq_zero_iff : radicand u s = 0 ↔ u = 0 ∧ s = 0 := by
  have hreal (x : K) : ofReal x = 0 ↔ x = 0 := ⟨fun h => congrArg Cplx.re h, congrArg ofReal⟩
  obtain ⟨z, hsum, hproduct, hzero⟩ := radicand_spec u s
  constructor
  · intro h
    rw [h, zero_mul, eq_comm, neg_eq_zero, mul_eq_zero, mul_self_eq_zero, or_self, hreal] at hproduct
    rw [h, hzero h, add_zero, eq_comm, neg_eq_zero, hreal] at hsum
    exact ⟨hproduct, hsum⟩
  · rintro ⟨rfl, rfl⟩
    rw [(hreal 0).2 rfl] at hsum hproduct
    have hsq : radicand (0 : K) 0 * radicand 0 0 = 0 := by
      linear_combination radicand (0 : K) 0 * hsum - hproduct
    exact mul_self_eq_zero.1 hsq

omit [BEq K] [Elementary K] [Cplx.ExactRoots K] in
theorem vieta₃_tripleRoot (ha : a ≠ 0) (hu : 0 = 3 * a * c - b * b)
    (hs : 0 = 2 * b * b * b - 9 * a * b * c + 27 * a * a * d) :
    Vieta₃ (ofReal a) (ofReal b) (ofReal c) (ofReal d) (tripleRoot a b) := by
  have hx : (0 - ofReal b).divReal (3 * a) = ofReal (-b / (3 * a)) := by
    rw [zero_sub, ← ofReal_neg, Cplx.divReal_eq, ← ofReal_div]
  have hzero : ofReal (0 : K) = 0 := rfl
  have hy : Vieta₃ 1 0 (3 * ofReal (0 : K)) (ofReal 0) ⟨[0, 0, 0], rfl⟩ :=
    ⟨by simp [Row.get], by simp [Row.get, hzero], by simp [Row.get, hzero]⟩
  rw [tripleRoot, ← hx]
  exact vieta₃_undepress ha hu hs hy

theorem vieta₃_cardano_radicand (ha : a ≠ 0) (hu : u = 3 * a * c - b * b)
    (hs : s = 2 * b * b * b - 9 * a * b * c + 27 * a * a * d) (hz : radicand u s ≠ 0) :
    Vieta₃ (ofReal a) (ofReal b) (ofReal c) (ofReal d) (cardano a b u (radicand u s)) := by
  obtain ⟨z, hsum, hproduct, _⟩ := radicand_spec u s
  have hx := vieta₃_undepress ha hu hs (vieta₃_cardano (vieta₃_cubeRoots hz) hz hsum hproduct)
  rwa [Row.map_map] at hx

variable [LawfulBEq K]

theorem cubicComplex_of_zero (ha : a ≠ 0) (hu : u = 3 * a * c - b * b)
    (hs : s = 2 * b * b * b - 9 * a * b * c + 27 * a * a * d) (hz : radicand u s = 0) :
    cubicComplex a b c d = .ok (tripleRoot a b) := by
  have habs : (radicand u s).abs == 0 := by rw [beq_iff_eq, Cplx.abs_eq_zero, hz]
  rw [cubicComplex_eq (beq_eq_false_iff_ne.2 ha) hu hs, if_pos habs]

theorem cubicComplex_of_ne_zero (ha : a ≠ 0) (hu : u = 3 * a * c - b * b)
    (hs : s = 2 * b * b * b - 9 * a * b * c + 27 * a * a * d) (hz : radicand u s ≠ 0) :
    cubicComplex a b c d = .ok (cardano a b u (radicand u s)) := by
  have habs : ¬ ((radicand u s).abs == 0) = true := by rwa [beq_iff_eq, Cplx.abs_eq_zero]
  rw [cubicComplex_eq (beq_eq_false_iff_ne.2 ha) hu hs, if_neg habs]

theorem cubicComplex_spec (ha : a ≠ 0) (b c d : K) :
    ∃ r, cubicComplex a b c d = .ok r ∧ Vieta₃ (ofReal a) (ofReal b) (ofReal c) (ofReal d) r := by
  obtain ⟨u, hu⟩ : ∃ u, u = 3 * a * c - b * b := ⟨_, rfl⟩
  obtain ⟨s, hs⟩ : ∃ s, s = 2 * b * b * b - 9 * a * b * c + 27 * a * a * d := ⟨_, rfl⟩
  by_cases hz : radicand u s = 0
  · obtain ⟨rfl, rfl⟩ := radicand_eq_zero_iff.1 hz
    exact ⟨_, cubicComplex_of_zero ha hu hs hz, vieta₃_tripleRoot ha hu hs⟩
  · exact ⟨_, cubicComplex_of_ne_zero ha hu hs hz, vieta₃_cardano_radicand ha hu hs hz⟩

end Complex

end Solve

end PolyRoots
