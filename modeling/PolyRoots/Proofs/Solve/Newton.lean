import Mathlib.Algebra.Order.Field.Basic
import Mathlib.Order.Interval.Set.Basic
import Mathlib.Tactic.FieldSimp
import Mathlib.Tactic.Linarith
import Mathlib.Tactic.LinearCombination
import Mathlib.Tactic.Ring
import PolyRoots.Proofs.Scalar.Line
import PolyRoots.Proofs.Solve.Scan
import PolyRoots.Solve.Newton

universe u v

namespace PolyRoots

namespace Solve

namespace Search

variable {α : Type u} {β : Type v}

def map (φ : α → β) (s : Search α) : Search β :=
  ⟨s.root.map φ, s.evals.map φ, s.slopes.map φ, s.settled⟩

theorem map_after (φ : α → β) (evals slopes : List α) (s : Search α) :
    (s.after evals slopes).map φ = (s.map φ).after (evals.map φ) (slopes.map φ) := by
  simp [map, after]

structure Within (I : Set α) (s : Search α) : Prop where
  evals : ∀ t ∈ s.evals, t ∈ I
  root : ∃ z ∈ I, s.root = some z

theorem within_after {I : Set α} {evals slopes : List α} {s : Search α} :
    (s.after evals slopes).Within I ↔ (∀ t ∈ evals, t ∈ I) ∧ s.Within I := by
  constructor
  · rintro ⟨he, hroot⟩
    exact ⟨fun t ht => he t (List.mem_append_left _ ht),
      fun t ht => he t (List.mem_append_right _ ht), hroot⟩
  · rintro ⟨he, hin⟩
    refine ⟨fun t ht => ?_, hin.root⟩
    rcases List.mem_append.1 ht with ht | ht
    · exact he t ht
    · exact hin.evals t ht

theorem within_map {I : Set α} {s : Search α} (φ : α → β) (hφ : Function.Injective φ) :
    (s.map φ).Within (φ '' I) ↔ s.Within I := by
  constructor
  · rintro ⟨he, w, ⟨z, hz, rfl⟩, hroot⟩
    refine ⟨fun t ht => (hφ.mem_set_image).1 (he _ (List.mem_map_of_mem ht)), z, hz, ?_⟩
    exact Option.map_injective hφ hroot
  · rintro ⟨he, z, hz, hroot⟩
    refine ⟨?_, φ z, Set.mem_image_of_mem φ hz, congrArg (Option.map φ) hroot⟩
    intro t ht
    obtain ⟨u, hu, rfl⟩ := List.mem_map.1 ht
    exact Set.mem_image_of_mem φ (he u hu)

theorem Within.mono {I J : Set α} {s : Search α} (h : s.Within I) (hsub : I ⊆ J) : s.Within J := by
  obtain ⟨z, hz, hroot⟩ := h.root
  exact ⟨fun t ht => hsub (h.evals t ht), z, hsub hz, hroot⟩

def Finds [Zero α] (f : α → α) (s : Search α) : Prop :=
  s.settled = true → ∃ z, s.root = some z ∧ f z = 0

theorem finds_map [Zero α] [Zero β] {f : α → α} {g : β → β} {s : Search α} (φ : α → β)
    (h : ∀ t, g (φ t) = 0 ↔ f t = 0) : (s.map φ).Finds g ↔ s.Finds f := by
  simp only [Finds, map, Option.map_eq_some_iff, exists_exists_and_eq_and, h]

end Search

/-- Newton's steps follow an embedding of scalars: they divide by slopes other than zero only. -/
theorem newtonSteps_map {α β : Type u} [Zero α] [One α] [Add α] [Sub α] [Neg α] [Mul α] [Div α] [NatCast α]
    [BEq α] [LT α] [DecidableLT α] [Zero β] [One β] [Add β] [Sub β] [Neg β] [Mul β] [Div β] [NatCast β]
    [BEq β] [LT β] [DecidableLT β] {φ : α → β} (h : Embedding φ) {f f' : α → α} {F F' : β → β}
    (hF : ∀ t, F (φ t) = φ (f t)) (hF' : ∀ t, F' (φ t) = φ (f' t)) (n : Nat) (x y : α) :
    newtonSteps F F' n (φ x) (φ y) = (newtonSteps f f' n x y).map φ := by
  induction n generalizing x y with
  | zero => rfl
  | succ n ih =>
      simp only [newtonSteps, hF', h.beq_zero]
      cases hslope : f' x == 0 with
      | true => rfl
      | false =>
          simp only [Bool.false_eq_true, if_false, ← h.div y hslope, ← h.sub, hF, ← h.magnitude, h.lt, ih]
          split
          · rw [Search.map_after, List.map_singleton, List.map_singleton]
          · rfl

variable {K : Type u} [Field K] [LinearOrder K] {f f' : K → K}

def newtonPoint (f f' : K → K) (x : K) : K := x - f x / f' x

theorem newtonSteps_flat {x y : K} (h : f' x = 0) (n : Nat) :
    newtonSteps f f' (n + 1) x y = ⟨some x, [], [x], true⟩ := by
  simp only [newtonSteps, h, beq_self_eq_true, if_true]

section Ordered

variable [IsStrictOrderedRing K]

theorem newtonSteps_accept {x : K} (h : f' x ≠ 0) (hlt : |f (newtonPoint f f' x)| < |f x|) (n : Nat) :
    newtonSteps f f' (n + 1) x (f x) =
      (newtonSteps f f' n (newtonPoint f f' x) (f (newtonPoint f f' x))).after
        [newtonPoint f f' x] [x] := by
  have hx' : x - f x / f' x = newtonPoint f f' x := rfl
  simp only [newtonSteps, beq_false_of_ne h, Bool.false_eq_true, if_false, magnitude_eq_abs, hx', hlt,
    if_true]

theorem newtonSteps_reject {x : K} (h : f' x ≠ 0) (hle : |f x| ≤ |f (newtonPoint f f' x)|) (n : Nat) :
    newtonSteps f f' (n + 1) x (f x) = ⟨some x, [newtonPoint f f' x], [x], true⟩ := by
  have hx' : x - f x / f' x = newtonPoint f f' x := rfl
  simp only [newtonSteps, beq_false_of_ne h, Bool.false_eq_true, if_false, magnitude_eq_abs, hx',
    not_lt.2 hle]

theorem newtonSteps_gives_up {x : K} (h : f' x ≠ 0) (hne : f x ≠ 0)
    (hle : |f x| ≤ |f (newtonPoint f f' x)|) (n : Nat) :
    ¬ (newtonSteps f f' (n + 1) x (f x)).Finds f := by
  rw [newtonSteps_reject h hle]
  intro hfinds
  obtain ⟨z, hz, hroot⟩ := hfinds rfl
  cases hz
  exact hne hroot

theorem newtonSteps_neg (n : Nat) (x y : K) :
    newtonSteps (fun t => -f t) (fun t => -f' t) n x (-y) = newtonSteps f f' n x y := by
  induction n generalizing x y with
  | zero => rfl
  | succ n ih =>
      simp only [newtonSteps, ih, magnitude_eq_abs, neg_div_neg_eq, abs_neg, beq_iff_eq, neg_eq_zero]

omit [LinearOrder K] [IsStrictOrderedRing K] in
theorem newtonPoint_neg (x : K) :
    newtonPoint (fun t => -f t) (fun t => -f' t) x = newtonPoint f f' x := by
  simp only [newtonPoint, neg_div_neg_eq]

/-- On `[a, b]` no tangent passes above the function. -/
def AboveTangents (f f' : K → K) (a b : K) : Prop :=
  ∀ x ∈ Set.Icc a b, ∀ y ∈ Set.Icc a b, f x + f' x * (y - x) ≤ f y

variable {a b : K}

omit [IsStrictOrderedRing K] in
theorem AboveTangents.nonneg_newtonPoint (h : AboveTangents f f' a b) {x : K} (hx : x ∈ Set.Icc a b)
    (hx' : newtonPoint f f' x ∈ Set.Icc a b) (hslope : f' x ≠ 0) : 0 ≤ f (newtonPoint f f' x) := by
  have htan := h x hx _ hx'
  -- the tangent at `x` vanishes at the next point
  have hzero : f x + f' x * (newtonPoint f f' x - x) = 0 := by
    rw [newtonPoint, sub_sub_cancel_left, mul_neg, mul_div_cancel₀ _ hslope, add_neg_cancel]
  rwa [hzero] at htan

theorem AboveTangents.exists_part (h : AboveTangents f f' a b) {x r : K} (hx : x ∈ Set.Icc a b)
    (hr : r ∈ Set.Icc a b) (hroot : f r = 0) (hpos : 0 < f x) :
    f' x ≠ 0 ∧ ∃ e, 0 < e ∧ e ≤ 1 ∧ newtonPoint f f' x = (1 - e) * x + e * r := by
  have htan := h x hx r hr
  rw [hroot] at htan
  have hdrop : 0 < -(f' x * (r - x)) := by linarith
  have hslope : f' x ≠ 0 := by
    rintro h0
    rw [h0, zero_mul, neg_zero] at hdrop
    exact lt_irrefl _ hdrop
  have hdist : r - x ≠ 0 := by
    rintro h0
    rw [h0, mul_zero, neg_zero] at hdrop
    exact lt_irrefl _ hdrop
  refine ⟨hslope, f x / -(f' x * (r - x)), div_pos hpos hdrop, (div_le_one hdrop).2 (by linarith), ?_⟩
  rw [newtonPoint]
  field_simp
  ring

theorem AboveTangents.step (h : AboveTangents f f' a b) {x r : K} (hx : x ∈ Set.Icc a b)
    (hr : r ∈ Set.Icc a b) (hroot : f r = 0) (hpos : 0 < f x) :
    f' x ≠ 0 ∧ newtonPoint f f' x ∈ Set.Icc a b ∧ 0 ≤ f (newtonPoint f f' x) ∧
      f (newtonPoint f f' x) < f x := by
  obtain ⟨hslope, e, he, he1, hpoint⟩ := h.exists_part hx hr hroot hpos
  have hmem : newtonPoint f f' x ∈ Set.Icc a b := by
    rw [hpoint]
    have hx0 := sub_nonneg.2 he1
    constructor
    · nlinarith [mul_nonneg hx0 (sub_nonneg.2 hx.1), mul_nonneg he.le (sub_nonneg.2 hr.1)]
    · nlinarith [mul_nonneg hx0 (sub_nonneg.2 hx.2), mul_nonneg he.le (sub_nonneg.2 hr.2)]
  have hleft := h _ hmem x hx
  have hright := h _ hmem r hr
  rw [hroot] at hright
  refine ⟨hslope, hmem, h.nonneg_newtonPoint hx hmem hslope, ?_⟩
  -- the two tangent bounds in the proportion of the parts cancel the slope
  have hcancel : (1 - e) * (x - newtonPoint f f' x) + e * (r - newtonPoint f f' x) = 0 := by
    rw [hpoint]
    ring
  have hmix : f (newtonPoint f f' x) ≤ (1 - e) * f x := by
    have h1 := mul_le_mul_of_nonneg_left hleft (sub_nonneg.2 he1)
    have h2 := mul_le_mul_of_nonneg_left hright he.le
    linear_combination h1 + h2 - f' (newtonPoint f f' x) * hcancel
  exact hmix.trans_lt (by nlinarith)

omit [LinearOrder K] [IsStrictOrderedRing K] in
theorem newtonPoint_of_root {x : K} (h : f x = 0) : newtonPoint f f' x = x := by
  rw [newtonPoint, h, zero_div, sub_zero]

variable (f') in
theorem newtonSteps_of_root {x : K} (h : f x = 0) (n : Nat) :
    (newtonSteps f f' n x (f x)).Within {x} ∧ (newtonSteps f f' n x (f x)).Finds f := by
  have hx : newtonPoint f f' x = x := newtonPoint_of_root h
  cases n with
  | zero => exact ⟨⟨nofun, x, rfl, rfl⟩, nofun⟩
  | succ n =>
      by_cases hslope : f' x = 0
      · rw [newtonSteps_flat hslope]
        exact ⟨⟨nofun, x, rfl, rfl⟩, fun _ => ⟨x, rfl, h⟩⟩
      · rw [newtonSteps_reject hslope (by rw [hx]), hx]
        exact ⟨⟨fun t ht => List.mem_singleton.1 ht, x, rfl, rfl⟩, fun _ => ⟨x, rfl, h⟩⟩

theorem AboveTangents.run (h : AboveTangents f f' a b) {r : K} (hr : r ∈ Set.Icc a b)
    (hroot : f r = 0) (n : Nat) {x : K} (hx : x ∈ Set.Icc a b) (hpos : 0 ≤ f x) :
    (newtonSteps f f' n x (f x)).Within (Set.Icc a b) ∧ (newtonSteps f f' n x (f x)).Finds f := by
  -- the invariant of the loop is that the function is not negative at the current point
  induction n generalizing x with
  | zero => exact ⟨⟨nofun, x, hx, rfl⟩, nofun⟩
  | succ n ih =>
      rcases hpos.eq_or_lt with hzero | hlt
      · obtain ⟨hin, hfinds⟩ := newtonSteps_of_root f' hzero.symm (n + 1)
        exact ⟨hin.mono (Set.singleton_subset_iff.2 hx), hfinds⟩
      · obtain ⟨hslope, hmem, hnonneg, hdec⟩ := h.step hx hr hroot hlt
        obtain ⟨hin, hfinds⟩ := ih hmem hnonneg
        rw [newtonSteps_accept hslope (by rwa [abs_of_nonneg hnonneg, abs_of_pos hlt])]
        exact ⟨Search.within_after.2 ⟨List.forall_mem_singleton.2 hmem, hin⟩, hfinds⟩

theorem AboveTangents.within_iff (h : AboveTangents f f' a b) {r : K} (hr : r ∈ Set.Icc a b)
    (hroot : f r = 0) {x : K} (hx : x ∈ Set.Icc a b) (hslope : f' x ≠ 0) (n : Nat) :
    (newtonSteps f f' n x (f x)).Within (Set.Icc a b) ↔
      n = 0 ∨ newtonPoint f f' x ∈ Set.Icc a b := by
  cases n with
  | zero => exact ⟨fun _ => .inl rfl, fun _ => ⟨nofun, x, hx, rfl⟩⟩
  | succ n =>
      rcases lt_or_ge |f (newtonPoint f f' x)| |f x| with hlt | hle
      · rw [newtonSteps_accept hslope hlt]
        constructor
        · intro hin
          exact .inr (hin.evals _ (List.mem_append_left _ (List.mem_singleton_self _)))
        · rintro (hn | hmem)
          · cases hn
          -- after a step inside the interval the function is not negative, wherever the step began
          · obtain ⟨hin, _⟩ := h.run hr hroot n hmem (h.nonneg_newtonPoint hx hmem hslope)
            exact Search.within_after.2 ⟨List.forall_mem_singleton.2 hmem, hin⟩
      · rw [newtonSteps_reject hslope hle]
        constructor
        · intro hin
          exact .inr (hin.evals _ (List.mem_singleton_self _))
        · rintro (hn | hmem)
          · cases hn
          · exact ⟨List.forall_mem_singleton.2 hmem, x, hx, rfl⟩

theorem AboveTangents.finds (h : AboveTangents f f' a b) {r : K} (hr : r ∈ Set.Icc a b)
    (hroot : f r = 0) {x : K} (hx : x ∈ Set.Icc a b) (hslope : f' x ≠ 0)
    (hmem : newtonPoint f f' x ∈ Set.Icc a b)
    (hdec : f x = 0 ∨ |f (newtonPoint f f' x)| < |f x|) (n : Nat) :
    (newtonSteps f f' n x (f x)).Finds f := by
  rcases hdec with hzero | hlt
  · exact (newtonSteps_of_root f' hzero n).2
  · cases n with
    | zero => exact nofun
    | succ n =>
        rw [newtonSteps_accept hslope hlt]
        exact (h.run hr hroot n hmem (h.nonneg_newtonPoint hx hmem hslope)).2

theorem AboveTangents.good_step (h : AboveTangents f f' a b) {x r : K} (hx : x ∈ Set.Icc a b)
    (hr : r ∈ Set.Icc a b) (hroot : f r = 0) (hpos : 0 ≤ f x) :
    newtonPoint f f' x ∈ Set.Icc a b ∧ (f x = 0 ∨ |f (newtonPoint f f' x)| < |f x|) := by
  rcases hpos.eq_or_lt with hzero | hlt
  · rw [newtonPoint_of_root hzero.symm]
    exact ⟨hx, .inl hzero.symm⟩
  · obtain ⟨_, hmem, hnonneg, hdec⟩ := h.step hx hr hroot hlt
    rw [abs_of_nonneg hnonneg, abs_of_pos hlt]
    exact ⟨hmem, .inr hdec⟩

def OneSided (f f' : K → K) (a b : K) : Prop :=
  AboveTangents f f' a b ∨ AboveTangents (fun t => -f t) (fun t => -f' t) a b

theorem OneSided.within_iff (h : OneSided f f' a b) {r : K} (hr : r ∈ Set.Icc a b)
    (hroot : f r = 0) {x : K} (hx : x ∈ Set.Icc a b) (hslope : f' x ≠ 0) (n : Nat) :
    (newtonSteps f f' n x (f x)).Within (Set.Icc a b) ↔
      n = 0 ∨ newtonPoint f f' x ∈ Set.Icc a b := by
  rcases h with h | h
  · exact h.within_iff hr hroot hx hslope n
  · have hneg := h.within_iff hr (neg_eq_zero.2 hroot) hx (neg_ne_zero.2 hslope) n
    rwa [newtonSteps_neg, newtonPoint_neg] at hneg

theorem OneSided.finds (h : OneSided f f' a b) {r : K} (hr : r ∈ Set.Icc a b)
    (hroot : f r = 0) {x : K} (hx : x ∈ Set.Icc a b) (hslope : f' x ≠ 0)
    (hmem : newtonPoint f f' x ∈ Set.Icc a b)
    (hdec : f x = 0 ∨ |f (newtonPoint f f' x)| < |f x|) (n : Nat) :
    (newtonSteps f f' n x (f x)).Finds f := by
  rcases h with h | h
  · exact h.finds hr hroot hx hslope hmem hdec n
  · have hneg := h.finds hr (neg_eq_zero.2 hroot) hx (neg_ne_zero.2 hslope)
      (by rwa [newtonPoint_neg]) (by rwa [newtonPoint_neg, neg_eq_zero, abs_neg, abs_neg]) n
    rw [newtonSteps_neg] at hneg
    simpa only [Search.Finds, neg_eq_zero] using hneg

end Ordered

section Line

variable {F F' : Line K → Line K} [IsStrictOrderedRing K]

theorem seed_finite (a b : K) : seed (Line.finite a) (.finite b) = .finite ((a + b) / 2) := by
  have htwo : Line.finite (a + b) / Line.finite ((2 : Nat) : K) = .finite ((a + b) / ((2 : Nat) : K)) :=
    Line.finite_div _ _ (Nat.cast_ne_zero.2 two_ne_zero)
  rwa [Nat.cast_ofNat] at htwo

/-- Between ends of opposite signs a search is a run of Newton steps from the middle. -/
theorem search_finite (hF : ∀ t, F (.finite t) = .finite (f t))
    (hF' : ∀ t, F' (.finite t) = .finite (f' t)) (hab : a < b) (hsign : f a * f b < 0) (n : Nat) :
    search F F' (.finite a) (.finite b) n =
      ((newtonSteps f f' n ((a + b) / 2) (f ((a + b) / 2))).after [a, b, (a + b) / 2] []).map
        .finite := by
  have ha : (f a == 0) = false := beq_false_of_ne (left_ne_zero_of_mul hsign.ne)
  have hb : (f b == 0) = false := beq_false_of_ne (right_ne_zero_of_mul hsign.ne)
  have hne : (a == b) = false := beq_false_of_ne hab.ne
  have hpos : ¬ 0 < Line.finite (f a * f b) := fun h => ((Line.finite_lt_finite 0 _).1 h).not_gt hsign
  simp only [search, Line.finite_lt_finite, hab.not_gt, if_false, hF, Line.finite_beq_zero,
    Line.finite_beq_finite, ha, hb, hne, Bool.false_eq_true, Line.finite_mul, hpos, seed_finite,
    newtonSteps_map Line.embedding_finite hF hF', Search.map_after, List.map_cons, List.map_nil]

end Line

end Solve

end PolyRoots
