import Mathlib.Logic.Basic
import PolyRoots.Proofs.Grid.Select

universe u v w

namespace PolyRoots

namespace Shape

theorem joinAxis_of_fits {m n : Nat} (h : m = n ∨ m = 1) :
    joinAxis m n = some n ∧ joinAxis n m = some n := by
  unfold joinAxis
  rcases h with rfl | rfl
  · simp
  · by_cases hn : n = 1
    · simp [hn]
    · simp [hn, Ne.symm hn]

theorem joinAxis_comm (m n : Nat) : joinAxis m n = joinAxis n m := by
  unfold joinAxis
  grind

theorem joinAxis_least {m n k : Nat} (hm : m = k ∨ m = 1) (hn : n = k ∨ n = 1) :
    ∃ l, joinAxis m n = some l ∧ (l = k ∨ l = 1) := by
  rcases hm with rfl | rfl
  · exact ⟨m, (joinAxis_of_fits hn).2, .inl rfl⟩
  · exact ⟨n, (joinAxis_of_fits (.inr rfl)).1, hn⟩

theorem join_cons {m n k : Nat} {s t u : Shape} (hk : joinAxis m n = some k) (h : join s t = some u) :
    join (m :: s) (n :: t) = some (k :: u) := by
  simp only [join, hk, h]

theorem join_comm (s t : Shape) : join s t = join t s := by
  induction s generalizing t with
  | nil => exact (join_nil t).symm
  | cons m s ih =>
      cases t with
      | nil => rfl
      | cons n t =>
          rw [join, join, joinAxis_comm, ih]

theorem join_of_fits {s t : Shape} (h : s.Fits t) : join s t = some t := by
  induction s generalizing t with
  | nil => rfl
  | cons m s ih =>
      cases t with
      | nil => cases h
      | cons n t => exact join_cons (joinAxis_of_fits h.1).1 (ih h.2)

theorem join_least {s t u : Shape} (hs : s.Fits u) (ht : t.Fits u) : ∃ v, join s t = some v ∧ v.Fits u := by
  induction s generalizing t u with
  | nil => exact ⟨t, rfl, ht⟩
  | cons m s ih =>
      cases t with
      | nil => exact ⟨m :: s, rfl, hs⟩
      | cons n t =>
          cases u with
          | nil => cases hs
          | cons k u =>
              obtain ⟨l, hl, hfits⟩ := joinAxis_least hs.1 ht.1
              obtain ⟨v, hv, hfits'⟩ := ih hs.2 ht.2
              exact ⟨l :: v, join_cons hl hv, hfits, hfits'⟩

theorem fits_antisymm {s t : Shape} (h : s.Fits t) (h' : t.Fits s) : s = t := by
  induction s generalizing t with
  | nil =>
      cases t with
      | nil => rfl
      | cons n t => cases h'
  | cons m s ih =>
      cases t with
      | nil => cases h
      | cons n t =>
          obtain rfl := ih h.2 h'.2
          have hmn : m = n := by
            have := h.1
            have := h'.1
            omega
          rw [hmn]

theorem join_ones_append (s t : Shape) : join (s.ones ++ t) s = some (s ++ t) := by
  induction s with
  | nil => exact join_nil t
  | cons n s ih => exact join_cons (joinAxis_of_fits (.inr rfl)).1 ih

end Shape

namespace Index

theorem squeeze_self {n : Nat} (h : n = n ∨ n = 1) (k : Fin n) : squeeze h k = k :=
  Fin.ext (by rw [val_squeeze, if_pos rfl])

theorem ofOffset_eq {s : Shape} {k : Nat} (h : k < s.size) {i : Index s} (hi : i.offset = k) :
    ofOffset k h = i := by
  induction s generalizing k with
  | nil => rfl
  | cons n s ih =>
      obtain ⟨c, i⟩ := i
      have hn : 0 < n := c.pos
      have hk : k = c.val + n * i.offset := hi.symm
      have hmod : k % n = c.val := by rw [hk, Nat.add_mul_mod_self_left, Nat.mod_eq_of_lt c.isLt]
      have hdiv : k / n = i.offset := by
        rw [hk, Nat.add_mul_div_left _ _ hn, Nat.div_eq_of_lt c.isLt, Nat.zero_add]
      exact Prod.ext (Fin.ext hmod) (ih _ hdiv.symm)

theorem offset_outer (s : Shape) {t : Shape} (i : Index (s.ones ++ t)) :
    offset (outer (t := s.ones) i) = offset i := by
  induction s with
  | nil => rfl
  | cons n s ih =>
      have hzero : i.1.val = 0 := Nat.lt_one_iff.1 i.1.isLt
      refine (ih i.2).trans ?_
      change offset i.2 = i.1.val + 1 * offset i.2
      omega

theorem outer_project (s : Shape) {t : Shape} (h : Shape.Fits (s.ones ++ t) (s ++ t)) (i : Index (s ++ t)) :
    outer (t := s.ones) (i.project h) = outer (t := s) i := by
  induction s with
  | nil => exact project_self h i
  | cons n s ih => exact ih h.2 i.2

theorem project_append (s t : Shape) (h : s.Fits (s ++ t)) (i : Index (s ++ t)) : project h i = inner i := by
  induction s with
  | nil => rfl
  | cons n s ih => exact Prod.ext (squeeze_self h.1 i.1) (ih h.2 i.2)

end Index

namespace Grid

variable {α : Type u} {β : Type v} {γ : Type w} {s : Shape}

theorem ofFn_get (x : Grid s α) : ofFn s (get x) = x := ext fun i => get_ofFn _ i

theorem get_mem_toList (x : Grid s α) (i : Index s) : get x i ∈ toList x := by
  induction s generalizing α with
  | nil => exact List.mem_singleton_self x
  | cons n s ih => exact List.mem_flatMap.2 ⟨_, ih (rows x) i.2, List.get_mem _ _⟩

theorem get_of_any_eq_false {c : Grid s Bool} (h : c.any = false) (i : Index s) : get c i = false := by
  have hall := List.any_eq_false.1 h _ (get_mem_toList c i)
  exact Bool.eq_false_iff.2 hall

theorem get_reshape {t : Shape} (h : t.size = s.size) (x : Grid s α) (i : Index t) :
    get (reshape t h x) i = get x (.ofOffset i.offset (h ▸ i.offset_lt)) :=
  get_ofFn _ i

/-- A loop whose steps change every place by itself does so as a whole. -/
theorem foldlM_pointwise {ι : Type w} {f : ι → Index s → α → α} {step : Grid s α → ι → Option (Grid s α)}
    (l : List ι) (h : ∀ k ∈ l, ∀ x, step x k = some (ofFn s fun i => f k i (get x i))) (x : Grid s α) :
    l.foldlM step x = some (ofFn s fun i => l.foldl (fun a k => f k i a) (get x i)) := by
  induction l generalizing x with
  | nil => exact congrArg some (ofFn_get x).symm
  | cons k l ih =>
      rw [List.forall_mem_cons] at h
      rw [List.foldlM_cons, h.1 x]
      refine (ih h.2 _).trans (congrArg (fun f => some (ofFn s f)) (funext fun i => ?_))
      rw [get_ofFn, List.foldl_cons]

theorem get_expand_ofRow {n : Nat} (r : Row n α) (h : Shape.Fits [n] (n :: s)) (i : Index (n :: s)) :
    get (expand h (Batch.ofRow r).cells) i = r.get i.1 :=
  (get_expand h _ i).trans (congrArg r.get (Index.squeeze_self h.1 i.1))

theorem zipWith_expand_ofRow {n : Nat} (f : α → β → γ) (x : Grid s (Row n α)) (r : Row n β)
    (h : Shape.Fits [n] (n :: s)) :
    zipWith f (ofRows x) (expand h (Batch.ofRow r).cells) = ofRows (x.map (·.zipWith f r)) := by
  apply ext
  intro i
  rw [get_zipWith, get_expand_ofRow, get_cons, get_cons, rows_ofRows, rows_ofRows, get_map,
    Row.get_zipWith]

end Grid

end PolyRoots
