import PolyRoots.Fault
import PolyRoots.Grid.Batch

universe u v w x y z

namespace PolyRoots

namespace Shape

theorem fits_trans {s t u : Shape} (h : Fits s t) (h' : Fits t u) : Fits s u := by
  induction s generalizing t u with
  | nil => trivial
  | cons m s ih =>
      cases t with
      | nil => cases h
      | cons n t =>
          cases u with
          | nil => cases h'
          | cons k u =>
              refine ⟨?_, ih h.2 h'.2⟩
              rcases h.1 with rfl | hm
              · exact h'.1
              · exact .inr hm

def join₃ (s t r : Shape) : Option Shape := (t.join r).bind s.join

theorem join₃_fits {s t r u : Shape} (h : join₃ s t r = some u) : s.Fits u ∧ t.Fits u ∧ r.Fits u := by
  obtain ⟨v, hv, hu⟩ := Option.bind_eq_some_iff.1 h
  have hs := join_fits hu
  have ht := join_fits hv
  exact ⟨hs.1, fits_trans ht.1 hs.2, fits_trans ht.2 hs.2⟩

theorem join_nil (s : Shape) : join s [] = some s := by
  cases s <;> rfl

theorem size_pos_of_index {s : Shape} (i : Index s) : 0 < s.size := by
  induction s with
  | nil => exact Nat.one_pos
  | cons n s ih => exact Nat.mul_pos i.1.pos (ih i.2)

end Shape

namespace Index

def inner : {t s : Shape} → Index (t ++ s) → Index t
  | [], _, _ => ()
  | _ :: _, _, (k, i) => (k, inner i)

def outer : {t s : Shape} → Index (t ++ s) → Index s
  | [], _, i => i
  | _ :: t, _, (_, i) => outer (t := t) i

theorem val_squeeze {m n : Nat} (h : m = n ∨ m = 1) (k : Fin n) :
    (squeeze h k).val = if m = n then k.val else 0 := by
  unfold squeeze
  split <;> rfl

theorem squeeze_squeeze {m n k : Nat} (h : m = n ∨ m = 1) (h' : n = k ∨ n = 1) (c : Fin k) :
    squeeze h (squeeze h' c) = squeeze (m := m) (by omega) c := by
  apply Fin.ext
  rw [val_squeeze, val_squeeze, val_squeeze]
  by_cases hmn : m = n
  · subst hmn
    rw [if_pos rfl]
  · have hc := c.isLt
    rw [if_neg hmn]
    split <;> omega

theorem project_self {s : Shape} (h : s.Fits s) (i : Index s) : project h i = i := by
  induction s with
  | nil => rfl
  | cons n s ih =>
      have hsqueeze : squeeze h.1 i.1 = i.1 := Fin.ext (by rw [val_squeeze, if_pos rfl])
      exact Prod.ext hsqueeze (ih h.2 i.2)

theorem project_project {s t u : Shape} (h : s.Fits t) (h' : t.Fits u) (i : Index u) :
    project h (project h' i) = project (Shape.fits_trans h h') i := by
  induction s generalizing t u with
  | nil => rfl
  | cons m s ih =>
      cases t with
      | nil => cases h
      | cons n t =>
          cases u with
          | nil => cases h'
          | cons k u => exact Prod.ext (squeeze_squeeze h.1 h'.1 i.1) (ih h.2 h'.2 i.2)

end Index

namespace Batch

variable {α : Type u} {β : Type v} {γ : Type w} {δ : Type x} {R : Type y}

def select (b : Batch α) (i : Index b.shape) : Batch α := single (b.get i)

theorem select_map (f : α → β) (b : Batch α) (i : Index b.shape) :
    (b.map f).select i = (b.select i).map f :=
  congrArg single (get_map f b i)

theorem map_id (b : Batch α) : b.map id = b :=
  congrArg (Batch.mk b.shape) (Grid.ext fun i => Grid.get_map id b.cells i)

/-- The batched result `r` exists, and each of its elements is the result for that element alone.
Results are read as batches through `mk`. -/
def Elementwise (mk : Batch β → R) (u : Shape) (r : Option R) (f : Index u → Option R) : Prop :=
  ∃ g : Grid u β, r = some (mk ⟨u, g⟩) ∧ ∀ i, f i = some (mk (single (g.get i)))

/-- What `fault` refuses is refused for the batch and for each element alike. Anything else has a result
for each element, and these are the elements of the batched result `r`, unless a batch has too many axes to
be searched as a whole. -/
def Pointwise (fault : Option Fault) (tooMany : Prop) [Decidable tooMany] (mk : Batch β → R) (u : Shape)
    (r : Except Fault R) (f : Index u → Except Fault R) : Prop :=
  match fault with
  | some e => r = .error e ∧ ∀ i, f i = .error e
  | none => ∃ g : Grid u β, r = (if tooMany then .error .tooManyAxes else .ok (mk ⟨u, g⟩)) ∧
      ∀ i, f i = .ok (mk (single (g.get i)))

theorem Elementwise.congr {mk : Batch β → R} {u : Shape} {r : Option R} {f f' : Index u → Option R}
    (h : Elementwise mk u r f) (hf : ∀ i, f' i = f i) : Elementwise mk u r f' := by
  obtain ⟨g, hg, hi⟩ := h
  exact ⟨g, hg, fun i => (hf i).trans (hi i)⟩

theorem Elementwise.map {S : Type z} {mk : Batch β → R} {u : Shape} {r : Option R}
    {f : Index u → Option R} (h : Elementwise mk u r f) (finish : R → S) :
    Elementwise (finish ∘ mk) u (r.map finish) fun i => (f i).map finish := by
  obtain ⟨g, hg, hf⟩ := h
  refine ⟨g, by rw [hg]; rfl, fun i => ?_⟩
  simp only [hf i]
  rfl

theorem zipWith?_of_join (f : α → β → γ) (a : Batch α) (b : Batch β) {u : Shape}
    (h : a.shape.join b.shape = some u) :
    zipWith? f a b = some ⟨u, .ofFn u fun i =>
      f (a.get (i.project (Shape.join_fits h).1)) (b.get (i.project (Shape.join_fits h).2))⟩ := by
  unfold zipWith?
  split
  next hn => cases hn.symm.trans h
  next v hv => cases hv.symm.trans h; rfl

theorem zipWith?_elementwise (f : α → β → γ) (a : Batch α) (b : Batch β) {u : Shape}
    (h : a.shape.join b.shape = some u) :
    Elementwise id u (zipWith? f a b) fun i =>
      zipWith? f (a.select (i.project (Shape.join_fits h).1))
        (b.select (i.project (Shape.join_fits h).2)) := by
  refine ⟨_, zipWith?_of_join f a b h, fun i => ?_⟩
  rw [Grid.get_ofFn]
  rfl

theorem zipWith₃?_elementwise (f : α → β → γ → δ) (a : Batch α) (b : Batch β) (c : Batch γ) {u : Shape}
    (h : Shape.join₃ a.shape b.shape c.shape = some u) :
    Elementwise id u (zipWith₃? f a b c) fun i =>
      zipWith₃? f (a.select (i.project (Shape.join₃_fits h).1))
        (b.select (i.project (Shape.join₃_fits h).2.1))
        (c.select (i.project (Shape.join₃_fits h).2.2)) := by
  obtain ⟨v, hv, hu⟩ := Option.bind_eq_some_iff.1 h
  obtain ⟨g, hg, hbc⟩ := zipWith?_elementwise Prod.mk b c hv
  obtain ⟨g', hg', habc⟩ := zipWith?_elementwise (fun x (y : β × γ) => f x y.1 y.2) a ⟨v, g⟩ hu
  refine ⟨g', by rw [zipWith₃?, hg]; exact hg', fun i => ?_⟩
  have hpair := hbc (i.project (Shape.join_fits hu).2)
  simp only [Index.project_project] at hpair
  simp only [zipWith₃?, hpair]
  exact habc i

section Faults

variable {γ R S : Type} {fault : Option Fault} {tooMany : Prop} [Decidable tooMany] {mk : Batch γ → R}
  {u : Shape}

theorem Elementwise.fitted {r : Option R} {f : Index u → Option R} (h : Elementwise mk u r f)
    (finish : R → S) :
    Pointwise none False (finish ∘ mk) u (fitted r >>= fun x => pure (finish x))
      fun i => PolyRoots.fitted (f i) >>= fun x => pure (finish x) := by
  obtain ⟨g, hg, hf⟩ := h
  refine ⟨g, by rw [hg]; rfl, fun i => ?_⟩
  simp only [hf i]
  rfl

theorem Pointwise.congr {r r' : Except Fault R} {f f' : Index u → Except Fault R}
    (h : Pointwise fault tooMany mk u r f) (hr : r' = r) (hf : ∀ i, f' i = f i) :
    Pointwise fault tooMany mk u r' f' := by
  rwa [hr, funext hf]

theorem Pointwise.map {r : Except Fault R} {f : Index u → Except Fault R}
    (h : Pointwise none tooMany mk u r f) (finish : R → S) :
    Pointwise none tooMany (finish ∘ mk) u (r >>= fun x => pure (finish x))
      fun i => f i >>= fun x => pure (finish x) := by
  obtain ⟨g, hr, hf⟩ := h
  refine ⟨g, ?_, fun i => ?_⟩
  · rw [hr]
    split <;> rfl
  · simp only [hf i]
    rfl

theorem Pointwise.guarded {r : Except Fault R} {f : Index u → Except Fault R} {c : Prop} [Decidable c]
    {e : Fault} (h : ¬c → Pointwise fault tooMany mk u r f) :
    Pointwise (if c then some e else fault) tooMany mk u (if c then .error e else r)
      fun i => if c then .error e else f i := by
  by_cases hc : c
  · simp only [if_pos hc]
    exact ⟨rfl, fun _ => rfl⟩
  · simp only [if_neg hc]
    exact h hc

theorem Pointwise.empty {r : Except Fault R} {f : Index u → Except Fault R} {e : Fault} (hu : u.size = 0)
    (hr : r = .error e) : Pointwise (some e) tooMany mk u r f :=
  ⟨hr, fun i => absurd hu (Nat.ne_of_gt (Shape.size_pos_of_index i))⟩

end Faults

end Batch

end PolyRoots
