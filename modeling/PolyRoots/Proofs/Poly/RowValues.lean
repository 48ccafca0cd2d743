import PolyRoots.Proofs.Poly.Rows

universe u

namespace PolyRoots

namespace PolyBatch

variable {α : Type u}

theorem get_align (t : Shape) (p : PolyBatch α) (i : Index (t.ones ++ p.shape)) :
    (p.align t).rows.get i = p.rows.get (Index.outer (t := t.ones) i) := by
  refine Row.ext fun k => ?_
  have hsize : Shape.size (p.width :: (t.ones ++ p.shape)) = Shape.size (p.width :: p.shape) :=
    congrArg (p.width * ·) (Shape.size_ones_append t p.shape)
  have hoffset : Index.offset (s := p.width :: p.shape) (k, Index.outer (t := t.ones) i) =
      Index.offset (s := p.width :: (t.ones ++ p.shape)) (k, i) :=
    congrArg (k.val + p.width * ·) (Index.offset_outer t i)
  have hindex := Index.ofOffset_eq (hoffset ▸ Index.offset_lt _) hoffset
  refine Eq.trans ?_ (congrArg p.coeffs.get hindex)
  exact Grid.get_reshape hsize p.coeffs.cells (k, i)

theorem get_column_align (t : Shape) (p : PolyBatch α) (k : Fin p.width) (i : Index (t ++ p.shape)) :
    ((p.align t).column k).get (i.project (Shape.ones_append_fits t p.shape)) =
      (p.rows.get (Index.outer (t := t) i)).get k := by
  have hfits := Shape.ones_append_fits t p.shape
  have hrow := (get_align t p (i.project hfits)).trans (congrArg p.rows.get (Index.outer_project t hfits i))
  exact (Batch.get_map (Row.get · k) (p.align t).rows _).trans (congrArg (Row.get · k) hrow)

section Horner

variable [Zero α] [Add α] [Mul α] [BEq α] [Extended α]

namespace HornerGrid

variable {s : Shape}

/-- The state at one place, as the rule for one polynomial and one point keeps it. -/
def place (h : HornerGrid s α) (i : Index s) : Coeffs.Horner α :=
  ⟨h.value.get i, if h.overflowed.get i then some (h.limit.get i) else none⟩

/-- Places without an overflow are not touched when there is one elsewhere. -/
theorem place_step (x : Grid s α) (k : Nat) (a : Grid s α) (h : HornerGrid s α) (i : Index s) :
    (h.step x k a).place i = (h.place i).step (x.get i) k (a.get i) := by
  let value := Grid.pick (h.value.map (· == 0)) a ((h.value.zipWith (· * ·) x).zipWith (· + ·) a)
  let newly := value.zipWith (fun v o => Extended.isInf v && !o) h.overflowed
  let limit := if k % 2 = 0 then value else value.zipWith (fun v x => v * Extended.sign x) x
  have hvalue : value.get i =
      if h.value.get i == 0 then a.get i else h.value.get i * x.get i + a.get i := by
    rw [Grid.get_pick, Grid.get_map, Grid.get_zipWith, Grid.get_zipWith]
  have hnewly : newly.get i = (Extended.isInf (value.get i) && !h.overflowed.get i) := Grid.get_zipWith _ _ _ i
  have hlimit : limit.get i = if k % 2 = 0 then value.get i else value.get i * Extended.sign (x.get i) := by
    by_cases hk : k % 2 = 0
    · rw [if_pos hk]
      exact congrArg (Grid.get · i) (if_pos hk)
    · rw [if_neg hk, ← Grid.get_zipWith (fun v x => v * Extended.sign x)]
      exact congrArg (Grid.get · i) (if_neg hk)
  have hscalar : (h.place i).step (x.get i) k (a.get i) = ⟨value.get i, (h.place i).fixed.or
      (if Extended.isInf (value.get i) then some (limit.get i) else none)⟩ := by
    rw [hlimit, hvalue]
    rfl
  rw [hscalar]
  by_cases hany : newly.any
  · have hstep : h.step x k a = ⟨value, h.overflowed.zipWith (· || ·) newly, newly.pick limit h.limit⟩ :=
      if_pos hany
    rw [hstep]
    simp only [place, Grid.get_zipWith, Grid.get_pick, hnewly]
    cases h.overflowed.get i <;> cases Extended.isInf (value.get i) <;> rfl
  · have hstep : h.step x k a = ⟨value, h.overflowed, h.limit⟩ := if_neg hany
    have hnone := Grid.get_of_any_eq_false (eq_false_of_ne_true hany) i
    rw [hnewly] at hnone
    rw [hstep]
    simp only [place]
    revert hnone
    cases h.overflowed.get i <;> cases Extended.isInf (value.get i) <;> simp

theorem place_foldr (x : Grid s α) {n : Nat} (a : Fin n → Grid s α) (l : List (Fin n)) (h : HornerGrid s α)
    (i : Index s) :
    (l.foldr (fun k h => h.step x k (a k)) h).place i =
      l.foldr (fun k h => h.step (x.get i) k ((a k).get i)) (h.place i) := by
  induction l with
  | nil => rfl
  | cons k l ih => rw [List.foldr_cons, place_step, ih, List.foldr_cons]

end HornerGrid

theorem get_evaluate (p : PolyBatch α) (x : Batch α) (i : Index (x.shape ++ p.shape)) :
    (p.evaluate x).get i = Coeffs.evaluate (p.row i.outer) (x.get i.inner) := by
  let points : Grid (x.shape ++ p.shape) α := .expand (Shape.fits_append x.shape p.shape) x.cells
  let coeffs (k : Fin p.width) : Grid (x.shape ++ p.shape) α :=
    .expand (Shape.ones_append_fits x.shape p.shape) ((p.align x.shape).column k).cells
  let start : HornerGrid (x.shape ++ p.shape) α := ⟨.fill _ 0, .fill _ false, .fill _ 0⟩
  let h := (List.finRange p.width).foldr (fun k h => h.step points k (coeffs k)) start
  have hpoint : points.get i = x.get i.inner :=
    (Grid.get_expand _ _ i).trans (congrArg x.get (Index.project_append x.shape p.shape _ i))
  have hcoeff (k : Fin p.width) : (coeffs k).get i = (p.rows.get i.outer).get k :=
    (Grid.get_expand _ _ i).trans (get_column_align x.shape p k i)
  have hrun : h.place i = Coeffs.Horner.run (x.get i.inner) 0 (p.row i.outer) := by
    have hstart : start.place i = ⟨0, none⟩ := by
      simp only [start, HornerGrid.place, Grid.get_fill]
      rfl
    rw [HornerGrid.place_foldr, Coeffs.Horner.run_eq_foldr, row, Row.zipIdx_toList, List.foldr_map, hstart, hpoint]
    simp only [hcoeff]
  have hresult : (h.overflowed.pick h.limit h.value).get i = (h.place i).result := by
    rw [Grid.get_pick]
    cases ho : h.overflowed.get i <;> simp [HornerGrid.place, Coeffs.Horner.result, ho]
  refine (Grid.get_pick _ _ _ i).trans ?_
  rw [Grid.get_map, Grid.get_fill, hpoint]
  exact congrArg (fun v => if Extended.isNaN (x.get i.inner) then Extended.nan else v)
    (hresult.trans (congrArg Coeffs.Horner.result hrun))

end Horner

end PolyBatch

end PolyRoots
