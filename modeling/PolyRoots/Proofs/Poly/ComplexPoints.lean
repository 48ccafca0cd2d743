import PolyRoots.Cplx.Tensor
import PolyRoots.Proofs.Coeffs.Evaluate
import PolyRoots.Proofs.Poly.RowValues

universe u

namespace PolyRoots

namespace Shape

theorem ones_eq_self_iff {s : Shape} : s.ones = s ↔ ∀ n ∈ s, n = 1 := by
  induction s with
  | nil => simp [ones]
  | cons n s ih =>
      rw [ones, List.map_cons, List.cons_eq_cons, List.forall_mem_cons, eq_comm]
      exact and_congr_right fun _ => ih

theorem append_join (s t : Shape) : join (s ++ t) s = some (s ++ t) :=
  (join_comm _ _).trans (join_of_fits (fits_append s t))

end Shape

namespace PolyBatch

variable {α : Type u}

theorem reads_column_align (t : Shape) (p : PolyBatch α) (k : Fin p.width) :
    ((p.align t).column k).Reads (t ++ p.shape) fun i => (p.rows.get (Index.outer (t := t) i)).get k :=
  ⟨Shape.ones_append_fits t p.shape, get_column_align t p k⟩

theorem reads_points (z : Batch (Cplx α)) (B : Shape) : z.Reads (z.shape ++ B) fun i => z.get i.inner :=
  ⟨Shape.fits_append z.shape B, fun i => congrArg z.get (Index.project_append z.shape B _ i)⟩

section Shapes

variable [Zero α] [Add α] [Sub α] [Mul α]

theorem hornerCplx?_step {B : Shape} {z w x : Batch (Cplx α)} {a : Batch α} (ha : a.shape = z.shape.ones ++ B)
    (hw : w.shape = z.shape.ones ++ B ∨ w.shape = z.shape ++ B)
    (h : ((Batch.zipWith? (· * ·) w z).bind fun w => Batch.zipWith? (· + ·) w (a.map Cplx.ofReal)) = some x) :
    x.shape = z.shape ++ B := by
  obtain ⟨y, hy, hx⟩ := Option.bind_eq_some_iff.1 h
  obtain ⟨hproduct, -⟩ := Batch.zipWith?_eq_some hy
  obtain ⟨hsum, -⟩ := Batch.zipWith?_eq_some hx
  have hjoin : w.shape.join z.shape = some (z.shape ++ B) := by
    rcases hw with hw | hw
    · rw [hw, Shape.join_ones_append]
    · rw [hw, Shape.append_join]
  have hyshape : y.shape = z.shape ++ B := Option.some.inj (hproduct.symm.trans hjoin)
  have hfits := Shape.join_of_fits (Shape.ones_append_fits z.shape B)
  rw [Shape.join_comm] at hfits
  refine Option.some.inj (hsum.symm.trans ?_)
  rw [hyshape]
  exact (congrArg _ ha).trans hfits

/-- A constant keeps the axes of length one that its coefficients came with. From the first step on there
are the axes of the points. -/
theorem shape_hornerCplx? {z : Batch (Cplx α)} {B : Shape} {l : List (Batch α)}
    (hl : ∀ a ∈ l, a.shape = z.shape.ones ++ B) {w : Batch (Cplx α)} (h : hornerCplx? z l = some w) :
    w.shape = (if l.length ≤ 1 then z.shape.ones else z.shape) ++ B := by
  induction l generalizing w with
  | nil => cases h
  | cons a l ih =>
      obtain ⟨ha, hl⟩ := List.forall_mem_cons.1 hl
      cases l with
      | nil =>
          cases h
          exact ha
      | cons b l =>
          obtain ⟨w', hw', hx⟩ := Option.bind_eq_some_iff.1 h
          have hshape := ih hl hw'
          rw [if_neg (by simp)]
          refine hornerCplx?_step ha ?_ hx
          rw [hshape]
          split
          · exact .inl rfl
          · exact .inr rfl

theorem shape_evaluateCplx? {p : PolyBatch α} {z w : Batch (Cplx α)} (h : p.evaluateCplx? z = some w) :
    w.shape = (if p.width ≤ 1 then z.shape.ones else z.shape) ++ p.shape := by
  let columns : List (Batch α) := (List.finRange p.width).map (p.align z.shape).column
  have hcolumns : ∀ a ∈ columns, a.shape = z.shape.ones ++ p.shape := by
    intro a ha
    obtain ⟨k, -, rfl⟩ := List.mem_map.1 ha
    rfl
  have hlength : columns.length = p.width := (List.length_map _).trans List.length_finRange
  have hshape := shape_hornerCplx? hcolumns h
  rwa [hlength] at hshape

theorem shape_evaluateCplx?_iff {p : PolyBatch α} {z w : Batch (Cplx α)} (h : p.evaluateCplx? z = some w) :
    w.shape = z.shape ++ p.shape ↔ 2 ≤ p.width ∨ ∀ n ∈ z.shape, n = 1 := by
  rw [shape_evaluateCplx? h, List.append_left_inj]
  split
  next hw => rw [Shape.ones_eq_self_iff, or_iff_right (Nat.not_le.2 (Nat.lt_succ_of_le hw))]
  next hw => exact iff_of_true rfl (.inl (Nat.not_le.1 hw))

/-- The loop has a result if there are coefficients. Repeated to all axes, it is what the rule for one
polynomial gives at each point. -/
theorem reads_hornerCplx? {z : Batch (Cplx α)} {u : Shape} {v : Index u → Cplx α} (hz : z.Reads u v) {n : Nat}
    {c : Fin n → Batch α} {f : Fin n → Index u → α} (hc : ∀ k, (c k).Reads u (f k)) {l : List (Fin n)}
    (hl : l ≠ []) :
    ∃ w, hornerCplx? z (l.map c) = some w ∧ w.Reads u fun i => Cplx.evaluate (v i) (l.map (f · i)) := by
  induction l with
  | nil => cases hl rfl
  | cons k l ih =>
      have ha := (hc k).map Cplx.ofReal
      cases l with
      | nil => exact ⟨_, rfl, ha⟩
      | cons j l =>
          obtain ⟨w, hw, hread⟩ := ih (List.cons_ne_nil j l)
          obtain ⟨y, hy, hproduct⟩ := hread.zipWith? hz (· * ·)
          obtain ⟨x, hx, hsum⟩ := hproduct.zipWith? ha (· + ·)
          refine ⟨x, ?_, hsum⟩
          refine (congrArg (Option.bind · _) hw).trans ?_
          exact (congrArg (Option.bind · _) hy).trans hx

theorem reads_evaluateCplx? (p : PolyBatch α) (hp : p.width ≠ 0) (z : Batch (Cplx α)) :
    ∃ w, p.evaluateCplx? z = some w ∧ w.Reads (z.shape ++ p.shape) fun i =>
      Cplx.evaluate (z.get i.inner) (p.row (Index.outer (t := z.shape) i)) := by
  have hcolumns : List.finRange p.width ≠ [] := fun h => hp (by simpa using congrArg List.length h)
  obtain ⟨w, hw, hread⟩ := reads_hornerCplx? (reads_points z p.shape) (reads_column_align z.shape p) hcolumns
  refine ⟨w, hw, hread.1, fun i => (hread.2 i).trans (congrArg (Cplx.evaluate _) ?_)⟩
  exact (Row.toList_eq_map _).symm

end Shapes

theorem expand_evaluateCplx?_sum {R : Type u} [CommRing R] (p : PolyBatch R) (hp : p.width ≠ 0)
    (z : Batch (Cplx R)) :
    ∃ w, p.evaluateCplx? z = some w ∧ ∃ v, w.expand? (z.shape ++ p.shape) = some v ∧
      ∀ i, v.get i = ((p.row (Index.outer (t := z.shape) i)).mapIdx fun k a =>
        Cplx.ofReal a * z.get i.inner ^ k).sum := by
  obtain ⟨w, hw, hread⟩ := p.reads_evaluateCplx? hp z
  refine ⟨w, hw, _, hread.expand?, fun i => ?_⟩
  rw [Grid.get_ofFn, Coeffs.evaluate_cplx_eq]
  exact Coeffs.Expr.eval₂_build Cplx.ofRealHom (.coeffs _) (z.get i.inner)

end PolyBatch

namespace CplxTensor

/-- Evaluation at complex points has a result for every polynomial. The result has the axes of the batch and
of the points exactly if there are two coefficients or more, or all axes of the points have length one. Under
every reading of the coefficients and of the points as exact numbers, the result of that shape, repeated to
these axes, consists of the sums of powers. -/
theorem evaluate_points (p : Poly) (z : CplxTensor) (hp : p.body.width ≠ 0) :
    ∃ w, evaluate p z = .ok w ∧
      (w.cells.shape = z.cells.shape ++ p.body.rows.shape ↔
        2 ≤ p.body.width ∨ ∀ n ∈ z.cells.shape, n = 1) ∧
      ∀ (R : Type u) [CommRing R] (coeff : p.format.Elem → R) (part : z.precision.Elem → R),
        ∃ x, (p.body.map coeff).evaluateCplx? (z.cells.map (Cplx.map part)) = some x ∧
          x.shape = w.cells.shape ∧
          ∃ v, x.expand? (z.cells.shape ++ p.body.rows.shape) = some v ∧
            ∀ i, v.get i = (((p.body.map coeff).row (Index.outer (t := z.cells.shape) i)).mapIdx fun k a =>
              Cplx.ofReal a * (z.cells.map (Cplx.map part)).get i.inner ^ k).sum := by
  obtain ⟨w, hw, -⟩ := (p.cast (.real .double)).reads_evaluateCplx? hp (z.cast .double)
  have hvalue : evaluate p z = .ok ⟨.double, w⟩ := by
    rw [evaluate, if_neg hp, hw]
    rfl
  refine ⟨_, hvalue, PolyBatch.shape_evaluateCplx?_iff hw, ?_⟩
  intro R _ coeff part
  obtain ⟨x, hx, hsum⟩ := (p.body.map coeff).expand_evaluateCplx?_sum hp (z.cells.map (Cplx.map part))
  refine ⟨x, hx, ?_, hsum⟩
  rw [PolyBatch.shape_evaluateCplx? hx]
  exact (PolyBatch.shape_evaluateCplx? hw).symm

theorem evaluate_points_lines :
    (2 : Nat) ≠ 0 ∧ ∃ w, evaluate ⟨.real .double, 2, .fill [2] ⟨[1, 1], rfl⟩⟩
        ⟨.double, .fill [2] (.ofReal 1)⟩ = .ok w ∧ w.cells.shape = [2, 2] := by
  obtain ⟨w, hw, hshape, _⟩ := evaluate_points.{0} ⟨.real .double, 2, .fill [2] ⟨[1, 1], rfl⟩⟩
    ⟨.double, .fill [2] (.ofReal 1)⟩ (by decide)
  exact ⟨by decide, w, hw, hshape.2 (.inl (le_refl 2))⟩

/-- A constant is evaluated at one of two points. -/
theorem evaluate_constant_once :
    ∃ w, evaluate (.ofList (.real .double) [3]) ⟨.double, .fill [2] (.ofReal 0)⟩ = .ok w ∧
      w.cells.shape = [1] ∧ w.cells.shape ≠ [2] :=
  ⟨_, rfl, rfl, by decide⟩

end CplxTensor

end PolyRoots
