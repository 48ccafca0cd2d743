import PolyRoots.Proofs.Cplx.Elements
import PolyRoots.Proofs.Poly.Batching
import PolyRoots.Proofs.Scalar.Exact

universe u

namespace PolyRoots

section Roots

variable {α : Type u} [Zero α] [One α] [Add α] [Neg α] [Mul α] [Div α] [NatCast α] [BEq α] [LT α]
  [DecidableLT α] [Elementary α]

theorem Batch.roots?_elementwise {n : Nat} (hn : n ≠ 0) (z : Batch (Cplx α)) :
    Elementwise (fun b : Batch (Row n (Cplx α)) => b.ofRows) z.shape (z.roots? n) fun i => (z.select i).roots? n := by
  refine ⟨(z.map (Cplx.rootRow n)).cells, Cplx.roots?_eq hn z, fun i => (Cplx.roots?_eq hn _).trans ?_⟩
  exact congrArg (fun b : Batch (Row n (Cplx α)) => some b.ofRows) (select_map (Cplx.rootRow n) z i).symm

end Roots

namespace CplxTensor

theorem roots_pointwise (n : Int) (z : CplxTensor) :
    Batch.Pointwise (if n < 1 then some (.rootDegree n) else none)
      (n ≤ 4 ∧ searchableAxes < z.shape.length + 1)
      (fun b : Batch (Row n.toNat _) => (⟨z.precision, b.ofRows⟩ : CplxTensor)) z.shape (z.roots n)
      fun i => (z.select i).roots n := by
  unfold roots
  refine Batch.Pointwise.guarded fun hn => ?_
  have hone (i : Index z.shape) : ¬ (n ≤ 4 ∧ searchableAxes < (z.select i).shape.length + 1) :=
    fun h => Nat.not_lt.2 (by decide : 0 + 1 ≤ searchableAxes) h.2
  obtain ⟨g, hg, hf⟩ := (z.cells.roots?_elementwise (n := n.toNat) (by omega)).fitted (CplxTensor.mk z.precision)
  refine ⟨g, ?_, fun i => (if_neg (hone i)).trans (hf i)⟩
  exact congrArg (fun r => if n ≤ 4 ∧ searchableAxes < z.shape.length + 1 then .error .tooManyAxes else r)
    (hg.trans (if_neg not_false))

theorem quadraticRoots_select (a b c : CplxTensor) (hac : a.standing.Compatible c.standing)
    (hb : b.standing.Compatible (a.standing.meet c.standing)) {u : Shape}
    (h : Shape.join₃ a.shape b.shape c.shape = some u) :
    ∃ (p : Precision) (g : Grid u (Row 2 (Cplx p.Elem))), quadraticRoots a b c = .ok ⟨p, .ofRows ⟨u, g⟩⟩ ∧
      ∀ i, quadraticRoots (a.select (i.project (Shape.join₃_fits h).1))
        (b.select (i.project (Shape.join₃_fits h).2.1)) (c.select (i.project (Shape.join₃_fits h).2.2)) =
          .ok ⟨p, .ofRows (.single (g.get i))⟩ :=
  quadraticRoots_elements a b c hac hb (elements_select a _) (elements_select b _) (elements_select c _) h

/-- The root formulas for complex tensors. The precisions of coefficients must be compatible, since
those of the batch decide how each equation is solved. -/
structure Transparent : Prop where
  roots (n : Int) (z : CplxTensor) :
    Batch.Pointwise (if n < 1 then some (.rootDegree n) else none)
      (n ≤ 4 ∧ searchableAxes < z.shape.length + 1)
      (fun b : Batch (Row n.toNat _) => (⟨z.precision, b.ofRows⟩ : CplxTensor)) z.shape (z.roots n)
      fun i => (z.select i).roots n
  quadraticRoots (a b c : CplxTensor) (hac : a.standing.Compatible c.standing)
      (hb : b.standing.Compatible (a.standing.meet c.standing)) {u : Shape}
      (h : Shape.join₃ a.shape b.shape c.shape = some u) :
    ∃ (p : Precision) (g : Grid u (Row 2 (Cplx p.Elem))), quadraticRoots a b c = .ok ⟨p, .ofRows ⟨u, g⟩⟩ ∧
      ∀ i, quadraticRoots (a.select (i.project (Shape.join₃_fits h).1))
        (b.select (i.project (Shape.join₃_fits h).2.1)) (c.select (i.project (Shape.join₃_fits h).2.2)) =
          .ok ⟨p, .ofRows (.single (g.get i))⟩

theorem transparent : Transparent where
  roots := roots_pointwise
  quadraticRoots := quadraticRoots_select

end CplxTensor

/-- Batching is transparent: over scalars of any kind, in every format, and for complex tensors of
compatible precisions. Only what is searched has a limit on its axes. -/
theorem batching_transparent :
    (∀ (α : Type u) [Zero α] [One α] [Add α] [Sub α] [Neg α] [Mul α] [Div α] [NatCast α] [BEq α],
        (∀ [Extended α], PolyBatch.Transparent α) ∧
          ∀ [LT α] [DecidableLT α] [Elementary α] (n : Nat) (z : Batch (Cplx α)), n ≠ 0 →
            Batch.Elementwise (fun b : Batch (Row n (Cplx α)) => b.ofRows) z.shape (z.roots? n)
              fun i => (z.select i).roots? n) ∧
      Poly.Transparent ∧ CplxTensor.Transparent :=
  ⟨fun α => ⟨PolyBatch.transparent α, fun _ z hn => z.roots?_elementwise hn⟩, Poly.transparent,
    CplxTensor.transparent⟩

def PolyBatch.ones (s : Shape) : PolyBatch Int := ⟨1, .fill s ⟨[1], rfl⟩⟩

namespace CplxTensor

def constant (p : Precision) (s : Shape) (x : p.Elem) : CplxTensor := ⟨p, .fill s (.ofReal x)⟩

theorem batching_transparent_ones :
    (∃ h : (PolyBatch.ones [1, 2]).shape.join (PolyBatch.ones [3]).shape = some [3, 2],
      ∃ w, Batch.Elementwise (PolyBatch.mk w) [3, 2]
        (PolyBatch.add? (PolyBatch.ones [1, 2]) (PolyBatch.ones [3])) fun i => PolyBatch.add?
          ((PolyBatch.ones [1, 2]).select (i.project (Shape.join_fits h).1))
          ((PolyBatch.ones [3]).select (i.project (Shape.join_fits h).2))) ∧
      let a := constant .double [2] 1
      let b := constant .single [] 1
      let c := constant .double [1] 1
      ∃ h : Shape.join₃ a.shape b.shape c.shape = some [2],
        ∃ (p : Precision) (g : Grid [2] (Row 2 (Cplx p.Elem))),
          quadraticRoots a b c = .ok ⟨p, .ofRows ⟨[2], g⟩⟩ ∧
            ∀ i, quadraticRoots (a.select (i.project (Shape.join₃_fits h).1))
              (b.select (i.project (Shape.join₃_fits h).2.1))
              (c.select (i.project (Shape.join₃_fits h).2.2)) = .ok ⟨p, .ofRows (.single (g.get i))⟩ := by
  refine ⟨⟨rfl, (batching_transparent.1 Int).1.add _ _ rfl⟩, rfl, ?_⟩
  refine batching_transparent.{0}.2.2.quadraticRoots _ _ _ ?_ ?_ rfl
  · exact ⟨nofun, nofun⟩
  · exact ⟨nofun, fun _ _ => rfl⟩

end CplxTensor

/-- Values along 65 axes are more than can be searched, though each of them alone is not refused. -/
theorem Poly.evaluate_many_axes :
    let p : Poly := ⟨.real .double, 2, .single ⟨[1, 2], rfl⟩⟩
    let x : Tensor := ⟨.real .double, .fill (.replicate 65 1) 1⟩
    p.evaluate x = .error .tooManyAxes ∧ ∀ i : Index (x.shape ++ p.shape),
      (p.select i.outer).evaluate (x.select i.inner) = .ok ⟨.real .double, .single 3⟩ := by
  intro p x
  refine ⟨rfl, fun i => ?_⟩
  have hpoint : x.select i.inner = ⟨.real .double, .single 1⟩ :=
    congrArg (fun y => Tensor.mk (.real .double) (.single y)) (Grid.get_fill _ i.inner)
  have hvalue : Coeffs.evaluate [1, 2] (1 : Float) = 3 := by decide +kernel
  have hone : p.body.evaluate (.single (1 : Float)) = .single 3 :=
    congrArg Batch.single ((PolyBatch.get_evaluate p.body (.single (1 : Float)) ()).trans hvalue)
  rw [hpoint]
  exact congrArg (fun b : Batch Float => evaluate.values p b >>= fun b => pure (Tensor.mk (.real .double) b)) hone

end PolyRoots
