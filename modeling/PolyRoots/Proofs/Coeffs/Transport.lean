import PolyRoots.Coeffs.Construct
import PolyRoots.Proofs.Scalar.Embedding

universe u v

namespace PolyRoots

namespace Coeffs

variable {γ : Type v} {α β : Type u} [Zero α] [One α] [Add α] [Sub α] [Neg α] [Mul α] [Div α] [NatCast α]
  [BEq α] [LT α] [Zero β] [One β] [Add β] [Sub β] [Neg β] [Mul β] [Div β] [NatCast β] [BEq β] [LT β] {φ : α → β}
  (h : Embedding φ)

include h

theorem add_map (p q : List α) : add (p.map φ) (q.map φ) = (add p q).map φ := by
  unfold add
  induction p generalizing q with
  | nil =>
      have hzero : (0 + ·) ∘ φ = φ ∘ (0 + ·) := by
        funext x
        simp only [Function.comp_apply, h.add, h.zero]
      simp only [List.map_nil, padZip, List.map_map, hzero]
  | cons a p ih =>
      cases q with
      | nil =>
          have hzero : (· + 0) ∘ φ = φ ∘ (· + 0) := by
            funext x
            simp only [Function.comp_apply, h.add, h.zero]
          simp only [List.map_cons, List.map_nil, padZip, List.map_map, hzero, h.add, h.zero]
      | cons b q => simp only [List.map_cons, padZip, ih, h.add]

theorem addFront_map (acc row : List α) :
    addFront (acc.map φ) (row.map φ) = (addFront acc row).map φ := by
  induction acc generalizing row with
  | nil => rfl
  | cons a acc ih =>
      cases row with
      | nil => rfl
      | cons b row => simp only [List.map_cons, addFront, ih, h.add]

theorem mulAdd_map (q p acc : List α) :
    mulAdd (q.map φ) (p.map φ) (acc.map φ) = (mulAdd q p acc).map φ := by
  induction p generalizing acc with
  | nil => rfl
  | cons a p ih =>
      have hrow : (q.map φ).map (φ a * ·) = (q.map (a * ·)).map φ := by
        simp only [List.map_map]
        exact List.map_congr_left fun b _ => (h.mul a b).symm
      rw [List.map_cons, mulAdd, mulAdd, hrow, addFront_map h]
      cases addFront acc (q.map (a * ·)) with
      | nil => rfl
      | cons c acc => simp only [List.map_cons, ih]

theorem mul_map (p q : List α) : mul (p.map φ) (q.map φ) = (mul p q).map φ := by
  rw [mul, mul, List.length_map, List.length_map, ← h.zero, ← List.map_replicate, mulAdd_map h]

theorem nodeFactor_map [Sub γ] [Neg γ] (conv : γ → α) {x x' : γ} (hx : (conv (x - x') == 0) = false) :
    nodeFactor (fun a => φ (conv a)) x x' = (nodeFactor conv x x').map φ := by
  simp only [nodeFactor, List.map_cons, List.map_nil, h.div _ hx, h.one]

theorem foldl_nodeFactor_map [Sub γ] [Neg γ] (conv : γ → α) {x : γ} {others : List γ}
    (hx : ∀ x' ∈ others, (conv (x - x') == 0) = false) (basis : List α) :
    others.foldl (fun basis x' => mul basis (nodeFactor (fun a => φ (conv a)) x x')) (basis.map φ) =
      (others.foldl (fun basis x' => mul basis (nodeFactor conv x x')) basis).map φ := by
  induction others generalizing basis with
  | nil => rfl
  | cons x' others ih =>
      rw [List.foldl_cons, List.foldl_cons, nodeFactor_map h conv (hx x' List.mem_cons_self), mul_map h]
      exact ih (fun x' hx' => hx x' (List.mem_cons_of_mem _ hx')) _

theorem interpolate_map [Sub γ] [Neg γ] (conv : γ → α) {xs : List γ} (ys : List γ)
    (hxs : ∀ t ∈ withOthers xs, ∀ x' ∈ t.2, (conv (t.1 - x') == 0) = false) :
    interpolate (fun a => φ (conv a)) xs ys = (interpolate conv xs ys).map φ := by
  have hsum (points : List ((γ × List γ) × γ)) (hpoints : ∀ t ∈ points, t.1 ∈ withOthers xs) (acc : List α) :
      points.foldl (fun acc t => add acc (t.1.2.foldl
          (fun basis x' => mul basis (nodeFactor (fun a => φ (conv a)) t.1.1 x')) [φ (conv t.2)])) (acc.map φ) =
        (points.foldl (fun acc t => add acc (t.1.2.foldl
          (fun basis x' => mul basis (nodeFactor conv t.1.1 x')) [conv t.2])) acc).map φ := by
    induction points generalizing acc with
    | nil => rfl
    | cons t points ih =>
        have hterm := foldl_nodeFactor_map h conv (hxs _ (hpoints t List.mem_cons_self)) [conv t.2]
        rw [List.map_singleton] at hterm
        rw [List.foldl_cons, List.foldl_cons, hterm, add_map h]
        exact ih (fun t ht => hpoints t (List.mem_cons_of_mem _ ht)) _
  have hzero : ([0] : List β) = [0].map φ := by rw [List.map_singleton, h.zero]
  unfold interpolate
  rw [hzero]
  exact hsum _ (fun t ht => (List.of_mem_zip ht).1) _

end Coeffs

end PolyRoots
