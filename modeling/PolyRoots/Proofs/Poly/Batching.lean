import PolyRoots.Poly.Basic
import PolyRoots.Proofs.Poly.RowCalculus
import PolyRoots.Proofs.Poly.RowProducts
import PolyRoots.Proofs.Poly.RowValues
import PolyRoots.Request.Run

universe u v w

namespace PolyRoots

open Batch (Elementwise Pointwise)

namespace PolyBatch

variable {α : Type u} {β : Type v} {γ : Type w}

def select (p : PolyBatch α) (i : Index p.shape) : PolyBatch α := ⟨p.width, p.rows.select i⟩

theorem select_lift {g : Nat → Nat} {f : List α → List β} (hf : ∀ l, (f l).length = g l.length)
    (p : PolyBatch α) (i : Index p.shape) : (p.lift f hf).select i = (p.select i).lift f hf :=
  congrArg (PolyBatch.mk _) (Batch.select_map _ p.rows i)

theorem select_map (f : α → β) (p : PolyBatch α) (i : Index p.shape) :
    (p.map f).select i = (p.select i).map f :=
  congrArg (PolyBatch.mk _) (Batch.select_map _ p.rows i)

/-- An operation on two batches of polynomials acts on the pairs that broadcasting forms. -/
def Broadcasts (op : PolyBatch α → PolyBatch β → Option (PolyBatch γ)) : Prop :=
  ∀ (p : PolyBatch α) (q : PolyBatch β) {u : Shape} (h : p.shape.join q.shape = some u),
    ∃ w, Elementwise (PolyBatch.mk w) u (op p q) fun i =>
      op (p.select (i.project (Shape.join_fits h).1)) (q.select (i.project (Shape.join_fits h).2))

/-- An operation on batches that acts on the coefficient lists gives for one place what it gives for the
polynomial there. -/
theorem elementwise_of_lift {g : Nat → Nat} {f : List α → List β} {hf : ∀ l, (f l).length = g l.length}
    {op : PolyBatch α → Option (PolyBatch β)} (hop : ∀ p, op p = some (p.lift f hf)) (p : PolyBatch α) :
    ∃ w, Elementwise (PolyBatch.mk w) p.shape (op p) fun i => op (p.select i) := by
  refine ⟨g p.width, (p.lift f hf).rows.cells, hop p, fun i => (hop _).trans ?_⟩
  exact congrArg some (select_lift hf p i).symm

theorem pow?_elementwise [Zero α] [One α] [Add α] [Mul α] (p : PolyBatch α) (n : Nat) :
    ∃ w, Elementwise (PolyBatch.mk w) p.shape (p.pow? n) fun i => (p.select i).pow? n :=
  elementwise_of_lift (pow?_eq_lift · n) p

theorem derivative_elementwise [Zero α] [One α] [Sub α] [Mul α] [NatCast α] (p : PolyBatch α) (n : Nat) :
    ∃ w, Elementwise (PolyBatch.mk w) p.shape (some (p.derivative n)) fun i =>
      some ((p.select i).derivative n) :=
  elementwise_of_lift (fun p => congrArg some (derivative_eq_lift n p)) p

theorem fromRoots?_elementwise [Zero α] [One α] [Add α] [Mul α] [Neg α] (r : PolyBatch α) :
    ∃ w, Elementwise (PolyBatch.mk w) r.shape r.fromRoots? fun i => (r.select i).fromRoots? :=
  elementwise_of_lift fromRoots?_eq_lift r

theorem broadcasts_of_lift₂? {g : Nat → Nat → Nat} {f : List α → List β → List γ}
    {hf : ∀ l t, (f l t).length = g l.length t.length}
    {op : PolyBatch α → PolyBatch β → Option (PolyBatch γ)} (hop : ∀ p q, op p q = lift₂? f hf p q) :
    Broadcasts op := by
  intro p q u h
  refine ⟨g p.width q.width, ?_⟩
  simp only [hop]
  exact (Batch.zipWith?_elementwise (Row.lift₂ f hf) p.rows q.rows h).map _

theorem add?_broadcasts [Zero α] [Add α] :
    Broadcasts (add? : PolyBatch α → PolyBatch α → Option (PolyBatch α)) :=
  broadcasts_of_lift₂? fun p q => padZip?_eq_lift₂? (· + ·) p q

theorem sub?_broadcasts [Zero α] [Sub α] :
    Broadcasts (sub? : PolyBatch α → PolyBatch α → Option (PolyBatch α)) :=
  broadcasts_of_lift₂? fun p q => padZip?_eq_lift₂? (· - ·) p q

theorem mul?_broadcasts [Zero α] [Add α] [Mul α] :
    Broadcasts (mul? : PolyBatch α → PolyBatch α → Option (PolyBatch α)) :=
  broadcasts_of_lift₂? mul?_eq_lift₂?

theorem antiderivative?_elementwise [Div α] [NatCast α] (p : PolyBatch α) (c : Batch α)
    (h : c.shape.Fits p.shape) :
    ∃ w, Elementwise (PolyBatch.mk w) p.shape (p.antiderivative? c) fun i =>
      (p.select i).antiderivative? (c.select (i.project h)) := by
  have hexpand : c.expand? p.shape = some (.expand h c.cells) := dif_pos h
  refine ⟨p.width + 1, _, (p.antiderivative?_eq c).trans (congrArg _ hexpand), fun i => ?_⟩
  refine ((p.select i).antiderivative?_eq (c.select (i.project h))).trans ?_
  refine congrArg some (eq_tabulate rfl fun _ => (congrArg Row.toList (Grid.get_ofFn _ i)).trans ?_).symm
  exact congrArg (Coeffs.antiderivative · (p.row i)) (Grid.get_expand h c.cells i)

theorem scale?_elementwise [Mul α] (p : PolyBatch α) (c : Batch α) {u : Shape}
    (h : p.shape.join c.shape = some u) :
    Elementwise (PolyBatch.mk p.width) u (p.scale? c) fun i =>
      (p.select (i.project (Shape.join_fits h).1)).scale?
        (c.select (i.project (Shape.join_fits h).2)) := by
  simp only [scale?_eq]
  exact (Batch.zipWith?_elementwise _ p.rows c h).map _

theorem scaleCoeffs?_single [Mul α] (p : PolyBatch α) (x : α) :
    p.scaleCoeffs? (.single x) = p.scale? (.single x) := by
  have hcoeffs : p.coeffs.shape.join (Batch.single x).shape = some (p.width :: p.shape) := rfl
  rw [scaleCoeffs?, scale?_eq, Batch.zipWith?_of_join _ p.rows _ (Shape.join_nil _),
    Batch.zipWith?_of_join _ p.coeffs _ hcoeffs]
  refine congrArg (fun g => some (PolyBatch.mk p.width (Batch.mk p.shape g)))
    (Grid.ext fun i => Row.ext fun k => ?_)
  rw [Grid.get_ofFn, Row.get_map, Index.project_self]
  refine (Grid.get_ofFn (s := p.width :: p.shape) _ (k, i)).trans ?_
  exact congrArg (fun j => p.coeffs.get j * x)
    (Index.project_self (Shape.fits_refl p.coeffs.shape) (k, i))

theorem agree?_elementwise [Zero α] [Sub α] (test : α → Bool) (p q : PolyBatch α) {u : Shape}
    (h : p.shape.join q.shape = some u) :
    Elementwise id u (agree? test p q) fun i =>
      agree? test (p.select (i.project (Shape.join_fits h).1))
        (q.select (i.project (Shape.join_fits h).2)) := by
  simp only [agree?_eq]
  exact Batch.zipWith?_elementwise _ p.rows q.rows h

theorem select_evaluate [Zero α] [Add α] [Mul α] [BEq α] [Extended α] (p : PolyBatch α) (x : Batch α)
    (i : Index (x.shape ++ p.shape)) :
    (p.evaluate x).select i = (p.select i.outer).evaluate (x.select i.inner) :=
  congrArg Batch.single ((p.get_evaluate x i).trans (get_evaluate (p.select i.outer) (x.select i.inner) ()).symm)

section Transparent

variable (α) [Zero α] [One α] [Add α] [Sub α] [Neg α] [Mul α] [Div α] [NatCast α] [BEq α]
  [Extended α]

/-- What an operation gives for one place of a batch is what it gives for the polynomials there. -/
structure Transparent : Prop where
  neg (p : PolyBatch α) (i : Index p.shape) : p.neg.select i = (p.select i).neg
  pow (p : PolyBatch α) (n : Nat) :
    ∃ w, Elementwise (PolyBatch.mk w) p.shape (p.pow? n) fun i => (p.select i).pow? n
  derivative (p : PolyBatch α) (n : Nat) : ∃ w,
    Elementwise (PolyBatch.mk w) p.shape (some (p.derivative n)) fun i => some ((p.select i).derivative n)
  fromRoots (r : PolyBatch α) :
    ∃ w, Elementwise (PolyBatch.mk w) r.shape r.fromRoots? fun i => (r.select i).fromRoots?
  add : Broadcasts (add? : PolyBatch α → PolyBatch α → Option (PolyBatch α))
  sub : Broadcasts (sub? : PolyBatch α → PolyBatch α → Option (PolyBatch α))
  mul : Broadcasts (mul? : PolyBatch α → PolyBatch α → Option (PolyBatch α))
  scale (p : PolyBatch α) (c : Batch α) {u : Shape} (h : p.shape.join c.shape = some u) :
    ∃ w, Elementwise (PolyBatch.mk w) u (p.scale? c) fun i =>
      (p.select (i.project (Shape.join_fits h).1)).scale?
        (c.select (i.project (Shape.join_fits h).2))
  antiderivative (p : PolyBatch α) (c : Batch α) (h : c.shape.Fits p.shape) :
    ∃ w, Elementwise (PolyBatch.mk w) p.shape (p.antiderivative? c) fun i =>
      (p.select i).antiderivative? (c.select (i.project h))
  agree (test : α → Bool) (p q : PolyBatch α) {u : Shape} (h : p.shape.join q.shape = some u) :
    Elementwise id u (agree? test p q) fun i =>
      agree? test (p.select (i.project (Shape.join_fits h).1))
        (q.select (i.project (Shape.join_fits h).2))
  evaluate (p : PolyBatch α) (x : Batch α) (i : Index (x.shape ++ p.shape)) :
    (p.evaluate x).select i = (p.select i.outer).evaluate (x.select i.inner)

theorem transparent : Transparent α where
  neg p i := select_map _ p i
  pow := pow?_elementwise
  derivative := derivative_elementwise
  fromRoots := fromRoots?_elementwise
  add := add?_broadcasts
  sub := sub?_broadcasts
  mul := mul?_broadcasts
  scale p c _ h := ⟨p.width, scale?_elementwise p c h⟩
  antiderivative := antiderivative?_elementwise
  agree test p q _ h := agree?_elementwise test p q h
  evaluate := select_evaluate

end Transparent

end PolyBatch

def Tensor.select (t : Tensor) (i : Index t.shape) : Tensor := ⟨t.format, t.cells.select i⟩

theorem Tensor.cast_select (t : Tensor) (i : Index t.shape) (f : Format) :
    (t.select i).cast f = (t.cast f).select i :=
  (Batch.select_map _ t.cells i).symm

theorem Tensor.cast_self (t : Tensor) : t.cast t.format = t.cells := by
  have hconvert : t.format.convert t.format = id := funext t.format.convert_self
  rw [cast, hconvert, Batch.map_id]

namespace Poly

abbrev shape (p : Poly) : Shape := p.body.shape

def select (p : Poly) (i : Index p.shape) : Poly := ⟨p.format, p.body.select i⟩

theorem cast_select (p : Poly) (i : Index p.shape) (f : Format) :
    (p.select i).cast f = (p.cast f).select i :=
  (PolyBatch.select_map _ p.body i).symm

def Pointwise (fault : Option Fault) (u : Shape) (r : Except Fault Poly) (f : Index u → Except Fault Poly) :
    Prop :=
  ∃ format w, Batch.Pointwise fault False (fun b => (⟨format, w, b⟩ : Poly)) u r f

def Broadcasts (fault : Poly → Poly → Option Fault) (op : Poly → Poly → Except Fault Poly) : Prop :=
  ∀ (p q : Poly) {u : Shape} (h : p.shape.join q.shape = some u),
    Pointwise (fault p q) u (op p q) fun i =>
      op (p.select (i.project (Shape.join_fits h).1)) (q.select (i.project (Shape.join_fits h).2))

theorem combine_broadcasts
    (op : {f : Format} → PolyBatch f.Elem → PolyBatch f.Elem → Option (PolyBatch f.Elem))
    (hop : ∀ f : Format, PolyBatch.Broadcasts (@op f)) : Broadcasts (fun _ _ => none) (combine op) := by
  intro p q u h
  let f := p.format.join q.format
  obtain ⟨w, hw⟩ := hop f (p.cast f) (q.cast f) h
  refine ⟨f, w, Elementwise.fitted (hw.congr fun i => ?_) (Poly.mk f)⟩
  exact congrArg₂ op (cast_select p _ f) (cast_select q _ f)

theorem Pointwise.guarded {fault : Option Fault} {u : Shape} {r : Except Fault Poly}
    {f : Index u → Except Fault Poly} {c : Prop} [Decidable c] {e : Fault} (h : ¬c → Pointwise fault u r f) :
    Pointwise (if c then some e else fault) u (if c then .error e else r)
      fun i => if c then .error e else f i := by
  by_cases hc : c
  · exact ⟨.flag, 0, .guarded fun hnot => absurd hc hnot⟩
  · obtain ⟨format, w, h⟩ := h hc
    exact ⟨format, w, .guarded fun _ => h⟩

theorem Pointwise.of_elementwise {f : Format} {u : Shape} {r : Option (PolyBatch f.Elem)}
    {r' : Index u → Option (PolyBatch f.Elem)} (h : ∃ w, Elementwise (PolyBatch.mk w) u r r') :
    Pointwise none u (fitted r >>= fun b => pure ⟨f, b⟩)
      fun i => fitted (r' i) >>= fun b => pure ⟨f, b⟩ := by
  obtain ⟨w, h⟩ := h
  exact ⟨f, w, h.fitted (Poly.mk f)⟩

theorem needsNumbers_bind {α : Type} (f : Format) (e : Fault) (r : Except Fault α) :
    (needsNumbers f e >>= fun _ => r) = if f = .flag then .error e else r := by
  unfold needsNumbers
  split <;> rfl

theorem neg_pointwise (p : Poly) :
    Pointwise (if p.format = .flag then some .flagDifference else none) p.shape p.neg
      fun i => (p.select i).neg := by
  simp only [neg, needsNumbers_bind]
  refine Pointwise.guarded fun _ => ⟨p.format, p.body.width, p.body.neg.rows.cells, rfl, fun i => ?_⟩
  exact congrArg (fun b => Except.ok (Poly.mk p.format b)) (PolyBatch.select_map _ p.body i).symm

theorem derivative_eq (p : Poly) (order : Int) :
    p.derivative order =
      if order < 0 then .error (.negativeOrder order)
      else if (0 < order ∧ order < p.body.width) ∧ p.format = .flag then .error .flagCount
      else .ok ⟨p.format, p.body.derivative order.toNat⟩ := by
  by_cases hneg : order < 0
  · simp only [derivative, hneg, if_true]
    rfl
  · by_cases hnumbers : 0 < order ∧ order < p.body.width <;> by_cases hflag : p.format = .flag <;>
      simp only [derivative, needsNumbers, hneg, hnumbers, hflag, if_true, if_false, and_true, and_false] <;> rfl

theorem derivative_pointwise (p : Poly) (order : Int) :
    Pointwise (if order < 0 then some (.negativeOrder order)
        else if (0 < order ∧ order < p.body.width) ∧ p.format = .flag then some .flagCount else none)
      p.shape (p.derivative order) fun i => (p.select i).derivative order := by
  simp only [derivative_eq]
  refine Pointwise.guarded fun _ => Pointwise.guarded fun _ => ?_
  exact Pointwise.of_elementwise (p.body.derivative_elementwise order.toNat)

theorem pow_pointwise (p : Poly) (n : Int) :
    Pointwise (if n < 0 then some (.negativeExponent n)
        else if n = 0 ∧ p.shape.size = 0 then some .emptyCoefficients
        else if p.body.width = 0 ∧ 1 < n then some .shapes else none)
      p.shape (p.pow n) fun i => (p.select i).pow n := by
  unfold pow
  refine Pointwise.guarded fun _ => ?_
  by_cases hempty : n = 0 ∧ p.shape.size = 0
  · rw [if_pos hempty]
    exact ⟨.flag, 0, .empty hempty.2 (if_pos hempty)⟩
  · have hone (i : Index p.shape) : ¬ (n = 0 ∧ (p.select i).shape.size = 0) := fun h => Nat.one_ne_zero h.2
    simp only [hempty, hone, if_false]
    exact Pointwise.guarded fun _ => .of_elementwise (p.body.pow?_elementwise n.toNat)

theorem fromRoots_eq (f : Format) {n : Nat} (rows : Batch (Row n f.Elem)) :
    fromRoots ⟨f, rows.ofRows⟩ =
      if n ≠ 0 ∧ f = .flag then .error .flagDifference
      else if rows.shape.size = 0 then .error .emptyCoefficients
      else fitted (PolyBatch.mk n rows).fromRoots? >>= fun b => pure ⟨f, b⟩ := by
  have hrows : PolyBatch.ofCoeffs? rows.ofRows = some ⟨n, rows⟩ := rfl
  have hroots := PolyBatch.fromRoots?_eq_lift (PolyBatch.mk n rows)
  have hempty : ((PolyBatch.mk n rows).lift Coeffs.fromRoots Coeffs.length_fromRoots).isEmpty =
      (rows.shape.size == 0) := rfl
  have hchecked : (fitted (PolyBatch.mk n rows).fromRoots? >>= fun b : PolyBatch f.Elem =>
      if b.isEmpty then throw .emptyCoefficients else pure (Poly.mk f b)) =
        if rows.shape.size = 0 then .error .emptyCoefficients
        else fitted (PolyBatch.mk n rows).fromRoots? >>= fun b => pure ⟨f, b⟩ := by
    rw [hroots]
    change (if PolyBatch.isEmpty _ then _ else _) = _
    rw [hempty]
    by_cases hsize : rows.shape.size = 0
    · rw [if_pos hsize, hsize]
      rfl
    · rw [if_neg hsize, if_neg (by simpa using hsize)]
      rfl
  rw [← hchecked, fromRoots, hrows]
  by_cases hn : n = 0
  · rw [if_neg fun h => h.1 hn]
    exact if_neg (not_not_intro hn)
  · refine (if_pos hn).trans ((needsNumbers_bind f .flagDifference _).trans ?_)
    by_cases hf : f = .flag
    · rw [if_pos hf, if_pos ⟨hn, hf⟩]
    · rw [if_neg hf, if_neg fun h => hf h.2]
      rfl

theorem fromRoots_pointwise (f : Format) {n : Nat} (rows : Batch (Row n f.Elem)) :
    Pointwise (if n ≠ 0 ∧ f = .flag then some .flagDifference
        else if rows.shape.size = 0 then some .emptyCoefficients else none)
      rows.shape (fromRoots ⟨f, rows.ofRows⟩) fun i => fromRoots ⟨f, (rows.select i).ofRows⟩ := by
  simp only [fromRoots_eq]
  refine Pointwise.guarded fun _ => ?_
  by_cases hempty : rows.shape.size = 0
  · rw [if_pos hempty]
    exact ⟨.flag, 0, .empty hempty (if_pos hempty)⟩
  · have hone (i : Index rows.shape) : ¬ (rows.select i).shape.size = 0 := Nat.one_ne_zero
    simp only [hempty, hone, if_false]
    exact Pointwise.of_elementwise (PolyBatch.mk n rows).fromRoots?_elementwise

theorem antiderivative_pointwise (p : Poly) (c : Batch p.format.Elem) (h : c.shape.Fits p.shape) :
    Pointwise (if p.format = .flag then some .flagCount else none) p.shape (p.antiderivative c) fun i =>
      (p.select i).antiderivative (c.select (i.project h)) := by
  let f : Format := .real p.format.quotients
  obtain ⟨w, hw⟩ := PolyBatch.antiderivative?_elementwise (p.cast f) (c.map (p.format.convert f)) h
  simp only [antiderivative, needsNumbers_bind]
  refine Pointwise.guarded fun _ => ⟨f, w, Elementwise.fitted (hw.congr fun i => ?_) (Poly.mk f)⟩
  exact congrArg₂ (fun p c => PolyBatch.antiderivative? c p) (cast_select p i f)
    (Batch.select_map (p.format.convert f) c _).symm

theorem add_broadcasts : Broadcasts (fun _ _ => none) add :=
  combine_broadcasts _ fun _ => PolyBatch.add?_broadcasts

theorem sub_broadcasts :
    Broadcasts (fun p q => if p.format.join q.format = .flag then some .flagDifference else none) sub := by
  intro p q u h
  simp only [sub, needsNumbers_bind]
  exact Pointwise.guarded fun _ => combine_broadcasts _ (fun _ => PolyBatch.sub?_broadcasts) p q h

theorem mul_broadcasts :
    Broadcasts (fun p q => if p.body.width + q.body.width = 0 then some .shapes else none) mul := by
  intro p q u h
  exact Pointwise.guarded fun _ => combine_broadcasts _ (fun _ => PolyBatch.mul?_broadcasts) p q h

theorem searched_pointwise {α : Type} {extra : Nat} (hextra : extra ≤ searchableAxes) (b : Batch α) :
    Batch.Pointwise none (searchableAxes < b.shape.length + extra) id b.shape (searched extra b)
      fun i => searched extra (b.select i) := by
  refine ⟨b.cells, rfl, fun i => if_neg ?_⟩
  rw [show (b.select i).shape = [] from rfl, List.length_nil]
  omega

theorem searched_of_elementwise {α : Type} {extra : Nat} (hextra : extra ≤ searchableAxes) {u : Shape}
    {r : Option (Batch α)} {f : Index u → Option (Batch α)} (h : Elementwise id u r f) :
    Batch.Pointwise none (searchableAxes < u.length + extra) id u (fitted r >>= searched extra) fun i =>
      fitted (f i) >>= searched extra := by
  obtain ⟨g, hg, hf⟩ := h
  simp only [hg, hf]
  exact searched_pointwise hextra ⟨u, g⟩

theorem equal_pointwise (tol : Float) (p q : Poly) {u : Shape} (h : p.shape.join q.shape = some u) :
    Batch.Pointwise (if p.format = .flag then some .flagDifference
        else if q.format = .flag then some .flagDifference else none)
      (searchableAxes < u.length + 1) id u (equal tol p q) fun i =>
        equal tol (p.select (i.project (Shape.join_fits h).1))
          (q.select (i.project (Shape.join_fits h).2)) := by
  let f := p.format.join q.format
  have hagree := PolyBatch.agree?_elementwise (f.within tol) (p.cast f) (q.cast f) h
  simp only [equal, needsNumbers_bind]
  refine Batch.Pointwise.guarded fun _ => Batch.Pointwise.guarded fun _ => ?_
  refine searched_of_elementwise (by decide) (hagree.congr fun i => ?_)
  exact congrArg₂ (PolyBatch.agree? (f.within tol)) (cast_select p _ f) (cast_select q _ f)

theorem values_pointwise (p : Poly) {α : Type} (b : Batch α) :
    Batch.Pointwise none (p.body.width ≠ 0 ∧ searchableAxes < b.shape.length) id b.shape
      (evaluate.values p b) fun i => evaluate.values p (b.select i) := by
  -- without coefficients nothing is searched
  by_cases hw : p.body.width = 0
  · refine ⟨b.cells, (if_pos hw).trans (if_neg fun h => h.1 hw).symm, fun _ => if_pos hw⟩
  · have hvalues (b : Batch α) : evaluate.values p b = searched 0 b := if_neg hw
    obtain ⟨g, hg, hf⟩ := searched_pointwise (Nat.zero_le searchableAxes) b
    refine ⟨g, (hvalues b).trans (hg.trans ?_), fun i => (hvalues _).trans (hf i)⟩
    exact if_congr (and_iff_right hw).symm rfl rfl

theorem evaluate_cast_pointwise (p : Poly) (x : Tensor) (f : Format) [Extended f.Elem] :
    Batch.Pointwise none (p.body.width ≠ 0 ∧ searchableAxes < (x.shape ++ p.shape).length) (Tensor.mk f)
      (x.shape ++ p.shape)
      (evaluate.values p ((p.cast f).evaluate (x.cast f)) >>= fun b => pure ⟨f, b⟩) fun i =>
        evaluate.values (p.select i.outer)
          (((p.select i.outer).cast f).evaluate ((x.select i.inner).cast f)) >>= fun b =>
            pure ⟨f, b⟩ := by
  refine ((values_pointwise p ((p.cast f).evaluate (x.cast f))).map (Tensor.mk f)).congr rfl fun i => ?_
  rw [cast_select, Tensor.cast_select]
  exact congrArg (fun b => evaluate.values p b >>= fun b => pure (Tensor.mk f b))
    (PolyBatch.select_evaluate (p.cast f) (x.cast f) i).symm

theorem evaluate_pointwise (p : Poly) (x : Tensor) :
    ∃ f, Batch.Pointwise (if p.format.join x.format = .int64 then some .noUndefined else none)
      (p.body.width ≠ 0 ∧ searchableAxes < (x.shape ++ p.shape).length) (Tensor.mk f) (x.shape ++ p.shape)
      (p.evaluate x) fun i => (p.select i.outer).evaluate (x.select i.inner) := by
  have hformat (i : Index (x.shape ++ p.shape)) : (p.select i.outer).format.join
      (x.select i.inner).format = p.format.join x.format := rfl
  refine ⟨p.format.join x.format, ?_⟩
  unfold evaluate
  simp only [hformat]
  cases p.format.join x.format with
  | int64 => exact ⟨rfl, fun _ => rfl⟩
  | flag => exact evaluate_cast_pointwise p x .flag
  | real q => exact evaluate_cast_pointwise p x (.real q)

theorem cast_self (p : Poly) : p.cast p.format = p.body := by
  have hrow : Row.map (p.format.convert p.format) = (id : Row p.body.width p.format.Elem → _) :=
    funext fun r => Row.ext fun k => by rw [Row.get_map, Format.convert_self]; rfl
  exact congrArg (PolyBatch.mk p.body.width) ((congrArg (p.body.rows.map ·) hrow).trans (Batch.map_id _))

theorem scale_eq (p : Poly) (c : Batch p.format.Elem) :
    scale ⟨p.format, c⟩ p = fitted (p.body.scale? c) >>= fun b => pure ⟨p.format, b⟩ := by
  have hformat (f : Format) (hf : f = p.format) :
      (fitted ((p.cast f).scale? ((Tensor.mk p.format c).cast f)) >>= fun b => pure (Poly.mk f b)) =
        fitted (p.body.scale? c) >>= fun b => pure ⟨p.format, b⟩ := by
    subst hf
    rw [cast_self, Tensor.cast_self]
  exact hformat _ (Format.join_self p.format)

theorem scaleValue_single (p : Poly) (x : p.format.Elem) :
    p.scaleValue (.tensor ⟨p.format, .single x⟩) =
      fitted (p.body.scale? (.single x)) >>= fun b => pure (.poly ⟨p.format, b⟩) := by
  have hcoeffs : p.scaleValue (.tensor ⟨p.format, .single x⟩) =
      (fitted (p.body.scaleCoeffs? ((Tensor.mk p.format (.single x)).cast p.format)) >>= fun b =>
        pure (Poly.mk p.format b)) >>= fun q => pure (.poly q) := rfl
  rw [hcoeffs, Tensor.cast_self, PolyBatch.scaleCoeffs?_single, bind_assoc]
  rfl

theorem scaleValue_eq (p : Poly) (c : Batch p.format.Elem) :
    p.scaleValue (.tensor ⟨p.format, c⟩) =
      fitted (p.body.scale? c) >>= fun b => pure (.poly ⟨p.format, b⟩) := by
  obtain ⟨s, x⟩ := c
  cases s with
  | nil => exact scaleValue_single p x
  | cons n s =>
      have hscale : p.scaleValue (.tensor ⟨p.format, ⟨n :: s, x⟩⟩) =
          scale ⟨p.format, ⟨n :: s, x⟩⟩ p >>= fun q => pure (.poly q) := rfl
      rw [hscale, scale_eq, bind_assoc]
      rfl

theorem scale_pointwise (p : Poly) (c : Tensor) (hc : c.format = p.format) {u : Shape}
    (h : p.shape.join c.shape = some u) :
    ∃ f w, Batch.Pointwise none False (fun b => Value.poly ⟨f, w, b⟩) u (p.scaleValue (.tensor c)) fun i =>
      (p.select (i.project (Shape.join_fits h).1)).scaleValue
        (.tensor (c.select (i.project (Shape.join_fits h).2))) := by
  obtain ⟨f, c⟩ := c
  obtain rfl : f = p.format := hc
  have hscale := (PolyBatch.scale?_elementwise p.body c h).fitted (fun b => Value.poly ⟨p.format, b⟩)
  refine ⟨p.format, p.body.width, hscale.congr (scaleValue_eq p c) fun i => ?_⟩
  exact scaleValue_eq (p.select (i.project (Shape.join_fits h).1))
    (c.select (i.project (Shape.join_fits h).2))

/-- What an operation gives for one place of a batch is what it gives for the polynomials there, in
whatever formats they are stored. The formats and the counts of coefficients decide what is refused. -/
structure Transparent : Prop where
  add : Broadcasts (fun _ _ => none) add
  sub : Broadcasts (fun p q => if p.format.join q.format = .flag then some .flagDifference else none) sub
  mul : Broadcasts (fun p q => if p.body.width + q.body.width = 0 then some .shapes else none) mul
  neg (p : Poly) : Pointwise (if p.format = .flag then some .flagDifference else none) p.shape p.neg
    fun i => (p.select i).neg
  pow (p : Poly) (n : Int) :
    Pointwise (if n < 0 then some (.negativeExponent n)
        else if n = 0 ∧ p.shape.size = 0 then some .emptyCoefficients
        else if p.body.width = 0 ∧ 1 < n then some .shapes else none)
      p.shape (p.pow n) fun i => (p.select i).pow n
  derivative (p : Poly) (n : Int) :
    Pointwise (if n < 0 then some (.negativeOrder n)
        else if (0 < n ∧ n < p.body.width) ∧ p.format = .flag then some .flagCount else none)
      p.shape (p.derivative n) fun i => (p.select i).derivative n
  antiderivative (p : Poly) (c : Batch p.format.Elem) (h : c.shape.Fits p.shape) :
    Pointwise (if p.format = .flag then some .flagCount else none) p.shape (p.antiderivative c) fun i =>
      (p.select i).antiderivative (c.select (i.project h))
  fromRoots (f : Format) {n : Nat} (rows : Batch (Row n f.Elem)) :
    Pointwise (if n ≠ 0 ∧ f = .flag then some .flagDifference
        else if rows.shape.size = 0 then some .emptyCoefficients else none)
      rows.shape (fromRoots ⟨f, rows.ofRows⟩) fun i => fromRoots ⟨f, (rows.select i).ofRows⟩
  scale (p : Poly) (c : Tensor) (hc : c.format = p.format) {u : Shape}
      (h : p.shape.join c.shape = some u) :
    ∃ f w, Batch.Pointwise none False (fun b => Value.poly ⟨f, w, b⟩) u (p.scaleValue (.tensor c)) fun i =>
      (p.select (i.project (Shape.join_fits h).1)).scaleValue
        (.tensor (c.select (i.project (Shape.join_fits h).2)))
  equal (tol : Float) (p q : Poly) {u : Shape} (h : p.shape.join q.shape = some u) :
    Batch.Pointwise (if p.format = .flag then some .flagDifference
        else if q.format = .flag then some .flagDifference else none)
      (searchableAxes < u.length + 1) id u (equal tol p q) fun i =>
        equal tol (p.select (i.project (Shape.join_fits h).1))
          (q.select (i.project (Shape.join_fits h).2))
  evaluate (p : Poly) (x : Tensor) :
    ∃ f, Batch.Pointwise (if p.format.join x.format = .int64 then some .noUndefined else none)
      (p.body.width ≠ 0 ∧ searchableAxes < (x.shape ++ p.shape).length) (Tensor.mk f) (x.shape ++ p.shape)
      (p.evaluate x) fun i => (p.select i.outer).evaluate (x.select i.inner)

theorem transparent : Transparent where
  add := add_broadcasts
  sub := sub_broadcasts
  mul := mul_broadcasts
  neg := neg_pointwise
  pow := pow_pointwise
  derivative := derivative_pointwise
  antiderivative := antiderivative_pointwise
  fromRoots := fromRoots_pointwise
  scale := scale_pointwise
  equal := equal_pointwise
  evaluate := evaluate_pointwise

end Poly

end PolyRoots
