import PolyRoots.Poly.Division
import PolyRoots.Proofs.Fault
import PolyRoots.Proofs.Poly.RowCalculus
import PolyRoots.Proofs.Poly.RowProducts

universe u v w

namespace PolyRoots

namespace Shape

theorem joinAxis_eq_zero {m n k : Nat} (h : joinAxis m n = some k) : k = 0 ↔ m = 0 ∨ n = 0 := by
  unfold joinAxis at h
  grind

theorem join_size_eq_zero {s t u : Shape} (h : s.join t = some u) :
    u.size = 0 ↔ s.size = 0 ∨ t.size = 0 := by
  induction s generalizing t u with
  | nil =>
      cases h
      exact (or_iff_right Nat.one_ne_zero).symm
  | cons m s ih =>
      cases t with
      | nil =>
          cases h
          exact (or_iff_left Nat.one_ne_zero).symm
      | cons n t =>
          simp only [join] at h
          split at h
          next k v hk hv =>
            cases h
            rw [size, size, size, Nat.mul_eq_zero, Nat.mul_eq_zero, Nat.mul_eq_zero, joinAxis_eq_zero hk,
              ih hv]
            exact or_or_or_comm
          next => cases h

end Shape

theorem Batch.zipWith?_size {α : Type u} {β : Type v} {γ : Type w} {f : α → β → γ} {a : Batch α}
    {b : Batch β} {c : Batch γ} (h : zipWith? f a b = some c) :
    c.shape.size ≠ 0 ↔ a.shape.size ≠ 0 ∧ b.shape.size ≠ 0 := by
  obtain ⟨hj, -⟩ := zipWith?_eq_some h
  rw [Ne, Shape.join_size_eq_zero hj, not_or]

namespace PolyBatch

variable {α : Type u} {β : Type v} {γ : Type w}

structure Filled (p : PolyBatch α) : Prop where
  width : 0 < p.width
  batch : p.rows.shape.size ≠ 0

theorem isEmpty_eq_false_iff {p : PolyBatch α} : p.isEmpty = false ↔ p.Filled := by
  rw [isEmpty, Bool.or_eq_false_iff, beq_eq_false_iff_ne, beq_eq_false_iff_ne, ← Nat.pos_iff_ne_zero]
  exact ⟨fun h => ⟨h.1, h.2⟩, fun h => ⟨h.width, h.batch⟩⟩

theorem filled_iff {p : PolyBatch α} : p.Filled ↔ p.coeffs.shape.size ≠ 0 := by
  have hsize : p.coeffs.shape.size = p.width * p.rows.shape.size := rfl
  rw [hsize, Nat.mul_ne_zero_iff, ← Nat.pos_iff_ne_zero]
  exact ⟨fun h => ⟨h.width, h.batch⟩, fun h => ⟨h.1, h.2⟩⟩

theorem coeffs_of_ofCoeffs? {b : Batch α} {p : PolyBatch α} (h : ofCoeffs? b = some p) : p.coeffs = b := by
  obtain ⟨s, x⟩ := b
  cases s with
  | nil => cases h
  | cons n s =>
      cases h
      rfl

theorem filled_ofList {l : List α} (h : l ≠ []) : (ofList l).Filled :=
  ⟨List.length_pos_iff.2 h, Nat.one_ne_zero⟩

theorem Filled.map {p : PolyBatch α} (hp : p.Filled) (f : α → β) : (p.map f).Filled :=
  ⟨hp.width, hp.batch⟩

theorem Filled.lift {p : PolyBatch α} (hp : p.Filled) {g : Nat → Nat} {f : List α → List β}
    {hf : ∀ l, (f l).length = g l.length} (hg : ∀ m, 0 < m → 0 < g m) : (p.lift f hf).Filled :=
  ⟨hg _ hp.width, hp.batch⟩

theorem Filled.lift₂? {p : PolyBatch α} {q : PolyBatch β} (hp : p.Filled) (hq : q.Filled)
    {g : Nat → Nat → Nat} {f : List α → List β → List γ} {hf : ∀ l t, (f l t).length = g l.length t.length}
    (hg : ∀ m n, 0 < m → 0 < n → 0 < g m n) {r : PolyBatch γ} (h : lift₂? f hf p q = some r) :
    r.Filled := by
  obtain ⟨b, hb, rfl⟩ := Option.map_eq_some_iff.1 h
  exact ⟨hg _ _ hp.width hq.width, (Batch.zipWith?_size hb).2 ⟨hp.batch, hq.batch⟩⟩

section Arithmetic

variable {p q r : PolyBatch α}

theorem Filled.neg [Neg α] (hp : p.Filled) : p.neg.Filled := hp.map _

theorem Filled.add? [Zero α] [Add α] (hp : p.Filled) (hq : q.Filled) (h : p.add? q = some r) : r.Filled := by
  rw [PolyBatch.add?, padZip?_eq_lift₂?] at h
  exact hp.lift₂? hq (fun _ _ hm _ => by omega) h

theorem Filled.sub? [Zero α] [Sub α] (hp : p.Filled) (hq : q.Filled) (h : p.sub? q = some r) : r.Filled := by
  rw [PolyBatch.sub?, padZip?_eq_lift₂?] at h
  exact hp.lift₂? hq (fun _ _ hm _ => by omega) h

theorem Filled.mul? [Zero α] [Add α] [Mul α] (hp : p.Filled) (hq : q.Filled) (h : p.mul? q = some r) :
    r.Filled := by
  rw [mul?_eq_lift₂?] at h
  exact hp.lift₂? hq (fun _ _ hm hn => by omega) h

theorem Filled.pow? [Zero α] [One α] [Add α] [Mul α] (hp : p.Filled) {n : Nat} (h : p.pow? n = some r) :
    r.Filled := by
  rw [pow?_eq_lift] at h
  cases h
  refine hp.lift fun m hm => ?_
  have hmul : n ≤ n * m := Nat.le_mul_of_pos_right n hm
  unfold Coeffs.powLength
  split <;> omega

theorem Filled.fromRoots? [Zero α] [One α] [Add α] [Mul α] [Neg α] (h : p.fromRoots? = some r) :
    r.Filled ↔ p.rows.shape.size ≠ 0 := by
  rw [fromRoots?_eq_lift] at h
  cases h
  exact ⟨fun h => h.batch, fun h => ⟨Nat.succ_pos _, h⟩⟩

theorem Filled.derivative [Zero α] [One α] [Sub α] [Mul α] [NatCast α] (hp : p.Filled) (order : Nat) :
    (p.derivative order).Filled := by
  rw [derivative_eq_lift]
  refine hp.lift fun m hm => ?_
  unfold Coeffs.derivativeLength
  split
  · exact hm
  · split <;> omega

theorem Filled.antiderivative? [Div α] [NatCast α] (hp : p.Filled) {c : Batch α}
    (h : p.antiderivative? c = some r) : r.Filled := by
  rw [antiderivative?_eq] at h
  obtain ⟨c', -, rfl⟩ := Option.map_eq_some_iff.1 h
  exact ⟨Nat.succ_pos _, hp.batch⟩

theorem Filled.scale?_iff [Mul α] (hp : p.Filled) {c : Batch α} (h : p.scale? c = some r) :
    r.Filled ↔ c.shape.size ≠ 0 := by
  rw [scale?_eq] at h
  obtain ⟨b, hb, rfl⟩ := Option.map_eq_some_iff.1 h
  have hsize := Batch.zipWith?_size hb
  exact ⟨fun h => (hsize.1 h.batch).2, fun h => ⟨hp.width, hsize.2 ⟨hp.batch, h⟩⟩⟩

theorem Filled.scaleCoeffs?_iff [Mul α] (hp : p.Filled) {c : Batch α} (h : p.scaleCoeffs? c = some r) :
    r.Filled ↔ c.shape.size ≠ 0 := by
  obtain ⟨b, hb, hr⟩ := Option.bind_eq_some_iff.1 h
  rw [filled_iff, coeffs_of_ofCoeffs? hr, Batch.zipWith?_size hb]
  exact and_iff_right (filled_iff.1 hp)

end Arithmetic

theorem significantWidth_pos (test : α → Bool) (p : PolyBatch α) : 0 < p.significantWidth test := by
  rw [significantWidth]
  cases Coeffs.lastIndex? id _ with
  | none => exact Nat.one_pos
  | some k => exact Nat.succ_pos k

theorem Filled.take {p : PolyBatch α} (hp : p.Filled) {n : Nat} (hn : 0 < n) : (p.take n).Filled :=
  ⟨Nat.lt_min.2 ⟨hn, hp.width⟩, hp.batch⟩

end PolyBatch

theorem Coeffs.interpolate_ne_nil [Sub α] [Neg α] [Zero β] [One β] [Add β] [Mul β] [Div β]
    (conv : α → β) (xs ys : List α) : interpolate conv xs ys ≠ [] := by
  have hfold (l : List ((α × List α) × α)) (term : (α × List α) × α → List β) (acc : List β)
      (h : 0 < acc.length) : 0 < (l.foldl (fun acc x => add acc (term x)) acc).length := by
    induction l generalizing acc with
    | nil => exact h
    | cons x l ih =>
        have hadd : 0 < (add acc (term x)).length := by
          rw [length_add]
          omega
        exact ih _ hadd
  exact List.length_pos_iff.1 (hfold _ _ [0] Nat.one_pos)

namespace Poly

variable {p q u : Poly}

abbrev Filled (p : Poly) : Prop := p.body.Filled

/-- The polynomial can be made from its own coefficients. They lie along an axis, which is not empty, and
there is at least one of them. -/
structure Accepted (p : Poly) : Prop where
  ofTensor : ofTensor p.coeffs = .ok p
  hasAxes : p.coeffs.cells.hasAxes = true
  innermost : p.coeffs.shape.head? ≠ some 0
  size : p.coeffs.shape.size ≠ 0

theorem accepted_iff : p.Accepted ↔ p.Filled := by
  constructor
  · exact fun h => PolyBatch.filled_iff.2 h.size
  · intro h
    have haccepted : Poly.ofTensor p.coeffs =
        if p.body.isEmpty then .error .emptyCoefficients else .ok p := rfl
    rw [PolyBatch.isEmpty_eq_false_iff.2 h] at haccepted
    refine ⟨haccepted, rfl, ?_, PolyBatch.filled_iff.1 h⟩
    exact fun hw => Nat.ne_of_gt h.width (Option.some.inj hw)

theorem ofTensor_filled (t : Tensor) : Gives (ofTensor t) Filled := by
  unfold ofTensor
  split
  next => exact .error _
  next body _ =>
    exact .guarded fun h => .ok (PolyBatch.isEmpty_eq_false_iff.1 (eq_false_of_ne_true h))

theorem ofList?_filled (f : Format) (l : List f.Elem) : Gives (ofList? f l) Filled :=
  .guarded fun h => .ok (PolyBatch.filled_ofList fun hl => h (hl ▸ rfl))

theorem Filled.cast (hp : p.Filled) (f : Format) : (p.cast f).Filled := hp.map _

theorem combine_filled (hp : p.Filled) (hq : q.Filled)
    {op : {f : Format} → PolyBatch f.Elem → PolyBatch f.Elem → Option (PolyBatch f.Elem)}
    (hop : ∀ {f : Format} {a b r : PolyBatch f.Elem}, a.Filled → b.Filled → op a b = some r → r.Filled) :
    Gives (combine op p q) Filled :=
  .fitted fun _ => hop (hp.cast _) (hq.cast _)

theorem neg_filled (hp : p.Filled) : Gives p.neg Filled := .andThen fun _ => .ok hp.neg

theorem add_filled (hp : p.Filled) (hq : q.Filled) : Gives (p.add q) Filled :=
  combine_filled hp hq .add?

theorem sub_filled (hp : p.Filled) (hq : q.Filled) : Gives (p.sub q) Filled :=
  .andThen fun _ => combine_filled hp hq .sub?

theorem mul_filled (hp : p.Filled) (hq : q.Filled) : Gives (p.mul q) Filled :=
  .guarded fun _ => combine_filled hp hq .mul?

theorem pow_filled (hp : p.Filled) (n : Int) : Gives (p.pow n) Filled :=
  .guarded fun _ => .guarded fun _ => .guarded fun _ => .fitted fun _ => hp.pow?

theorem scaleCoeffs_filled_iff (hp : p.Filled) (c : Batch p.format.Elem) :
    Gives (p.scaleCoeffs c) fun q => q.Filled ↔ c.shape.size ≠ 0 :=
  .fitted fun _ => hp.scaleCoeffs?_iff

theorem scaleTensor_filled_iff (hp : p.Filled) (c : Tensor) :
    Gives (p.scaleTensor c) fun q => q.Filled ↔ c.shape.size ≠ 0 :=
  .ite (fun _ => .fitted fun _ => (hp.cast _).scale?_iff) fun _ => scaleCoeffs_filled_iff hp _

theorem composeLoop_filled (hp : p.Filled) (hu : u.Filled) (ks : List (Fin p.body.width)) {power sum : Poly}
    (hpower : power.Filled) (hsum : sum.Filled) : Gives (composeLoop p u ks power sum) Filled := by
  induction ks generalizing power sum with
  | nil => exact .ok hsum
  | cons k ks ih =>
      refine (scaleTensor_filled_iff hpower (p.column k)).bind fun term hterm => ?_
      refine (add_filled hsum (hterm.2 hp.batch)).bind fun sum hsum => ?_
      exact .ite (fun _ => .ok hsum) fun _ => (mul_filled hpower hu).bind fun power hpower => ih hpower hsum

theorem compose_filled (hp : p.Filled) (hu : u.Filled) : Gives (p.compose u) Filled :=
  (ofTensor_filled _).bind fun _ => composeLoop_filled hp hu _ hu

theorem trim_filled (hp : p.Filled) (tol : Float) : Gives (p.trim tol) Filled := by
  refine .andThen fun _ => .guarded fun _ => .ok ?_
  exact hp.take (PolyBatch.significantWidth_pos _ _)

theorem derivative_filled (hp : p.Filled) (order : Int) : Gives (p.derivative order) Filled := by
  refine .guarded fun _ => .ite (fun _ => .andThen fun _ => ?_) fun _ => ?_
  · exact .ok (hp.derivative order.toNat)
  · exact .ok (hp.derivative order.toNat)

theorem antiderivative_filled (hp : p.Filled) (c : Batch p.format.Elem) :
    Gives (p.antiderivative c) Filled :=
  .andThen fun _ => .fitted fun _ => (hp.cast _).antiderivative?

theorem fromRoots_filled (roots : Tensor) : Gives (fromRoots roots) Filled := by
  unfold fromRoots
  split
  next => exact .error _
  next body _ =>
    have hchecked : Gives (fitted body.fromRoots? >>= fun r =>
        if r.isEmpty then throw .emptyCoefficients else pure (Poly.mk roots.format r)) Filled :=
      .andThen fun _ => .guarded fun h => .ok (PolyBatch.isEmpty_eq_false_iff.1 (eq_false_of_ne_true h))
    exact .ite (fun _ => .andThen fun _ => hchecked) fun _ => hchecked

theorem interpolate_filled (x y : Tensor) : Gives (interpolate x y) Filled := by
  refine .guarded fun _ => .guarded fun _ => .guarded fun _ => .guarded fun _ => ?_
  dsimp only
  split
  · exact .ok (PolyBatch.filled_ofList nofun)
  · exact .error _
  · exact .ok (PolyBatch.filled_ofList nofun)
  · exact .ok (PolyBatch.filled_ofList (Coeffs.interpolate_ne_nil _ _ _))

theorem divModWhole_filled (f : Format) (m n : Nat) (a b : List f.Elem) :
    Gives (divModWhole f m n a b) fun (s, r) => s.Filled ∧ r.Filled := by
  have hzero : (ofList f [0]).Filled := PolyBatch.filled_ofList nofun
  refine .ite (fun _ => ?_) fun _ => .ite (fun _ => ?_) fun _ => ?_
  · split
    · exact .error _
    · exact .guarded fun _ => (ofList?_filled _ _).map fun _ hs => ⟨hs, hzero⟩
  · exact (ofList?_filled _ _).map fun _ hr => ⟨hzero, hr⟩
  · split
    · exact .error _
    · refine .andThen fun _ => ?_
      exact (ofList?_filled _ _).bind fun _ hs => (ofList?_filled _ _).map fun _ ht => ⟨hs, ht⟩

theorem divModReal_filled (r : Precision) (m n : Nat) (a b : List r.Elem) :
    Gives (divModReal r m n a b) fun (s, t) => s.Filled ∧ t.Filled := by
  refine .guarded fun _ => ?_
  split
  · exact .error _
  · exact (ofList?_filled _ _).bind fun _ hs => (ofList?_filled _ _).map fun _ ht => ⟨hs, ht⟩

theorem divMod_filled (p q : Poly) : Gives (p.divMod q) fun (s, r) => s.Filled ∧ r.Filled := by
  refine .andThen fun _ => .andThen fun _ => ?_
  cases p.format.join q.format with
  | flag => exact divModWhole_filled _ _ _ _ _
  | int64 => exact divModWhole_filled _ _ _ _ _
  | real r => exact divModReal_filled r _ _ _ _

end Poly

end PolyRoots
