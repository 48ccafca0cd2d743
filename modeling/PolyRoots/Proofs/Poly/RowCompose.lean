import PolyRoots.Proofs.Poly.Batching
import PolyRoots.Proofs.Poly.Filled

universe u v

namespace PolyRoots

open Shape (join_fits)

namespace PolyBatch

variable {α : Type u} {β : Type v}

theorem map_tabulate (g : α → β) {s : Shape} {n : Nat} {f : Index s → List α} (h : ∀ i, (f i).length = n) :
    (tabulate s n f h).map g = tabulate s n (fun i => (f i).map g) fun i => (List.length_map g).trans (h i) :=
  eq_tabulate rfl fun i => (row_map g (tabulate s n f h) i).trans (congrArg (List.map g) (row_tabulate f h i))

theorem row_take (n : Nat) (p : PolyBatch α) (i : Index p.shape) : (p.take n).row i = (p.row i).take n :=
  congrArg Row.toList (Batch.get_map (Row.take n) p.rows i)

theorem take_width (p : PolyBatch α) : p.take p.width = p :=
  ext_rows (Nat.min_self p.width) fun i =>
    (row_take p.width p i).trans (List.take_of_length_le (p.length_row i).le)

theorem scale?_of_join [Mul α] (p : PolyBatch α) (c : Batch α) {s : Shape} (h : p.shape.join c.shape = some s) :
    p.scale? c = some (tabulate s p.width (fun i => Coeffs.scale (c.get (i.project (join_fits h).2))
      (p.row (i.project (join_fits h).1))) fun i => by rw [Coeffs.length_scale, length_row]) :=
  zipWith?_constants _ h

theorem add?_tabulate [Zero α] [Add α] {p : PolyBatch α} {s : Shape} (h : p.shape.Fits s) {n : Nat}
    {f : Index s → List α} (hf : ∀ i, (f i).length = n) :
    p.add? (tabulate s n f hf) = some (tabulate s (max p.width n)
      (fun i => Coeffs.add (p.row (i.project h)) (f i)) fun i => by rw [Coeffs.length_add, length_row, hf]) := by
  rw [add?, padZip?_eq_lift₂?,
    lift₂?_of_join (Coeffs.length_padZip (· + ·)) p (tabulate s n f hf) (Shape.join_of_fits h)]
  refine congrArg some (tabulate_congr _ _ rfl fun i => ?_)
  exact congrArg (Coeffs.add (p.row (i.project h))) (row_tabulate_project f hf _ i)

theorem mul?_of_shape_eq [Zero α] [Add α] [Mul α] {q : PolyBatch α} {n : Nat} {f : Index q.shape → List α}
    (hf : ∀ i, (f i).length = n) :
    mul? (tabulate q.shape n f hf) q = some (tabulate q.shape (n + q.width - 1)
      (fun i => Coeffs.mul (f i) (q.row i)) fun i => by rw [Coeffs.length_mul, hf, length_row]) := by
  rw [mul?_eq_lift₂?, lift₂?_of_join Coeffs.length_mul (tabulate q.shape n f hf) q (Shape.join_self q.shape)]
  refine congrArg some (tabulate_congr _ _ rfl fun i => ?_)
  exact congrArg₂ Coeffs.mul (row_tabulate_project f hf _ i) (congrArg q.row (Index.project_self _ i))

end PolyBatch

namespace Poly

open PolyBatch (tabulate)

/-- The product of a coefficient and a power. For one outer polynomial it is taken in the format of the
power, for a batch of them in the common format. -/
def composeTerm (batched : Bool) (f g h : Format) (c : f.Elem) (power : List g.Elem) : List h.Elem :=
  if batched then Coeffs.scale (f.convert h c) (power.map (g.convert h))
  else (Coeffs.scale (f.convert g c) power).map (g.convert h)

theorem length_composeTerm (batched : Bool) (f g h : Format) (c : f.Elem) (power : List g.Elem) :
    (composeTerm batched f g h c power).length = power.length := by
  unfold composeTerm
  split <;> simp

theorem map_convert_self {f : Format} (l : List f.Elem) : l.map (f.convert f) = l := by
  rw [show f.convert f = id from funext f.convert_self, List.map_id]

theorem composeWith_row {α : Type u} {β : Type v} {γ : Type v} [Zero β] [Add β] [Mul β] [Zero γ] [Add γ]
    (start : α → γ) (term : α → List β → List γ) {n : Nat} (r : Row n α) (t : List β) :
    Coeffs.composeWith start term r.toList t =
      Coeffs.composeLoop term t ((List.finRange n).tail.map r.get) t ((r.toList.take 1).map start) := by
  rw [List.map_tail, ← r.toList_eq_map]
  cases r.toList <;> rfl

section Steps

theorem combine_of_join (op : {f : Format} → PolyBatch f.Elem → PolyBatch f.Elem → Option (PolyBatch f.Elem))
    {p q : Poly} {h : Format} (hformat : p.format.join q.format = h) {r : PolyBatch h.Elem}
    (hr : op (p.cast h) (q.cast h) = some r) : combine op p q = .ok ⟨h, r⟩ := by
  subst hformat
  exact congrArg (fun b => fitted b >>= fun b => pure (Poly.mk _ b)) hr

theorem scale_of_join {p : Poly} {c : Tensor} {h : Format} (hformat : p.format.join c.format = h)
    {r : PolyBatch h.Elem} (hr : (p.cast h).scale? (c.cast h) = some r) : p.scale c = .ok ⟨h, r⟩ := by
  subst hformat
  exact congrArg (fun b => fitted b >>= fun b => pure (Poly.mk _ b)) hr

variable {p q : Poly} {s : Shape}

theorem scaleTensor_column (h : p.shape.join q.shape = some s) (k : Fin p.body.width) :
    ∃ t : Poly, q.scaleTensor (p.column k) = .ok t ∧
      (t.format = q.format ∨ t.format = p.format.join q.format) ∧
      t.cast (p.format.join q.format) = tabulate s q.body.width (fun i =>
        composeTerm p.body.rows.hasAxes p.format q.format (p.format.join q.format)
          ((p.body.rows.get (i.project (join_fits h).1)).get k) (q.body.row (i.project (join_fits h).2)))
        fun i => by rw [length_composeTerm, PolyBatch.length_row] := by
  obtain ⟨f, w, t, rows⟩ := p
  cases t with
  | nil =>
      obtain rfl : q.shape = s := Option.some.inj h
      let c : q.format.Elem := f.convert q.format (Row.get rows k)
      have hscale := (q.body.scaleCoeffs?_single c).trans
        (q.body.scale?_of_join (.single c) (Shape.join_nil q.shape))
      refine ⟨⟨q.format, _⟩, congrArg (fun b => fitted b >>= fun b => pure (Poly.mk _ b)) hscale, .inl rfl, ?_⟩
      exact PolyBatch.map_tabulate _ _
  | cons n t =>
      let p : Poly := ⟨f, w, n :: t, rows⟩
      let g := f.join q.format
      have hjoin : (q.cast g).shape.join ((p.column k).cast g).shape = some s := (Shape.join_comm _ _).trans h
      have hscale := (q.cast g).scale?_of_join ((p.column k).cast g) hjoin
      refine ⟨⟨g, _⟩, scale_of_join (Format.join_comm q.format f) hscale, .inr rfl, (cast_self _).trans ?_⟩
      refine PolyBatch.tabulate_congr _ _ rfl fun i => ?_
      refine congrArg₂ Coeffs.scale ?_ (q.body.row_map _ _)
      refine (Batch.get_map _ (p.column k).cells _).trans (congrArg _ ?_)
      exact Batch.get_map _ p.body.rows _

theorem scaleTensor_column_refused (h : p.shape.join q.shape = none) (k : Fin p.body.width) :
    q.scaleTensor (p.column k) = .error .shapes := by
  obtain ⟨f, w, t, rows⟩ := p
  cases t with
  | nil => cases h
  | cons n t =>
      let p : Poly := ⟨f, w, n :: t, rows⟩
      let g := q.format.join f
      have hjoin : (q.cast g).shape.join ((p.column k).cast g).shape = none := (Shape.join_comm _ _).trans h
      have hscale : (q.cast g).scale? ((p.column k).cast g) = none :=
        (PolyBatch.scale?_eq _ _).trans (congrArg (Option.map _) (Batch.zipWith?_of_join_eq_none _ hjoin))
      exact congrArg (fun b => fitted b >>= fun b => pure (Poly.mk g b)) hscale

theorem add_scaleTensor_column {sum : Poly} (h : p.shape.join q.shape = some s)
    (hformat : sum.format = p.format ∨ sum.format = p.format.join q.format) (hfits : sum.shape.Fits s)
    (k : Fin p.body.width) :
    (q.scaleTensor (p.column k) >>= fun t => sum.add t) = .ok ⟨p.format.join q.format,
      tabulate s (max sum.body.width q.body.width) (fun i => Coeffs.add
        ((sum.body.row (i.project hfits)).map (sum.format.convert _))
        (composeTerm p.body.rows.hasAxes p.format q.format (p.format.join q.format)
          ((p.body.rows.get (i.project (join_fits h).1)).get k) (q.body.row (i.project (join_fits h).2))))
        fun i => by
          rw [Coeffs.length_add, List.length_map, length_composeTerm, PolyBatch.length_row,
            PolyBatch.length_row]⟩ := by
  obtain ⟨t, ht, htformat, htcast⟩ := scaleTensor_column h k
  have hjoin : sum.format.join t.format = p.format.join q.format := by
    rcases hformat with hs | hs <;> rcases htformat with ht | ht <;> rw [hs, ht]
    · exact Format.join_join_left _ _
    · rw [Format.join_comm, Format.join_join_right]
    · exact Format.join_self _
  rw [ht]
  refine combine_of_join PolyBatch.add? hjoin ?_
  rw [htcast]
  refine (PolyBatch.add?_tabulate (p := sum.cast (p.format.join q.format)) hfits _).trans ?_
  refine congrArg some (PolyBatch.tabulate_congr _ _ rfl fun i => ?_)
  exact congrArg (Coeffs.add · _) (sum.body.row_map _ _)

theorem mul_inner {u : Poly} {n : Nat} {f : Index u.shape → List u.format.Elem} (hf : ∀ i, (f i).length = n)
    (hn : n + u.body.width ≠ 0) :
    (Poly.mk u.format (tabulate u.shape n f hf)).mul u = .ok ⟨u.format, tabulate u.shape (n + u.body.width - 1)
      (fun i => Coeffs.mul (f i) (u.body.row i)) fun i => by
        rw [Coeffs.length_mul, hf, PolyBatch.length_row]⟩ := by
  have hpower : (Poly.mk u.format (tabulate u.shape n f hf)).cast u.format = tabulate u.shape n f hf :=
    cast_self ⟨u.format, tabulate u.shape n f hf⟩
  have hjoin : (Poly.mk u.format (tabulate u.shape n f hf)).format.join u.format = u.format :=
    Format.join_self u.format
  refine (if_neg hn).trans (combine_of_join PolyBatch.mul? hjoin ?_)
  rw [hpower, cast_self]
  exact PolyBatch.mul?_of_shape_eq hf

end Steps

section Loop

variable {p u : Poly} {s : Shape}

theorem composeLoop_cons (p u : Poly) (k : Fin p.body.width) (ks : List (Fin p.body.width)) (power sum : Poly) :
    composeLoop p u (k :: ks) power sum =
      (power.scaleTensor (p.column k) >>= fun t => sum.add t) >>= fun sum =>
        if ks.isEmpty then pure sum else power.mul u >>= fun power => composeLoop p u ks power sum := by
  rw [bind_assoc]
  rfl

theorem composeLoop_step (h : p.shape.join u.shape = some s) (c : Fin p.body.width) (ks : List (Fin p.body.width))
    {n : Nat} {f : Index u.shape → List u.format.Elem} (hf : ∀ i, (f i).length = n) {sum : Poly}
    (hformat : sum.format = p.format ∨ sum.format = p.format.join u.format) (hfits : sum.shape.Fits s) :
    composeLoop p u (c :: ks) ⟨u.format, tabulate u.shape n f hf⟩ sum =
      let sum : Poly := ⟨p.format.join u.format, tabulate s (max sum.body.width n) (fun i => Coeffs.add
        ((sum.body.row (i.project hfits)).map (sum.format.convert _))
        (composeTerm p.body.rows.hasAxes p.format u.format (p.format.join u.format)
          ((p.body.rows.get (i.project (join_fits h).1)).get c) (f (i.project (join_fits h).2))))
        fun i => by rw [Coeffs.length_add, List.length_map, length_composeTerm, PolyBatch.length_row, hf]⟩
      if ks.isEmpty then pure sum
      else (Poly.mk u.format (tabulate u.shape n f hf)).mul u >>= fun power => composeLoop p u ks power sum := by
  let power : Poly := ⟨u.format, tabulate u.shape n f hf⟩
  have hadd := add_scaleTensor_column (q := power) h hformat hfits c
  refine (composeLoop_cons p u c ks power sum).trans ((congrArg (Bind.bind · _) hadd).trans ?_)
  refine congrArg (fun b => if ks.isEmpty then pure (Poly.mk (p.format.join u.format) b)
    else power.mul u >>= fun power => composeLoop p u ks power ⟨p.format.join u.format, b⟩) ?_
  refine PolyBatch.tabulate_congr _ _ rfl fun i => ?_
  exact congrArg (fun l => Coeffs.add _ (composeTerm _ _ _ _ _ l)) (PolyBatch.row_tabulate f hf _)

/-- The loop adds the remaining terms for each place of the batch. There is no square of a polynomial
without coefficients. -/
theorem composeLoop_of_join (h : p.shape.join u.shape = some s) (k : Nat) {ks : List (Fin p.body.width)}
    (hks : ks ≠ []) (hwidth : u.body.width = 0 → ks.length = 1) {n : Nat}
    {f : Index u.shape → List u.format.Elem} (hf : ∀ i, (f i).length = n)
    (hn : n = if u.body.width = 0 then 0 else (k + 1) * (u.body.width - 1) + 1) (sum : Poly)
    (hformat : sum.format = p.format ∨ sum.format = p.format.join u.format) (hfits : sum.shape.Fits s)
    (hsum : sum.body.width = k * (u.body.width - 1) + 1) :
    composeLoop p u ks ⟨u.format, tabulate u.shape n f hf⟩ sum = .ok ⟨p.format.join u.format,
      tabulate s ((k + ks.length) * (u.body.width - 1) + 1) (fun i => Coeffs.composeLoop
        (composeTerm p.body.rows.hasAxes p.format u.format (p.format.join u.format))
        (u.body.row (i.project (join_fits h).2)) (ks.map (p.body.rows.get (i.project (join_fits h).1)).get)
        (f (i.project (join_fits h).2)) ((sum.body.row (i.project hfits)).map (sum.format.convert _)))
        fun i => by
          rw [Coeffs.length_composeLoop (length_composeTerm _ _ _ _) _ k, List.length_map, PolyBatch.length_row]
          · rw [hf, PolyBatch.length_row, hn]
          · rw [List.length_map, PolyBatch.length_row, PolyBatch.length_row, hsum]⟩ := by
  induction ks generalizing k n f sum with
  | nil => exact absurd rfl hks
  | cons c ks ih =>
      have hnext : max sum.body.width n = (k + 1) * (u.body.width - 1) + 1 := by
        rw [hsum, hn]
        split
        next hw => simp [hw]
        next => exact max_eq_right (Nat.succ_le_succ (Nat.mul_le_mul_right _ (Nat.le_succ k)))
      refine (composeLoop_step h c ks hf hformat hfits).trans ?_
      by_cases hlast : ks = []
      · subst hlast
        exact congrArg (fun b => Except.ok (Poly.mk _ b)) (PolyBatch.tabulate_congr _ _ hnext fun _ => rfl)
      · have hw : u.body.width ≠ 0 := fun hw =>
          hlast (List.length_eq_zero_iff.1 (Nat.succ.inj (hwidth hw)))
        rw [if_neg hw] at hn
        have hpower : n + u.body.width - 1 = (k + 1 + 1) * (u.body.width - 1) + 1 := by
          rw [hn, Nat.add_mul (k + 1) 1]
          omega
        have hmul := mul_inner hf (by omega)
        refine (if_neg (by simpa using hlast)).trans ((congrArg (Bind.bind · _) hmul).trans ?_)
        refine (ih (k + 1) hlast (fun h => absurd h hw) _ (hpower.trans (if_neg hw).symm) _
          (.inr rfl) (Shape.fits_refl s) hnext).trans ?_
        refine congrArg (fun b => Except.ok (Poly.mk _ b)) (PolyBatch.tabulate_congr _ _ ?_ fun i => ?_)
        · rw [List.length_cons, Nat.add_right_comm, Nat.add_assoc]
        · rw [PolyBatch.row_tabulate_project, map_convert_self]
          rfl

def composed (h : Format) (p u : Poly) : Except Fault Poly := do
  return ⟨h, ← fitted (PolyBatch.lift₂? (Coeffs.composeWith (p.format.convert h)
    (composeTerm p.body.rows.hasAxes p.format u.format h))
    (Coeffs.length_composeWith _ (length_composeTerm _ _ _ _)) p.body u.body)⟩

theorem composed_of_join {h : Format} (hjoin : p.shape.join u.shape = some s) :
    composed h p u = .ok ⟨h, tabulate s (Coeffs.composeLength p.body.width u.body.width) (fun i =>
      Coeffs.composeWith (p.format.convert h) (composeTerm p.body.rows.hasAxes p.format u.format h)
        (p.body.row (i.project (join_fits hjoin).1)) (u.body.row (i.project (join_fits hjoin).2))) fun i => by
          rw [Coeffs.length_composeWith _ (length_composeTerm _ _ _ _), PolyBatch.length_row,
            PolyBatch.length_row]⟩ :=
  congrArg (fun b => fitted b >>= fun b => pure (Poly.mk h b)) (PolyBatch.lift₂?_of_join _ p.body u.body hjoin)

theorem composed_of_join_eq_none {h : Format} (hjoin : p.shape.join u.shape = none) :
    composed h p u = .error .shapes :=
  congrArg (fun b => fitted (Option.map _ b) >>= fun b => pure (Poly.mk h b))
    (Batch.zipWith?_of_join_eq_none _ hjoin)

theorem first_eq (p : Poly) : ofTensor ⟨p.format, (p.body.take 1).coeffs⟩ =
    if p.body.isEmpty then .error .emptyCoefficients else .ok ⟨p.format, p.body.take 1⟩ := by
  have hempty : (p.body.take 1).isEmpty = p.body.isEmpty := by
    have hwidth : (min 1 p.body.width == 0) = (p.body.width == 0) := by
      cases p.body.width <;> simp
    exact congrArg (· || p.body.rows.shape.size == 0) hwidth
  rw [← hempty]
  rfl

theorem compose_of_join (h : p.shape.join u.shape = some s) (hwidth : 2 ≤ p.body.width)
    (hinner : u.body.width = 0 → p.body.width = 2) :
    composeLoop p u (List.finRange p.body.width).tail u ⟨p.format, p.body.take 1⟩ =
      composed (p.format.join u.format) p u := by
  have hlength : (List.finRange p.body.width).tail.length = p.body.width - 1 := by
    rw [List.length_tail, List.length_finRange]
  have hks : (List.finRange p.body.width).tail ≠ [] := List.ne_nil_of_length_pos (by omega)
  have hpower : u = ⟨u.format, tabulate u.shape u.body.width u.body.row u.body.length_row⟩ :=
    congrArg (Poly.mk u.format) (PolyBatch.eq_tabulate rfl fun _ => rfl)
  have hone : u.body.width = if u.body.width = 0 then 0 else (0 + 1) * (u.body.width - 1) + 1 := by
    split <;> omega
  have hfirst : (p.body.take 1).width = 0 * (u.body.width - 1) + 1 := by
    simp only [PolyBatch.take]
    omega
  have hloop := composeLoop_of_join h 0 hks (fun h => by rw [hlength, hinner h]) u.body.length_row hone
    ⟨p.format, p.body.take 1⟩ (.inl rfl) (join_fits h).1 hfirst
  refine (congrArg (composeLoop p u _ · _) hpower).trans (hloop.trans ?_)
  rw [composed_of_join h]
  refine congrArg (fun b => Except.ok (Poly.mk _ b)) (PolyBatch.tabulate_congr _ _ ?_ fun i => ?_)
  · rw [hlength, Coeffs.composeLength, if_neg (by omega), Nat.zero_add]
  · refine (congrArg (fun l => Coeffs.composeLoop _ _ _ _ (List.map _ l)) (p.body.row_take 1 _)).trans ?_
    exact (composeWith_row _ _ _ _).symm

theorem composeLoop_refused {ks : List (Fin p.body.width)} (hks : ks ≠ []) (sum : Poly)
    (h : p.shape.join u.shape = none) : composeLoop p u ks u sum = .error .shapes := by
  obtain ⟨k, ks, rfl⟩ := List.exists_cons_of_ne_nil hks
  rw [composeLoop_cons, scaleTensor_column_refused h]
  rfl

theorem composeLoop_no_square {ks : List (Fin p.body.width)} (hks : 1 < ks.length) {sum : Poly}
    (hformat : sum.format = p.format) (hshape : sum.shape = p.shape) (hu : u.body.width = 0) :
    composeLoop p u ks u sum = .error .shapes := by
  cases h : p.shape.join u.shape with
  | none => exact composeLoop_refused (List.ne_nil_of_length_pos (Nat.zero_lt_of_lt hks)) sum h
  | some s =>
      have hmul : u.mul u = .error .shapes := if_pos (by rw [hu])
      match ks, hks with
      | k :: l :: ks, _ =>
          rw [composeLoop_cons, add_scaleTensor_column h (.inl hformat) (hshape ▸ (join_fits h).1)]
          change (u.mul u >>= fun power => composeLoop p u (l :: ks) power _) = _
          rw [hmul]
          rfl

/-- A constant is returned as it is, whatever the inner polynomial. Beyond that the result is refused,
or is the composition of the coefficient lists in the common format. -/
theorem compose_eq (p u : Poly) : compose p u =
    if p.body.isEmpty then .error .emptyCoefficients
    else if p.body.width = 1 then .ok p
    else if u.body.width = 0 ∧ 2 < p.body.width then .error .shapes
    else composed (p.format.join u.format) p u := by
  have hlength : (List.finRange p.body.width).tail.length = p.body.width - 1 := by
    rw [List.length_tail, List.length_finRange]
  rw [compose, first_eq]
  by_cases hempty : p.body.isEmpty
  · rw [if_pos hempty, if_pos hempty]
    rfl
  · have hpos := (PolyBatch.isEmpty_eq_false_iff.1 (eq_false_of_ne_true hempty)).width
    rw [if_neg hempty, if_neg hempty]
    change composeLoop p u (List.finRange p.body.width).tail u ⟨p.format, p.body.take 1⟩ = _
    by_cases hone : p.body.width = 1
    · have htail : (List.finRange p.body.width).tail = [] := List.eq_nil_of_length_eq_zero (by omega)
      have htake := p.body.take_width
      rw [hone] at htake
      rw [if_pos hone, htail]
      exact congrArg (fun b => Except.ok (Poly.mk p.format b)) htake
    · rw [if_neg hone]
      by_cases hsquare : u.body.width = 0 ∧ 2 < p.body.width
      · rw [if_pos hsquare]
        exact composeLoop_no_square (by omega) rfl rfl hsquare.1
      · rw [if_neg hsquare]
        cases h : p.shape.join u.shape with
        | none =>
            rw [composed_of_join_eq_none h]
            exact composeLoop_refused (List.ne_nil_of_length_pos (by omega)) _ h
        | some s => exact compose_of_join h (by omega) (by omega)

theorem compose_ofList {f g : Format} {p : List f.Elem} (hp : 2 ≤ p.length) {u : List g.Elem} (hu : u ≠ []) :
    (ofList f p).compose (ofList g u) = .ok (ofList (f.join g)
      (Coeffs.composeWith (f.convert (f.join g)) (composeTerm false f g (f.join g)) p u)) := by
  have hfilled : (ofList f p).body.isEmpty = false :=
    PolyBatch.isEmpty_eq_false_iff.2 (PolyBatch.filled_ofList (List.ne_nil_of_length_pos (by omega)))
  have hone : (ofList f p).body.width ≠ 1 := (Nat.lt_of_succ_le hp).ne'
  have hsquare : ¬ ((ofList g u).body.width = 0 ∧ 2 < (ofList f p).body.width) :=
    fun h => hu (List.length_eq_zero_iff.1 h.1)
  have hlists := PolyBatch.lift₂?_ofList (Coeffs.length_composeWith (f.convert (f.join g))
    (length_composeTerm false f g (f.join g))) p u
  rw [compose_eq, hfilled, if_neg Bool.false_ne_true, if_neg hone, if_neg hsquare]
  exact congrArg (fun b => fitted b >>= fun b => pure (Poly.mk (f.join g) b)) hlists

end Loop

end Poly

end PolyRoots
