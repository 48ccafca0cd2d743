import PolyRoots.Proofs.Poly.Rows

universe u

namespace PolyRoots

open Shape (join_fits)

namespace PolyBatch

variable {α : Type u}

section Product

variable [Zero α] [Add α] [Mul α]

omit [Zero α] [Mul α] in
theorem addSlice?_tabulate {s : Shape} {m n i : Nat} (hi : i + n ≤ m) (f : Index s → List α)
    (hf : ∀ j, (f j).length = n) (x : Grid s (Row m α)) :
    addSlice? i n (tabulate s n f hf) x = some (.ofFn s fun j => (x.get j).addAt i (f j)) := by
  have hlen : n = min n (m - i) := by omega
  have hfits : (tabulate s n f hf).coeffs.shape.Fits (min n (m - i) :: s) := ⟨.inl hlen, Shape.fits_refl s⟩
  have hexpand : (tabulate s n f hf).coeffs.expand? (min n (m - i) :: s) =
      some (.expand hfits (tabulate s n f hf).coeffs.cells) := dif_pos hfits
  rw [addSlice?, hexpand]
  refine congrArg some (Grid.ext fun j => Subtype.ext ?_)
  rw [Grid.get_ofFn, Grid.get_zipWith, Grid.get_zipWith, Grid.get_map]
  have hrow : ((Grid.expand hfits (tabulate s n f hf).coeffs.cells).rows.get j).toList = f j :=
    (Grid.row_expand hfits hlen j).trans (row_tabulate f hf j)
  calc
    (x.get j).toList.take i ++ List.zipWith (· + ·) (((x.get j).toList.drop i).take n)
        ((Grid.expand hfits (tabulate s n f hf).coeffs.cells).rows.get j).toList ++ (x.get j).toList.drop (i + n)
      = Coeffs.addAt i (f j) (x.get j).toList := by rw [hrow, Coeffs.addAt_eq, hf]

omit [Zero α] in
theorem addProducts?_of_join {p q : PolyBatch α} {s : Shape} (h : p.shape.join q.shape = some s)
    (x : Grid s (Row (p.width + q.width - 1) α)) (k : Fin p.width) :
    addProducts? p q x k = some (.ofFn s fun i => (x.get i).addAt k
      ((q.row (i.project (join_fits h).2)).map ((p.rows.get (i.project (join_fits h).1)).get k * ·))) := by
  rw [addProducts?, constants_zipWith? (c := p.column k) _ h]
  refine (addSlice?_tabulate (by omega) _ _ x).trans ?_
  refine congrArg (fun f => some (Grid.ofFn s f)) (funext fun i => ?_)
  exact congrArg (fun a => (x.get i).addAt k ((q.row _).map (a * ·))) (Batch.get_map _ p.rows _)

theorem mul?_eq_lift₂? (p q : PolyBatch α) :
    mul? p q = lift₂? (g := fun m n => m + n - 1) Coeffs.mul Coeffs.length_mul p q := by
  cases h : p.shape.join q.shape with
  | none =>
      rw [mul?, h, lift₂?, Batch.zipWith?_of_join_eq_none _ h]
      rfl
  | some s =>
      have hloop := Grid.foldlM_pointwise (List.finRange p.width) (fun k _ x => addProducts?_of_join h x k)
        (.fill s (.replicate (p.width + q.width - 1) 0))
      rw [mul?, h, lift₂?_of_join _ p q h]
      refine (congrArg (Option.map _) hloop).trans (congrArg some (eq_tabulate rfl fun i => ?_))
      have hmul := Coeffs.mul_eq_foldl (p.rows.get (i.project (join_fits h).1))
        (q.row (i.project (join_fits h).2))
      rw [Row.length_toList, length_row] at hmul
      rw [Grid.get_ofFn, Grid.get_fill]
      exact (List.foldl_hom Row.toList fun _ _ => rfl).symm.trans hmul.symm

end Product

section Power

variable [Zero α] [Add α] [Mul α] {p b c : PolyBatch α} {f g : List α → List α}

/-- The polynomials of `b` come from those of `p` by a function on coefficient lists. -/
def Lifted (p b : PolyBatch α) (f : List α → List α) : Prop :=
  ∃ (a : Nat → Nat) (hf : ∀ l, (f l).length = a l.length), b = p.lift f hf

omit [Zero α] [Add α] [Mul α] in
theorem lifted_id (p : PolyBatch α) : Lifted p p id := by
  refine ⟨id, fun _ => rfl, ?_⟩
  rw [lift_eq_tabulate]
  exact eq_tabulate rfl fun i => rfl

theorem Lifted.mul? (hb : Lifted p b f) (hc : Lifted p c g) :
    ∃ r, mul? b c = some r ∧ Lifted p r fun l => Coeffs.mul (f l) (g l) := by
  obtain ⟨m, hf, rfl⟩ := hb
  obtain ⟨n, hg, rfl⟩ := hc
  have hlen (l : List α) : (Coeffs.mul (f l) (g l)).length = m l.length + n l.length - 1 := by
    rw [Coeffs.length_mul, hf, hg]
  refine ⟨p.lift (g := fun w => m w + n w - 1) _ hlen, ?_, _, hlen, rfl⟩
  rw [mul?_eq_lift₂?, lift_eq_tabulate, lift_eq_tabulate, lift_eq_tabulate, lift₂?_tabulate]

theorem Lifted.times? {acc : Option (PolyBatch α)} {acc' : Option (List α → List α)}
    (hacc : Option.Rel (Lifted p) acc acc') (hb : Lifted p b f) :
    ∃ r, powLoop?.times? b acc = some r ∧ Lifted p r fun l => Coeffs.mul? (acc'.map (· l)) (f l) := by
  cases hacc with
  | none => exact ⟨b, rfl, hb⟩
  | some h => exact h.mul? hb

theorem Lifted.powLoop? {acc : Option (PolyBatch α)} {acc' : Option (List α → List α)}
    (hacc : Option.Rel (Lifted p) acc acc') (hb : Lifted p b f) (n : Nat) :
    ∃ r, powLoop? acc b n = some r ∧ Lifted p r fun l => Coeffs.powLoop (acc'.map (· l)) (f l) n := by
  induction n using Nat.strongRecOn generalizing acc acc' b f with
  | ind n ih =>
      obtain ⟨r, hr, hr'⟩ := hb.times? hacc
      obtain ⟨square, hsquare, hsquare'⟩ := hb.mul? hb
      rw [PolyBatch.powLoop?]
      by_cases hn : n < 2
      · refine ⟨r, (if_pos hn).trans hr, ?_⟩
        simpa [Coeffs.powLoop, hn] using hr'
      · rw [if_neg hn]
        by_cases hodd : n % 2 = 1
        · obtain ⟨t, ht, ht'⟩ := ih (n / 2) (by omega) (.some hr') hsquare'
          refine ⟨t, ?_, ?_⟩
          · simpa [hodd, hr, hsquare] using ht
          · have hloop (l : List α) := Coeffs.powLoop.eq_def (acc'.map (· l)) (f l) n
            simpa [hloop, hn, hodd] using ht'
        · obtain ⟨t, ht, ht'⟩ := ih (n / 2) (by omega) hacc hsquare'
          refine ⟨t, ?_, ?_⟩
          · simpa [hodd, hsquare] using ht
          · have hloop (l : List α) := Coeffs.powLoop.eq_def (acc'.map (· l)) (f l) n
            simpa [hloop, hn, hodd] using ht'

theorem pow?_eq_lift [One α] (p : PolyBatch α) (n : Nat) :
    p.pow? n = some (p.lift (g := (Coeffs.powLength · n)) (Coeffs.pow · n) (Coeffs.length_pow · n)) := by
  by_cases hn : n = 0
  · subst hn
    rw [pow?, if_pos rfl, lift_eq_tabulate, constants_fill]
    rfl
  · obtain ⟨r, hr, a, hf, rfl⟩ := (lifted_id p).powLoop? .none n
    rw [pow?, if_neg hn, hr]
    exact congrArg some (lift_congr _ _ (fun l => (if_neg hn).symm) p)

end Power

section Roots

variable [Zero α] [Add α] [Mul α] [Neg α]

omit [Add α] [Mul α] [Neg α] in
theorem pad_tabulate (before after : Nat) {s : Shape} {n : Nat} {f : Index s → List α}
    (hf : ∀ i, (f i).length = n) :
    (tabulate s n f hf).pad before after = tabulate s (before + n + after)
      (fun i => List.replicate before 0 ++ f i ++ List.replicate after 0) fun i => by
        rw [List.length_append, List.length_append, List.length_replicate, List.length_replicate, hf] := by
  refine eq_tabulate rfl fun i => ?_
  refine (row_pad before after (tabulate s n f hf) i).trans ?_
  rw [row_tabulate f hf i]

theorem timesRoot?_tabulate {s : Shape} {n : Nat} {f : Index s → List α} (hf : ∀ i, (f i).length = n)
    (r : Grid s α) :
    timesRoot? (tabulate s n f hf) ⟨s, r⟩ =
      some (tabulate s (n + 1) (fun i => Coeffs.timesRoot (f i) (r.get i)) fun i => by
        rw [Coeffs.length_timesRoot, hf]) := by
  have hroot : (Batch.mk s r).map (- ·) = ⟨s, r.map (- ·)⟩ := rfl
  rw [timesRoot?, pad_tabulate, pad_tabulate, hroot, zipWith?_tabulate_constants]
  refine (zipWith?_tabulate _ _ _ (by omega)).trans (congrArg some (tabulate_congr _ _ (by omega) fun i => ?_))
  have hshift : List.replicate 1 0 ++ f i ++ List.replicate 0 0 = 0 :: f i := List.append_nil _
  rw [Grid.get_map, hshift]
  rfl

theorem foldlM_timesRoot? (r : PolyBatch α) (ks : List (Fin r.width)) {n : Nat} {f : Index r.shape → List α}
    (hf : ∀ i, (f i).length = n) :
    ks.foldlM (fun p k => timesRoot? p (r.column k)) (tabulate r.shape n f hf) =
      some (tabulate r.shape (n + ks.length)
        (fun i => ks.foldl (fun p k => Coeffs.timesRoot p ((r.rows.get i).get k)) (f i)) fun i => by
          rw [Coeffs.length_foldl_timesRoot, hf]) := by
  induction ks generalizing n f with
  | nil => rfl
  | cons k ks ih =>
      have hstep : timesRoot? (tabulate r.shape n f hf) (r.column k) = _ :=
        timesRoot?_tabulate hf (r.column k).cells
      rw [List.foldlM_cons, hstep]
      refine (ih _).trans (congrArg some (tabulate_congr _ _ ?_ fun i => ?_))
      · rw [List.length_cons]
        omega
      · rw [List.foldl_cons]
        exact congrArg (fun x => ks.foldl _ (Coeffs.timesRoot (f i) x)) (Batch.get_map _ r.rows i)

theorem fromRoots?_eq_lift [One α] (r : PolyBatch α) :
    r.fromRoots? = some (r.lift (g := (· + 1)) Coeffs.fromRoots Coeffs.length_fromRoots) := by
  rw [fromRoots?, constants_fill, foldlM_timesRoot?, lift_eq_tabulate]
  refine congrArg some (tabulate_congr _ _ ?_ fun i => ?_)
  · rw [List.length_finRange]
    omega
  · exact (Coeffs.fromRoots_eq_foldl (r.rows.get i)).symm

end Roots

end PolyBatch

end PolyRoots
