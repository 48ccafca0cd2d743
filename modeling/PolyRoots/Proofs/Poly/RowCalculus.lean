import PolyRoots.Proofs.Poly.Rows

universe u

namespace PolyRoots

namespace PolyBatch

variable {α β : Type u}

section Derivative

variable [One α] [Sub α] [Mul α] [NatCast α]

theorem get_fallingFactors {n : Nat} (k : Nat) (c : Fin n) :
    (fallingFactors n k : Row n α).get c = Coeffs.fallingFactor (c + k) k := by
  let indices : Row n α := .ofFn fun i => ((i + k : Nat) : α)
  have hloop (l : List Nat) (f : Row n α) :
      (l.foldl (fun f (j : Nat) => f.zipWith (· * ·) (indices.map (· - (j : α)))) f).get c =
        l.foldl (fun f (j : Nat) => f * (((c + k : Nat) : α) - (j : α))) (f.get c) := by
    induction l generalizing f with
    | nil => rfl
    | cons j l ih => rw [List.foldl_cons, ih, List.foldl_cons, Row.get_zipWith, Row.get_map, Row.get_ofFn]
  refine (hloop (List.range k) (.replicate n 1)).trans ?_
  rw [Row.get_replicate]
  rfl

theorem derivative_of_lt [Zero α] {k : Nat} {p : PolyBatch α} (hk : k ≠ 0) (h : k < p.width) :
    p.derivative k = ⟨p.width - k, p.rows.map fun r =>
      (r.drop k).zipWith (· * ·) (fallingFactors (p.width - k) k)⟩ := by
  have hcells := Grid.zipWith_expand_ofRow (· * ·) (p.rows.map (Row.drop k)).cells
    (fallingFactors (p.width - k) k : Row _ α) ⟨.inl rfl, trivial⟩
  rw [derivative, if_neg hk, if_neg (Nat.not_le.2 h)]
  refine congrArg (fun x => PolyBatch.mk (p.width - k) ⟨p.shape, x⟩) (hcells.trans ?_)
  refine Grid.ext (s := p.shape) fun i => ?_
  rw [Grid.get_map]
  exact (Grid.get_map _ _ i).trans (congrArg (Row.zipWith _ · _) (Grid.get_map _ _ i))

theorem derivative_eq_lift [Zero α] (k : Nat) (p : PolyBatch α) :
    p.derivative k = p.lift (Coeffs.derivative k) (Coeffs.length_derivative k) := by
  rw [lift_eq_tabulate]
  by_cases hk : k = 0
  · rw [derivative, if_pos hk]
    exact eq_tabulate (by rw [Coeffs.derivativeLength, if_pos hk]) fun i => (if_pos hk).symm
  · have hlength : Coeffs.derivativeLength k p.width = if p.width ≤ k then 1 else p.width - k := if_neg hk
    have hrow (i : Index p.shape) : Coeffs.derivative k (p.row i) = if p.width ≤ k then [0] else
        ((p.row i).drop k).mapIdx fun j c => c * Coeffs.fallingFactor (j + k) k :=
      (if_neg hk).trans (by rw [length_row])
    by_cases hw : p.width ≤ k
    · rw [derivative, if_neg hk, if_pos hw, constants_fill]
      exact tabulate_congr _ _ (by rw [hlength, if_pos hw]) fun i => by rw [hrow, if_pos hw]
    · rw [derivative_of_lt hk (Nat.not_le.1 hw)]
      refine eq_tabulate (hlength.trans (if_neg hw)).symm fun i => ?_
      have hdrop : (p.row i).drop k = ((p.rows.get i).drop k).toList := rfl
      rw [hrow, if_neg hw, hdrop, Row.mapIdx_toList]
      refine (congrArg Row.toList (Batch.get_map _ p.rows i)).trans (congrArg Row.toList (Row.ext fun c => ?_))
      rw [Row.get_ofFn, Row.get_zipWith, get_fallingFactors]

end Derivative

theorem scale?_eq [Mul α] (p : PolyBatch α) (c : Batch α) :
    p.scale? c = (Batch.zipWith? (fun r x => r.map (· * x)) p.rows c).map (⟨p.width, ·⟩) := by
  cases h : p.shape.join c.shape with
  | none =>
      rw [Batch.zipWith?_of_join_eq_none _ h]
      exact zipWith?_of_join_eq_none (q := constants c) _ h
  | some s =>
      rw [scale?, zipWith?_constants _ h, Batch.zipWith?_of_join _ _ _ h]
      refine congrArg some (eq_tabulate rfl fun i => ?_).symm
      rw [Grid.get_ofFn]
      rfl

theorem agree?_eq [Zero α] [Sub α] (test : α → Bool) (p q : PolyBatch α) :
    agree? test p q = Batch.zipWith? (fun r t => (Coeffs.sub r.toList t.toList).all test) p.rows q.rows := by
  rw [agree?, sub?, padZip?_eq_lift₂?, lift₂?]
  refine Eq.trans ?_ (Batch.map_zipWith? (·.toList.all test)
    (Row.lift₂ (Coeffs.padZip (· - ·)) (Coeffs.length_padZip _)) p.rows q.rows)
  cases Batch.zipWith? (Row.lift₂ (Coeffs.padZip (· - ·)) (Coeffs.length_padZip _)) p.rows q.rows <;> rfl

section Antiderivative

variable [Div α] [NatCast α]

theorem antiderivative?_eq (p : PolyBatch α) (c : Batch α) :
    p.antiderivative? c = (c.expand? p.shape).map fun c => tabulate p.shape (p.width + 1)
      (fun i => Coeffs.antiderivative (c.get i) (p.row i)) fun i => by
        rw [Coeffs.length_antiderivative, length_row] := by
  let indices : Row p.width α := .ofFn fun k => ((k + 1 : Nat) : α)
  have hquotients : Batch.zipWith? (· / ·) p.coeffs (.ofRow indices) = _ :=
    Batch.zipWith?_ofRows_ofRow (· / ·) indices p.rows
  rw [antiderivative?, hquotients]
  change (c.unsqueeze.expand? (1 :: p.shape)).bind _ = _
  rw [Batch.expand?_unsqueeze]
  cases c.expand? p.shape with
  | none => rfl
  | some c =>
      refine congrArg some (eq_tabulate (Nat.add_comm 1 p.width) fun i => ?_)
      have hquotient : ((p.rows.map (Row.zipWith (· / ·) · indices)).get i).toList =
          (p.row i).mapIdx fun k a => a / ((k + 1 : Nat) : α) := by
        refine (congrArg Row.toList (Batch.get_map _ p.rows i)).trans ((congrArg Row.toList ?_).trans
          (Row.mapIdx_toList _ (p.rows.get i)).symm)
        refine Row.ext fun k => ?_
        rw [Row.get_zipWith, Row.get_ofFn, Row.get_ofFn]
      refine (congrArg Row.toList (Grid.get_zipWith Row.append _ _ i)).trans ?_
      refine (congrArg (fun r => Row.toList (Row.append r _)) (Grid.get_map (Row.replicate 1) c i)).trans ?_
      exact congrArg (c.get i :: ·) hquotient

end Antiderivative

section Integral

variable [Mul α] [Zero β] [Add β]

theorem sum_terms {n : Nat} (g : α → Nat → β) (exponents : Row n Nat) (a b : Batch (Row n α)) :
    ((Batch.zipWith? (· * ·) a.ofRows b.ofRows).bind fun u =>
      ((Batch.zipWith? g u (.ofRow exponents)).bind ofCoeffs?).bind fun terms =>
        some (terms.rows.map (·.toList.foldl (· + ·) 0))) =
      Batch.zipWith? (fun r t => ((r.zipWith (· * ·) t).zipWith g exponents).toList.foldl (· + ·) 0) a b := by
  rw [Batch.zipWith?_ofRows]
  refine Eq.trans ?_ (Batch.map_zipWith? (fun r => (Row.zipWith g r exponents).toList.foldl (· + ·) 0)
    (Row.zipWith (· * ·)) a b)
  cases Batch.zipWith? (Row.zipWith (· * ·)) a b with
  | none => rfl
  | some u =>
      refine (congrArg (fun x => (Option.bind x ofCoeffs?).bind _)
        (Batch.zipWith?_ofRows_ofRow g exponents u)).trans ?_
      exact congrArg some (Batch.map_map _ _ u)

variable [Sub α] [Div β] [NatCast β] (raise : α → Nat → α) (conv : α → β)

theorem integral?_eq (p : PolyBatch α) (a b : Batch α) :
    p.integral? raise conv a b =
      Batch.zipWith₃? (fun r a b => Coeffs.integral raise conv r.toList a b) p.rows a b := by
  let exponents : Row p.width Nat := .ofFn fun k => k + 1
  let raised (x : α) : Row p.width α := exponents.map (raise x)
  let span (x y : α) : Row p.width α := (raised y).zipWith (· - ·) (raised x)
  let quotient (c : α) (n : Nat) : β := conv c / (n : β)
  have hraised (x : Batch α) : Batch.zipWith? raise x.unsqueeze (.ofRow exponents) = some (x.map raised).ofRows :=
    Batch.zipWith?_unsqueeze_ofRow raise exponents x
  have hspan : Batch.zipWith? (· - ·) (b.map raised).ofRows (a.map raised).ofRows =
      (Batch.zipWith? Prod.mk a b).map fun x => (x.map fun x => span x.1 x.2).ofRows := by
    rw [Batch.zipWith?_ofRows, Batch.zipWith?_map_right, Batch.zipWith?_swap, Batch.zipWith?_map_right]
    refine (congrArg (Option.map Batch.ofRows)
      (Batch.map_zipWith? (fun x => span x.1 x.2) Prod.mk a b).symm).trans ?_
    cases Batch.zipWith? Prod.mk a b <;> rfl
  have hsum (r : Row p.width α) (x y : α) :
      ((r.zipWith (· * ·) (span x y)).zipWith quotient exponents).toList.foldl (· + ·) 0 =
        Coeffs.integral raise conv r.toList x y := by
    rw [Coeffs.integral, Row.mapIdx_toList]
    refine congrArg (fun r : Row p.width β => r.toList.foldl (· + ·) 0) (Row.ext fun k => ?_)
    simp only [span, raised, quotient, exponents, Row.get_zipWith, Row.get_map, Row.get_ofFn]
  have hprogram : p.integral? raise conv a b =
      (Batch.zipWith? (· - ·) (b.map raised).ofRows (a.map raised).ofRows).bind fun t =>
        (Batch.zipWith? (· * ·) p.rows.ofRows t).bind fun u =>
          ((Batch.zipWith? quotient u (.ofRow exponents)).bind ofCoeffs?).bind fun terms =>
            some (terms.rows.map (·.toList.foldl (· + ·) 0)) := by
    rw [integral?]
    change ((Batch.zipWith? raise b.unsqueeze (.ofRow exponents)).bind fun y =>
      (Batch.zipWith? raise a.unsqueeze (.ofRow exponents)).bind fun x => _) = _
    rw [hraised, hraised]
    rfl
  rw [hprogram, hspan, Batch.zipWith₃?]
  cases Batch.zipWith? Prod.mk a b with
  | none => rfl
  | some ab =>
      rw [Option.map_some, Option.bind_some, Option.bind_some, sum_terms, Batch.zipWith?_map_right]
      exact congrArg (fun f => Batch.zipWith? f p.rows ab) (funext fun r => funext fun x => hsum r x.1 x.2)

end Integral

end PolyBatch

end PolyRoots
