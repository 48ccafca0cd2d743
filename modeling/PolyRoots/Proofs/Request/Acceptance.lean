import PolyRoots.Proofs.Poly.Filled
import PolyRoots.Proofs.Request.Dispatch
import PolyRoots.Proofs.Request.History

namespace PolyRoots

namespace Value

def polys : Value → List Poly
  | poly p | halfPoly _ p => [p]
  | division q r => [q, r]
  | _ => []

def Filled (v : Value) : Prop := ∀ p ∈ v.polys, p.Filled

@[simp]
theorem filled_poly {p : Poly} : (poly p).Filled ↔ p.Filled := List.forall_mem_singleton

@[simp]
theorem filled_halfPoly {h : HalfFormat} {p : Poly} : (halfPoly h p).Filled ↔ p.Filled :=
  List.forall_mem_singleton

@[simp]
theorem filled_division {q r : Poly} : (division q r).Filled ↔ q.Filled ∧ r.Filled := by
  simp [Filled, polys]

theorem gives_poly {x : Except Fault Poly} (hx : Gives x Poly.Filled) :
    Gives (x >>= fun p => pure (poly p)) Filled :=
  hx.map fun _ => filled_poly.2

theorem asPoly_filled {v : Value} (hv : v.Filled) : Gives v.asPoly Poly.Filled := by
  cases v with
  | poly p => exact .ok (filled_poly.1 hv)
  | halfPoly h p => exact .ok (filled_halfPoly.1 hv)
  | plain x =>
      cases x with
      | absent => exact .error _
      | _ => exact .andThen Poly.ofTensor_filled
  | _ => exact .andThen Poly.ofTensor_filled

theorem part_filled (part : Part) {v : Value} (hv : v.Filled) : Gives (v.part part) Filled := by
  cases part <;> cases v
  case quotient.division q r => exact .ok (filled_poly.2 (filled_division.1 hv).1)
  case remainder.division q r => exact .ok (filled_poly.2 (filled_division.1 hv).2)
  all_goals first | exact .ok nofun | exact .error _

end Value

theorem Operand.value_filled {past : Past} (hpast : ∀ i, Gives (past i) Value.Filled) (x : Operand) :
    Gives (x.value past) Value.Filled := by
  induction x with
  | plain x => exact .ok nofun
  | tensor f x => exact .ofForm fun _ => nofun
  | complex re im => exact .andThen fun _ => .andThen fun _ => .ofForm fun _ => nofun
  | poly coeffs ih => exact ih.bind fun _ hv => Value.gives_poly (Value.asPoly_filled hv)
  | ref step part =>
      cases part with
      | none => exact (hpast step).bind fun _ => .ok
      | some part => exact (hpast step).bind fun v => Value.part_filled part

section Scaling

variable {p : Poly}

/-- The factor is empty, but has a shape for which there is a product. -/
def Poly.EmptiedBy (p : Poly) (c : Value) : Prop :=
  ∃ v b, p.scaleValue c = .ok v ∧ c.toBatch p.format = .ok b ∧ b.shape.size = 0

theorem Poly.scale_exists_iff (p : Poly) (t : Tensor) :
    (∃ q, p.scale t = .ok q) ↔ (p.body.rows.shape.join t.shape).isSome := by
  let f := p.format.join t.format
  have hproduct : p.scale t = fitted ((p.cast f).scale? (t.cast f)) >>= fun b => pure ⟨f, b⟩ := rfl
  have hrows : ((p.cast f).scale? (t.cast f)).isSome ↔ (p.body.rows.shape.join t.shape).isSome := by
    rw [PolyBatch.scale?_eq, Option.isSome_map]
    exact Batch.zipWith?_isSome_iff
  rw [hproduct, ← hrows]
  cases (p.cast f).scale? (t.cast f) with
  | none => exact iff_of_false nofun nofun
  | some b => exact iff_of_true ⟨_, rfl⟩ rfl

theorem Poly.emptiedBy_tensor_iff (p : Poly) (t : Tensor) :
    p.EmptiedBy (.tensor t) ↔ t.shape.size = 0 ∧ (p.body.rows.shape.join t.shape).isSome := by
  have hscale (haxes : t.cells.hasAxes = true) :
      p.scaleValue (.tensor t) = p.scale t >>= fun q => pure (.poly q) :=
    congrArg (fun r => r >>= fun q => pure (Value.poly q)) (if_pos haxes)
  have haxes (hsize : t.shape.size = 0) : t.cells.hasAxes = true := by
    obtain ⟨f, s, cells⟩ := t
    cases s with
    | nil => exact absurd hsize Nat.one_ne_zero
    | cons n s => rfl
  rw [← p.scale_exists_iff]
  constructor
  · rintro ⟨v, b, hv, hb, hsize⟩
    cases hb
    rw [hscale (haxes hsize)] at hv
    cases hq : p.scale t with
    | error e =>
        rw [hq] at hv
        cases hv
    | ok q => exact ⟨hsize, q, rfl⟩
  · rintro ⟨hsize, q, hq⟩
    refine ⟨.poly q, t.cast p.format, ?_, rfl, hsize⟩
    rw [hscale (haxes hsize), hq]
    rfl

theorem Poly.scaleValue_spec (hp : p.Filled) (c : Value) :
    Gives (p.scaleValue c) fun v =>
      ∃ b, c.toBatch p.format = .ok b ∧ (v.Filled ↔ b.shape.size ≠ 0) := by
  cases c with
  | tensor t =>
      have hproduct (q : Poly) (hq : q.Filled ↔ t.shape.size ≠ 0) :
          ∃ b, (Value.tensor t).toBatch p.format = .ok b ∧ ((Value.poly q).Filled ↔ b.shape.size ≠ 0) :=
        ⟨t.cast p.format, rfl, Value.filled_poly.trans hq⟩
      exact (scaleTensor_filled_iff hp t).map hproduct
  | _ =>
      refine (Gives.of_eq _).bind fun b hb => ?_
      exact (scaleCoeffs_filled_iff hp b).map fun q hq => ⟨b, hb, Value.filled_poly.trans hq⟩

theorem Poly.scaleValue_filled_iff (hp : p.Filled) (c : Value) :
    Gives (p.scaleValue c) Value.Filled ↔ ¬ p.EmptiedBy c := by
  have hspec := scaleValue_spec hp c
  constructor
  · rintro h ⟨v, b, hv, hb, hsize⟩
    obtain ⟨b', hb', hfilled⟩ := hspec v hv
    cases hb.symm.trans hb'
    exact hfilled.1 (h v hv) hsize
  · intro h v hv
    obtain ⟨b, hb, hfilled⟩ := hspec v hv
    exact hfilled.2 fun hsize => h ⟨v, b, hv, hb, hsize⟩

theorem Value.Scales.filled {v w c : Value} (h : v.Scales w p c) (hv : v.Filled) (hw : w.Filled) :
    p.Filled := by
  cases h with
  | right _ => exact filled_poly.1 hv
  | left _ _ => exact filled_poly.1 hw

inductive Operation.Scales (past : Past) : Operation → Poly → Value → Prop
  | scale {x y : Operand} {p : Poly} {c : Value} : x.value past >>= Value.asPoly = .ok p →
      y.value past = .ok c → Scales past (.scale x y) p c
  | product {x y : Operand} {v w : Value} {p : Poly} {c : Value} : x.value past = .ok v →
      y.value past = .ok w → v.Scales w p c → Scales past (.binary .times x y) p c

variable {past : Past} {op : Operation} {c : Value}

theorem Operation.Scales.run_eq (h : op.Scales past p c) : op.run past = p.scaleValue c := by
  cases h with
  | @scale x y p c hp hc =>
      have hrun : (Operation.scale x y).run past =
          (x.value past >>= Value.asPoly) >>= fun p => y.value past >>= p.scaleValue := rfl
      rw [hrun, hp, hc]
      rfl
  | @product x y v w p c hv hw h =>
      have hrun : (binary .times x y).run past =
          x.value past >>= fun v => y.value past >>= Symbol.times.run v := rfl
      rw [hrun, hv, hw]
      exact h.run_eq

theorem Operation.Scales.filled (h : op.Scales past p c) (hpast : ∀ i, Gives (past i) Value.Filled) :
    p.Filled := by
  have hvalue := Operand.value_filled hpast
  cases h with
  | scale hp _ => exact (hvalue _).bind (fun _ => Value.asPoly_filled) p hp
  | product hv hw h => exact h.filled (hvalue _ _ hv) (hvalue _ _ hw)

end Scaling

section Functions

theorem CplxFn.run_filled (fn : CplxFn) (v : Value) : Gives (fn.run v) Value.Filled := by
  cases fn with
  | roots n =>
      refine .guarded fun _ => .andThen fun z => ?_
      refine .guarded fun _ => .guarded fun _ => ?_
      exact .ofForm fun _ => nofun
  | _ => exact .ofForm fun _ => nofun

theorem CplxFn₂.run_filled (fn : CplxFn₂) (v w : Value) : Gives (fn.run v w) Value.Filled := by
  cases fn with
  | div => exact .andThen fun _ => .ofForm fun _ => nofun
  | _ => exact .andThen fun _ => .andThen fun _ => .ofForm fun _ => nofun

theorem PolyFn.run_filled (fn : PolyFn) {p : Poly} (hp : p.Filled) : Gives (fn.run p) Value.Filled := by
  cases fn with
  | same => exact .ok (Value.filled_poly.2 hp)
  | neg => exact Value.gives_poly (Poly.neg_filled hp)
  | trim tol => exact Value.gives_poly (Poly.trim_filled hp tol)
  | pow n => exact Value.gives_poly (Poly.pow_filled hp n)
  | derivative order => exact Value.gives_poly (Poly.derivative_filled hp order)
  | _ => exact .ofForm fun _ => nofun

theorem PolyFn₂.run_filled (fn : PolyFn₂) {p q : Poly} (hp : p.Filled) (hq : q.Filled) :
    Gives (fn.run p q) Value.Filled := by
  have hdivMod := Poly.divMod_filled p q
  cases fn with
  | add => exact Value.gives_poly (Poly.add_filled hp hq)
  | sub => exact Value.gives_poly (Poly.sub_filled hp hq)
  | mul => exact Value.gives_poly (Poly.mul_filled hp hq)
  | compose => exact Value.gives_poly (Poly.compose_filled hp hq)
  | divMod => exact hdivMod.map fun _ => Value.filled_division.2
  | div => exact Value.gives_poly (hdivMod.map fun _ h => h.1)
  | mod => exact Value.gives_poly (hdivMod.map fun _ h => h.2)
  | _ => exact .ofForm fun _ => nofun

theorem ClosedForm.run_filled (equation : ClosedForm) : Gives equation.run Value.Filled := by
  cases equation <;> exact .ofForm fun _ => nofun

theorem Storage.monomial_filled (storage : Storage) (n : Int) : Gives (storage.monomial n) Value.Filled := by
  have hmonomial (f : Format) : (Poly.ofList f (Coeffs.monomial n.toNat)).Filled :=
    PolyBatch.filled_ofList (List.append_ne_nil_of_right_ne_nil _ nofun)
  refine .guarded fun _ => .guarded fun _ => .guarded fun _ => ?_
  cases storage with
  | full f => exact .ok (Value.filled_poly.2 (hmonomial f))
  | half h => exact .ok (Value.filled_halfPoly.2 (hmonomial _))

theorem Sign.run_filled (s : Sign) {v : Value} (hv : v.Filled) : Gives (s.run v) Value.Filled := by
  cases s <;> cases v
  case neg.poly p => exact PolyFn.neg.run_filled (Value.filled_poly.1 hv)
  all_goals first | exact .ok nofun | exact .error _

theorem Exponent.run_filled (n : Exponent) {v : Value} (hv : v.Filled) : Gives (n.run v) Value.Filled := by
  cases n <;> cases v
  case integer.complex n z => exact .ite (fun _ => .ok nofun) fun _ => .error _
  case real.complex x z => exact .ok nofun
  case integer.poly n p => exact PolyFn.run_filled (.pow n) (Value.filled_poly.1 hv)
  case real.poly x p =>
    have hpow (n : Int) := PolyFn.run_filled (.pow n) (Value.filled_poly.1 hv)
    exact .guarded fun _ => .ite (fun _ => hpow 0) fun _ => .ite (fun _ => hpow 1) fun _ => .error _
  all_goals exact .error _

theorem Symbol.run_cplx_filled (s : Symbol) (v w : Value) : Gives (run.cplx s v w) Value.Filled := by
  cases s with
  | plus => exact CplxFn₂.add.run_filled v w
  | minus => exact CplxFn₂.sub.run_filled v w
  | times => exact CplxFn₂.mul.run_filled v w
  | slash => exact CplxFn₂.div.run_filled v w
  | _ => exact .error _

theorem Symbol.run_filled (s : Symbol) {v w : Value} (hv : v.Filled) (hw : w.Filled)
    (hscales : s = times → ∀ p c, ¬ v.Scales w p c) : Gives (s.run v w) Value.Filled := by
  refine s.run_gives (fun _ => s.run_cplx_filled v w) ?_ fun hs p c h => absurd h (hscales hs p c)
  rintro fn p q rfl rfl
  exact fn.run_filled (Value.filled_poly.1 hv) (Value.filled_poly.1 hw)

end Functions

section Step

variable {past : Past}

/-- Unless it scales a polynomial, an operation passes the property on to its result. -/
theorem Operation.run_filled {op : Operation} (hpast : ∀ i, Gives (past i) Value.Filled)
    (hscales : ∀ p c, ¬ op.Scales past p c) : Gives (op.run past) Value.Filled := by
  have hvalue := Operand.value_filled hpast
  have hpoly (x : Operand) : Gives (x.value past >>= Value.asPoly) Poly.Filled :=
    (hvalue x).bind fun _ => Value.asPoly_filled
  cases op with
  | poly fn p => exact (hpoly p).bind fun _ => fn.run_filled
  | poly₂ fn p q => exact (hpoly p).bind fun _ hp => (hpoly q).bind fun _ hq => fn.run_filled hp hq
  | scale x y =>
      exact Gives.bind_iff.2 fun p hp => Gives.bind_iff.2 fun c hc => absurd (.scale hp hc) (hscales p c)
  | antiderivative p c =>
      refine (hpoly p).bind fun p hp => .andThen fun c => .andThen fun _ => .andThen fun c => ?_
      exact Value.gives_poly (Poly.antiderivative_filled hp c)
  | fromRoots roots =>
      exact .andThen fun _ => .andThen fun roots => Value.gives_poly (Poly.fromRoots_filled roots)
  | interpolate x y =>
      refine .andThen fun _ => .andThen fun _ => .andThen fun x => .andThen fun y => ?_
      exact Value.gives_poly (Poly.interpolate_filled x y)
  | monomial n storage => exact storage.monomial_filled n
  | binary s x y =>
      refine Gives.bind_iff.2 fun v hv => Gives.bind_iff.2 fun w hw => ?_
      refine s.run_filled (hvalue x v hv) (hvalue y w hw) ?_
      rintro rfl p c h
      exact hscales p c (.product hv hw h)
  | sign s a => exact (hvalue a).bind fun _ => s.run_filled
  | power a n => exact (hvalue a).bind fun _ => n.run_filled
  | cplx fn z => exact .andThen fn.run_filled
  | cplx₂ fn z w => exact .andThen fun v => .andThen fun w => fn.run_filled v w
  | complexNumber re im => exact .andThen fun _ => .andThen fun _ => .ofForm fun _ => nofun
  | evaluateCplx p z => exact .andThen fun _ => .andThen fun _ => .andThen fun _ => .ofForm fun _ => nofun
  | quadraticComplex a b c =>
      exact .andThen fun _ => .andThen fun _ => .andThen fun _ => .andThen fun _ => .andThen fun _ =>
        .andThen fun _ => .ofForm fun _ => nofun
  | closedForm equation => exact equation.run_filled
  | integral p a b =>
      exact .andThen fun _ => .andThen fun _ => .andThen fun _ => .andThen fun _ => .andThen fun _ =>
        .ofForm fun _ => nofun
  | evaluate p x => exact .andThen fun p => .andThen (p.evaluateValue_gives fun _ => nofun)
  | call a b => exact .andThen fun v => .andThen (v.apply_gives fun _ => nofun)
  | tolerances storage => exact .ok nofun

theorem Operation.run_filled_iff (past : Past) (op : Operation) (hpast : ∀ i, Gives (past i) Value.Filled) :
    Gives (op.run past) Value.Filled ↔ ¬ ∃ p c, op.Scales past p c ∧ p.EmptiedBy c :=
  Gives.iff_not_exists (fun _ _ h => h.run_eq)
    (fun _ c h => Poly.scaleValue_filled_iff (h.filled hpast) c) (run_filled hpast)

end Step

namespace History

/-- The polynomials that a script yields can be made from their own coefficients, exactly if no step scales a
polynomial by an empty factor. -/
theorem polys_accepted_iff (ops : List Operation) :
    (∀ v, (runScript ops).Yields v → ∀ p ∈ v.polys, p.Accepted) ↔
      ∀ before op, before ++ [op] <+: ops →
        ∀ p c, op.Scales (runScript before).value p c → ¬ p.EmptiedBy c := by
  have hsteps := forall_yields_iff Operation.run_filled_iff ops
  simp only [not_exists, not_and] at hsteps
  simp only [Poly.accepted_iff]
  exact hsteps

/-- One plus two `x`, scaled by an empty list of numbers. -/
theorem scale_unaccepted :
    ¬ ∀ v, (runScript [.scale (.plain (.list [.number (.decimal 1 0), .number (.decimal 2 0)]))
      (.tensor (.real .double) (.list []))]).Yields v → ∀ p ∈ v.polys, p.Accepted := by
  intro h
  have hp : ∃ b, (runScript [.scale (.plain (.list [.number (.decimal 1 0), .number (.decimal 2 0)]))
      (.tensor (.real .double) (.list []))]).Yields (.poly ⟨.real .double, 2, [0], b⟩) :=
    ⟨_, _, List.mem_singleton_self _, rfl⟩
  obtain ⟨b, hb⟩ := hp
  exact (h _ hb _ (List.mem_singleton_self _)).size rfl

end History

end PolyRoots
