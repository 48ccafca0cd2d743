import PolyRoots.Proofs.Grid.Select
import PolyRoots.Proofs.Request.Dispatch
import PolyRoots.Proofs.Request.History

namespace PolyRoots

theorem Standing.meet_double {s t : Standing} (hs : s.precision = .double) (ht : t.precision = .double) :
    (s.meet t).precision = .double := by
  simp [meet, hs, ht, Precision.join]

namespace CplxTensor

variable {z w : CplxTensor}

/-- Both parts are in double precision. By their type they have one precision, and one shape. -/
def Regular (z : CplxTensor) : Prop := z.precision = .double

theorem regular_double (b : Batch (Cplx (Precision.Elem .double))) : Regular ⟨.double, b⟩ := rfl

theorem Regular.withCells (hz : z.Regular) (b : Batch (Cplx z.precision.Elem)) : Regular ⟨z.precision, b⟩ := hz

theorem Regular.meet (hz : z.Regular) {s : Standing} (hs : s.precision = .double) :
    (z.standing.meet s).precision = .double :=
  Standing.meet_double hz hs

theorem Regular.common (hz : z.Regular) (hw : w.Regular) : common z w = .double := hz.meet hw

theorem ofParts_regular (re im : Tensor) : Gives (ofParts re im) Regular :=
  .ofForm regular_double

theorem combine_regular (op : {p : Precision} → Cplx p.Elem → Cplx p.Elem → Cplx p.Elem)
    (hz : z.Regular) (hw : w.Regular) : Gives (combine op z w) Regular :=
  .ofForm fun _ => hz.common hw

theorem div_regular (hz : z.Regular) (hw : w.Regular) : Gives (z.div w) Regular :=
  .ofForm fun _ => hz.common hw

theorem roots_regular (n : Int) (hz : z.Regular) : Gives (z.roots n) Regular :=
  .guarded fun _ => .guarded fun _ => .ofForm hz.withCells

theorem stack_regular (hz : z.Regular) (hw : w.Regular) : Gives (stack z w) Regular :=
  .ofForm fun _ => hz.common hw

theorem pick_regular (c : Batch Bool) (hz : z.Regular) (hw : w.Regular) : Gives (pick c z w) Regular :=
  .ofForm fun _ => hz.common hw

theorem quadraticRoots_regular {a b c : CplxTensor} (ha : a.Regular) (hb : b.Regular) (hc : c.Regular) :
    Gives (quadraticRoots a b c) Regular := by
  have hk : (b.divFloat 2).Regular := hb
  refine (combine_regular _ hk hk).bind fun square hsquare => ?_
  refine (combine_regular _ ha hc).bind fun product hproduct => ?_
  refine (combine_regular _ hsquare hproduct).bind fun disc hdisc => ?_
  have hroot : (disc.power 0.5).Regular := hdisc
  refine (combine_regular _ (z := (b.divFloat 2).neg) hk hroot).bind fun low hlow => ?_
  refine (div_regular hlow ha).bind fun minus hminus => ?_
  refine (combine_regular _ (z := (b.divFloat 2).neg) hk hroot).bind fun high hhigh => ?_
  refine (div_regular hhigh ha).bind fun plus hplus => ?_
  refine (stack_regular hminus hplus).bind fun first hfirst => ?_
  refine (stack_regular hplus hminus).bind fun second hsecond => ?_
  exact pick_regular _ hfirst hsecond

theorem evaluate_regular (p : Poly) (z : CplxTensor) : Gives (evaluate p z) Regular :=
  .guarded fun _ => .ofForm regular_double

section Quotient

structure NarrowedBy (z : CplxTensor) (x : Tensor) : Prop where
  noAxes : z.cells.hasAxes = false
  single : x.format = .real .single
  axes : x.cells.hasAxes = true

def quotientPrecision (z : CplxTensor) (x : Tensor) : Precision :=
  match x.format with
  | .flag | .int64 => z.precision
  | .real q => (z.standing.meet ⟨q, x.cells.hasAxes⟩).precision

theorem divReal_eq (z : CplxTensor) (x : Tensor) : z.divReal x =
    fitted (Batch.zipWith? Cplx.divReal (z.cast (quotientPrecision z x))
      (x.cast (.real (quotientPrecision z x)))) >>= fun b => pure ⟨quotientPrecision z x, b⟩ :=
  rfl

theorem Regular.quotientPrecision_iff (hz : z.Regular) (x : Tensor) :
    quotientPrecision z x = .double ↔ ¬ z.NarrowedBy x := by
  have hp : z.precision = .double := hz
  obtain ⟨f, cells⟩ := x
  cases f with
  | flag => exact iff_of_true hp fun h => nomatch h.single
  | int64 => exact iff_of_true hp fun h => nomatch h.single
  | real q =>
      cases q with
      | double => exact iff_of_true (hz.meet rfl) fun h => nomatch h.single
      | single =>
          simp only [quotientPrecision, Standing.meet, standing, hp]
          cases hzAxes : z.cells.hasAxes <;> cases hxAxes : cells.hasAxes
          case false.true => exact iff_of_false nofun fun h => h ⟨hzAxes, rfl, hxAxes⟩
          case false.false => exact iff_of_true rfl fun h => Bool.false_ne_true (hxAxes.symm.trans h.axes)
          all_goals exact iff_of_true rfl fun h => Bool.false_ne_true (h.noAxes.symm.trans hzAxes)

theorem divReal_of_noAxes (h : z.cells.hasAxes = false) (x : Tensor) :
    ∃ b, z.divReal x = .ok ⟨quotientPrecision z x, b⟩ := by
  have hshape : z.cells.shape = [] := by simpa [Batch.hasAxes] using h
  have hjoin : z.cells.shape.join x.cells.shape = some x.cells.shape := by
    rw [hshape]
    rfl
  have hquotients := Batch.zipWith?_of_join Cplx.divReal (z.cast (quotientPrecision z x))
    (x.cast (.real (quotientPrecision z x))) hjoin
  rw [divReal_eq, hquotients]
  exact ⟨_, rfl⟩

theorem divReal_regular_iff (hz : z.Regular) (x : Tensor) :
    Gives (z.divReal x) Regular ↔ ¬ z.NarrowedBy x := by
  constructor
  · intro h hn
    obtain ⟨b, hb⟩ := divReal_of_noAxes hn.noAxes x
    exact (hz.quotientPrecision_iff x).1 (h _ hb) hn
  · intro h
    have hp := (hz.quotientPrecision_iff x).2 h
    exact .ofForm fun _ => hp

end Quotient

end CplxTensor

namespace Value

def Regular : Value → Prop
  | complex z => z.Regular
  | _ => True

def NarrowedBy (v w : Value) : Prop := ∃ z x, v.asComplex = .ok z ∧ w = tensor x ∧ z.NarrowedBy x

theorem gives_complex {x : Except Fault CplxTensor} (hx : Gives x CplxTensor.Regular) :
    Gives (x >>= fun z => pure (complex z)) Regular :=
  hx.map fun _ => id

theorem complexNumber_regular (re im : Value) : Gives (complexNumber re im) CplxTensor.Regular :=
  .andThen fun _ => .andThen fun _ => CplxTensor.ofParts_regular _ _

theorem asComplex_regular {v : Value} (hv : v.Regular) : Gives v.asComplex CplxTensor.Regular := by
  cases v with
  | complex z => exact .ok hv
  | _ => exact complexNumber_regular _ (float 0)

theorem complex?_regular {v : Value} (hv : v.Regular) : Gives v.complex? CplxTensor.Regular := by
  cases v with
  | complex z => exact .ok hv
  | _ => exact .error _

theorem part_regular (part : Part) (v : Value) : Gives (v.part part) Regular := by
  cases part <;> cases v <;> first | exact .ok trivial | exact .error _

theorem scale_regular (p : Poly) (c : Value) : Gives (p.scaleValue c) Regular := by
  cases c with
  | tensor t => exact .ofForm fun _ => trivial
  | _ => exact .andThen fun _ => .ofForm fun _ => trivial

end Value

theorem Operand.value_regular {past : Past} (hpast : ∀ i, Gives (past i) Value.Regular) (x : Operand) :
    Gives (x.value past) Value.Regular := by
  cases x with
  | plain x => exact .ok trivial
  | tensor f x => exact .ofForm fun _ => trivial
  | complex re im => exact .andThen fun _ => .andThen fun _ => Value.gives_complex (Value.complexNumber_regular _ _)
  | poly coeffs => exact .andThen fun _ => .ofForm fun _ => trivial
  | ref step part =>
      cases part with
      | none => exact (hpast step).bind fun _ => .ok
      | some part => exact .andThen (Value.part_regular part)

theorem CplxFn.run_regular (fn : CplxFn) {v : Value} (hv : v.Regular) : Gives (fn.run v) Value.Regular := by
  have hz := Value.complex?_regular hv
  cases fn with
  | neg => exact hz.map fun _ h => h.withCells _
  | power e => exact hz.map fun _ h => h.withCells _
  | roots n =>
      refine .guarded fun _ => hz.bind fun z h => ?_
      refine .guarded fun _ => .guarded fun _ => ?_
      exact Value.gives_complex (CplxTensor.roots_regular n h)
  | _ => exact .ofForm fun _ => trivial

theorem PolyFn.run_regular (fn : PolyFn) (p : Poly) : Gives (fn.run p) Value.Regular := by
  cases fn with
  | same => exact .ok trivial
  | _ => exact .ofForm fun _ => trivial

theorem PolyFn₂.run_regular (fn : PolyFn₂) (p q : Poly) : Gives (fn.run p q) Value.Regular := by
  cases fn <;> exact .ofForm fun _ => trivial

theorem ClosedForm.run_regular (equation : ClosedForm) : Gives equation.run Value.Regular := by
  cases equation with
  | cubicComplex a b c d => exact .ofForm fun _ => CplxTensor.regular_double _
  | quarticComplex a b c d e => exact .ofForm fun _ => CplxTensor.regular_double _
  | _ => exact .ofForm fun _ => trivial

theorem Storage.monomial_regular (storage : Storage) (n : Int) :
    Gives (storage.monomial n) Value.Regular := by
  refine .guarded fun _ => .guarded fun _ => .guarded fun _ => ?_
  cases storage <;> exact .ok trivial

theorem Sign.run_regular (s : Sign) {v : Value} (hv : v.Regular) : Gives (s.run v) Value.Regular := by
  cases s <;> cases v
  case neg.complex z => exact .ok (CplxTensor.Regular.withCells hv _)
  case neg.poly p => exact PolyFn.neg.run_regular p
  case pos.complex z => exact .ok hv
  case abs.complex z => exact .ok trivial
  all_goals exact .error _

theorem Exponent.run_regular (n : Exponent) {v : Value} (hv : v.Regular) : Gives (n.run v) Value.Regular := by
  cases n <;> cases v
  case integer.complex n z => exact .ite (fun _ => .ok (CplxTensor.Regular.withCells hv _)) fun _ => .error _
  case real.complex x z => exact .ok (CplxTensor.Regular.withCells hv _)
  case integer.poly n p => exact PolyFn.run_regular (.pow n) p
  case real.poly x p =>
    exact .guarded fun _ => .ite (fun _ => PolyFn.run_regular (.pow 0) p) fun _ =>
      .ite (fun _ => PolyFn.run_regular (.pow 1) p) fun _ => .error _
  all_goals exact .error _

theorem CplxTensor.divValue_regular_iff {z : CplxTensor} (hz : z.Regular) {w : Value} (hw : w.Regular) :
    Gives (z.divValue w) Regular ↔ ∀ x, w = .tensor x → ¬ z.NarrowedBy x := by
  cases w with
  | tensor x =>
      rw [show z.divValue (.tensor x) = z.divReal x from rfl, divReal_regular_iff hz]
      constructor
      · rintro h _ ⟨⟩
        exact h
      · exact fun h => h x rfl
  | complex w => exact iff_of_true (div_regular hz hw) nofun
  | float x => exact iff_of_true (.ok (hz.withCells _)) nofun
  | integer n => exact iff_of_true (.ok (hz.withCells _)) nofun
  | plain x =>
      cases x with
      | number x => exact iff_of_true (.ok (hz.withCells _)) nofun
      | _ => exact iff_of_true (.error _) nofun
  | _ => exact iff_of_true (.error _) nofun

theorem CplxFn₂.run_div_regular_iff {v w : Value} (hv : v.Regular) (hw : w.Regular) :
    Gives (div.run v w) Value.Regular ↔ ¬ v.NarrowedBy w := by
  have hz := Value.asComplex_regular hv
  have hquotient (z : CplxTensor) : Gives (z.divValue w >>= fun z => pure (.complex z)) Value.Regular ↔
      Gives (z.divValue w) CplxTensor.Regular :=
    Gives.bind_iff.trans (forall₂_congr fun a _ => ⟨fun h => h _ rfl, fun h => .ok h⟩)
  unfold run
  rw [Gives.bind_iff]
  constructor
  · rintro h ⟨z, x, hvz, hwx, hn⟩
    exact (CplxTensor.divValue_regular_iff (hz z hvz) hw).1 ((hquotient z).1 (h z hvz)) x hwx hn
  · intro h z hvz
    refine (hquotient z).2 ((CplxTensor.divValue_regular_iff (hz z hvz) hw).2 ?_)
    exact fun x hwx hn => h ⟨z, x, hvz, hwx, hn⟩

theorem CplxFn₂.run_regular (fn : CplxFn₂) (hfn : fn ≠ div) {v w : Value} (hv : v.Regular)
    (hw : w.Regular) : Gives (fn.run v w) Value.Regular := by
  have hz := Value.asComplex_regular hv
  have ht := Value.asComplex_regular hw
  cases fn with
  | equal => exact .andThen fun _ => .andThen fun _ => .ofForm fun _ => trivial
  | div => exact absurd rfl hfn
  | _ =>
      refine hz.bind fun z hz => ht.bind fun t ht => ?_
      exact Value.gives_complex (CplxTensor.combine_regular _ hz ht)

theorem Symbol.run_regular (s : Symbol) {v w : Value} (hv : v.Regular) (hw : w.Regular)
    (hdivides : s = slash → ∀ z, v ≠ .complex z) : Gives (s.run v w) Value.Regular := by
  refine s.run_gives (fun hcplx => ?_) (fun fn p q _ _ => fn.run_regular p q)
    fun _ p c _ => Value.scale_regular p c
  cases s with
  | slash =>
      -- the first value is real, so the second one is complex and no tensor
      refine (CplxFn₂.run_div_regular_iff hv hw).2 ?_
      rintro ⟨_, x, _, rfl, _⟩
      obtain ⟨z, hz⟩ | ⟨z, hz⟩ := hcplx
      · exact hdivides rfl z hz
      · cases hz
  | plus => exact CplxFn₂.add.run_regular nofun hv hw
  | minus => exact CplxFn₂.sub.run_regular nofun hv hw
  | times => exact CplxFn₂.mul.run_regular nofun hv hw
  | _ => exact .error _

/-- The operation divides the first value by the second, which may be real. A symbol divides real values
only by complex ones, and that case is left out. -/
inductive Operation.Divides (past : Past) : Operation → Value → Value → Prop
  | div {x y : Operand} {v w : Value} : x.value past = .ok v → y.value past = .ok w →
      Divides past (.cplx₂ .div x y) v w
  | slash {x y : Operand} {z : CplxTensor} {w : Value} : x.value past = .ok (.complex z) →
      y.value past = .ok w → Divides past (.binary .slash x y) (.complex z) w

section Step

variable {past : Past} {op : Operation}

theorem Operation.Divides.run_eq {v w : Value} (h : op.Divides past v w) :
    op.run past = CplxFn₂.div.run v w := by
  cases h with
  | @div x y v w hv hw =>
      have hrun : (cplx₂ .div x y).run past =
          x.value past >>= fun v => y.value past >>= CplxFn₂.div.run v := rfl
      rw [hrun, hv, hw]
      rfl
  | @slash x y z w hv hw =>
      have hrun : (binary .slash x y).run past =
          x.value past >>= fun v => y.value past >>= Symbol.slash.run v := rfl
      rw [hrun, hv, hw]
      rfl

theorem Operation.Divides.regular {v w : Value} (h : op.Divides past v w)
    (hpast : ∀ i, Gives (past i) Value.Regular) : v.Regular ∧ w.Regular := by
  have hvalue := Operand.value_regular hpast
  cases h with
  | div hv hw => exact ⟨hvalue _ _ hv, hvalue _ _ hw⟩
  | slash hv hw => exact ⟨hvalue _ _ hv, hvalue _ _ hw⟩

theorem Operation.run_regular (hpast : ∀ i, Gives (past i) Value.Regular)
    (hdivides : ∀ v w, ¬ op.Divides past v w) : Gives (op.run past) Value.Regular := by
  have hvalue := Operand.value_regular hpast
  cases op with
  | complexNumber re im =>
      refine .andThen fun re => .andThen fun im => ?_
      exact Value.gives_complex (Value.complexNumber_regular re im)
  | cplx fn z => exact (hvalue z).bind fun _ => fn.run_regular
  | cplx₂ fn x y =>
      refine Gives.bind_iff.2 fun v hv => Gives.bind_iff.2 fun w hw => ?_
      refine fn.run_regular ?_ (hvalue x v hv) (hvalue y w hw)
      rintro rfl
      exact hdivides v w (.div hv hw)
  | binary s x y =>
      refine Gives.bind_iff.2 fun v hv => Gives.bind_iff.2 fun w hw => ?_
      refine s.run_regular (hvalue x v hv) (hvalue y w hw) ?_
      rintro rfl z rfl
      exact hdivides _ w (.slash hv hw)
  | evaluateCplx p z =>
      refine .andThen fun p => .andThen fun _ => .andThen fun z => ?_
      exact Value.gives_complex (CplxTensor.evaluate_regular p z)
  | quadraticComplex a b c =>
      refine (hvalue a).bind fun a ha => (hvalue b).bind fun b hb => (hvalue c).bind fun c hc => ?_
      refine (Value.asComplex_regular ha).bind fun a ha => (Value.asComplex_regular hb).bind fun b hb => ?_
      refine (Value.asComplex_regular hc).bind fun c hc => ?_
      exact Value.gives_complex (CplxTensor.quadraticRoots_regular ha hb hc)
  | closedForm equation => exact equation.run_regular
  | sign s a => exact (hvalue a).bind fun _ => s.run_regular
  | power a n => exact (hvalue a).bind fun _ => n.run_regular
  | poly fn p => exact .andThen fn.run_regular
  | poly₂ fn p q => exact .andThen fun p => .andThen fun q => fn.run_regular p q
  | scale p c => exact .andThen fun p => .andThen fun c => Value.scale_regular p c
  | evaluate p x => exact .andThen fun p => .andThen (p.evaluateValue_gives fun _ => trivial)
  | call a b => exact .andThen fun v => .andThen (v.apply_gives fun _ => trivial)
  | monomial n storage => exact storage.monomial_regular n
  | tolerances storage => exact .ok trivial
  | antiderivative p c =>
      exact .andThen fun _ => .andThen fun _ => .andThen fun _ => .andThen fun _ => .ofForm fun _ => trivial
  | integral p a b =>
      exact .andThen fun _ => .andThen fun _ => .andThen fun _ => .andThen fun _ => .andThen fun _ =>
        .ofForm fun _ => trivial
  | fromRoots roots => exact .andThen fun _ => .andThen fun _ => .ofForm fun _ => trivial
  | interpolate x y =>
      exact .andThen fun _ => .andThen fun _ => .andThen fun _ => .andThen fun _ => .ofForm fun _ => trivial

theorem Operation.run_regular_iff (past : Past) (op : Operation)
    (hpast : ∀ i, Gives (past i) Value.Regular) :
    Gives (op.run past) Value.Regular ↔ ¬ ∃ v w, op.Divides past v w ∧ v.NarrowedBy w :=
  Gives.iff_not_exists (fun _ _ h => h.run_eq)
    (fun _ _ h => CplxFn₂.run_div_regular_iff (h.regular hpast).1 (h.regular hpast).2) (run_regular hpast)

end Step

namespace History

/-- The complex numbers that a script yields have parts of one shape in double precision, exactly if no step
divides a number without axes by a tensor with axes in single precision. -/
theorem complex_regular_iff (ops : List Operation) :
    (∀ z, (runScript ops).Yields (.complex z) → z.Regular) ↔
      ∀ before op, before ++ [op] <+: ops →
        ∀ v w, op.Divides (runScript before).value v w → ¬ v.NarrowedBy w := by
  have hsteps := forall_yields_iff Operation.run_regular_iff ops
  simp only [not_exists, not_and] at hsteps
  rw [← hsteps]
  constructor
  · intro h v hv
    cases v with
    | complex z => exact h z hv
    | _ => trivial
  · exact fun h z hz => h _ hz

theorem quotient_irregular :
    ¬ ∀ z, (runScript [.cplx₂ .div (.plain (.number (.decimal 1 0)))
      (.tensor (.real .single) (.list [.number (.decimal 1 0)]))]).Yields (.complex z) → z.Regular := by
  intro h
  have hz : ∃ b, (runScript [.cplx₂ .div (.plain (.number (.decimal 1 0)))
      (.tensor (.real .single) (.list [.number (.decimal 1 0)]))]).Yields (.complex ⟨.single, b⟩) :=
    ⟨_, _, List.mem_singleton_self _, rfl⟩
  obtain ⟨b, hb⟩ := hz
  exact nomatch h _ hb

end History

end PolyRoots
