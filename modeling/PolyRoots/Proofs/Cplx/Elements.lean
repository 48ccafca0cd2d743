import PolyRoots.Cplx.Tensor
import PolyRoots.Proofs.Cplx.Rows
import PolyRoots.Solve.Quadratic

universe u

namespace PolyRoots

theorem Precision.join_join_self (p q r : Precision) :
    (q.join (q.join (p.join r))).join p = q.join (q.join (p.join r)) := by
  cases p <;> cases q <;> cases r <;> rfl

theorem Precision.ofFloat_two (p : Precision) : p.ofFloat 2 = 2 := by
  cases p <;> decide +kernel

theorem Precision.ofFloat_half (p : Precision) : p.ofFloat 0.5 = 1 / 2 := by
  cases p <;> decide +kernel

namespace Standing

def Covers (s t : Standing) : Prop :=
  s.hasAxes = true → t.hasAxes = false → s.precision.join t.precision = s.precision

def Compatible (s t : Standing) : Prop := s.Covers t ∧ t.Covers s

theorem precision_meet_self (p : Precision) (h h' : Bool) : (Standing.meet ⟨p, h⟩ ⟨p, h'⟩).precision = p := by
  cases p <;> cases h <;> cases h' <;> rfl

theorem meet_self (s : Standing) : s.meet s = s := by
  obtain ⟨p, h⟩ := s
  cases p <;> cases h <;> rfl

theorem Compatible.refl (s : Standing) : s.Compatible s := by
  constructor <;> intro h h' <;> cases h.symm.trans h'

variable {s t r : Standing}

theorem Compatible.of_dominates (hp : s.precision.join t.precision = s.precision)
    (ha : t.hasAxes = true → s.hasAxes = true) : s.Compatible t := by
  constructor
  · exact fun _ _ => hp
  · intro ht hs
    cases hs.symm.trans (ha ht)

theorem Compatible.precision_meet (h : s.Compatible t) :
    (s.meet t).precision = s.precision.join t.precision := by
  obtain ⟨p, hp⟩ := s
  obtain ⟨q, hq⟩ := t
  cases hp <;> cases hq
  · rfl
  · exact (h.2 rfl rfl).symm.trans (Precision.join_comm q p)
  · exact (h.1 rfl rfl).symm
  · rfl

theorem Compatible.meet (hst : s.Compatible t) (hs : r.Compatible s) (ht : r.Compatible t) :
    r.Compatible (s.meet t) := by
  constructor
  · intro hr hno
    obtain ⟨hs0, ht0⟩ := Bool.or_eq_false_iff.1 hno
    rw [hst.precision_meet, ← Precision.join_assoc, hs.1 hr hs0, ht.1 hr ht0]
  · intro hyes hr
    rw [hst.precision_meet, Precision.join_assoc]
    rcases Bool.or_eq_true_iff.1 hyes with hs1 | ht1
    · rw [Precision.join_comm t.precision, ← Precision.join_assoc, hs.2 hs1 hr]
    · rw [ht.2 ht1 hr]

/-- A sum that has to be divided by a coefficient of standing `s`, when products with it went into the
sum. -/
theorem Compatible.numerator (hst : s.Compatible t) (hr : r.Compatible (s.meet t)) :
    (r.meet (r.meet (s.meet t))).Compatible s := by
  have hsum : r.Compatible (r.meet (s.meet t)) := hr.meet (.refl r) hr
  apply Compatible.of_dominates
  · rw [hsum.precision_meet, hr.precision_meet, hst.precision_meet]
    exact Precision.join_join_self _ _ _
  · intro hs
    simp only [Standing.meet, hs, Bool.true_or, Bool.or_true]

end Standing

theorem Batch.hasAxes_zipWith? {α β γ : Type u} {f : α → β → γ} {a : Batch α} {b : Batch β} {c : Batch γ}
    (h : zipWith? f a b = some c) : c.hasAxes = (a.hasAxes || b.hasAxes) := by
  obtain ⟨hj, -⟩ := zipWith?_eq_some h
  obtain ⟨s, x⟩ := a
  obtain ⟨t, y⟩ := b
  obtain ⟨u, z⟩ := c
  cases s with
  | nil =>
      cases hj
      rfl
  | cons m s =>
      cases t with
      | nil =>
          cases hj
          rfl
      | cons n t =>
          cases u with
          | nil => simp only [Shape.join] at hj; split at hj <;> cases hj
          | cons k u => rfl

theorem Shape.join₃_least {s t r u v : Shape} (h : join₃ s t r = some u) (hs : s.Fits v) (ht : t.Fits v)
    (hr : r.Fits v) : u.Fits v := by
  obtain ⟨w, hw, hu⟩ := Option.bind_eq_some_iff.1 h
  obtain ⟨w', hw', hfits⟩ := join_least ht hr
  obtain rfl : w = w' := Option.some.inj (hw.symm.trans hw')
  obtain ⟨u', hu', hfits'⟩ := join_least hs hfits
  obtain rfl : u = u' := Option.some.inj (hu.symm.trans hu')
  exact hfits'

namespace CplxTensor

abbrev shape (z : CplxTensor) : Shape := z.cells.shape

def select (z : CplxTensor) (i : Index z.shape) : CplxTensor := ⟨z.precision, z.cells.select i⟩

variable {u : Shape}

/-- Repeated to the shape `u`, the tensor consists of numbers which are tensors of its precision without
axes. -/
def Elements (z : CplxTensor) (u : Shape) (e : Index u → CplxTensor) : Prop :=
  ∃ f, z.cells.Reads u f ∧ ∀ i, e i = ⟨z.precision, .single (f i)⟩

theorem elements_select (z : CplxTensor) (h : z.shape.Fits u) : z.Elements u fun i => z.select (i.project h) :=
  ⟨_, Batch.reads_get z.cells h, fun _ => rfl⟩

def onNumbers (g : (p : Precision) → Cplx p.Elem → Cplx p.Elem) (z : CplxTensor) : CplxTensor :=
  ⟨z.precision, z.cells.map (g z.precision)⟩

theorem Elements.onNumbers {z : CplxTensor} {e : Index u → CplxTensor} (h : z.Elements u e)
    (g : (p : Precision) → Cplx p.Elem → Cplx p.Elem) :
    (z.onNumbers g).Elements u fun i => (e i).onNumbers g := by
  obtain ⟨f, hf, he⟩ := h
  obtain rfl := funext he
  exact ⟨_, hf.map (g z.precision), fun _ => rfl⟩

/-- An operation on two tensors in their common precision, to which the second one is brought by `r`. -/
def inCommon {β : Precision → Type} (r : (q p : Precision) → Cplx q.Elem → β p)
    (g : {p : Precision} → Cplx p.Elem → β p → Cplx p.Elem) (z w : CplxTensor) : Except Fault CplxTensor := do
  let p := common z w
  return ⟨p, ← fitted (Batch.zipWith? g (z.cast p) (w.cells.map (r w.precision p)))⟩

/-- What a result of two tensors has of them. -/
structure Result (z w t : CplxTensor) : Prop where
  standing : t.standing = z.standing.meet w.standing
  left : z.shape.Fits t.shape
  right : w.shape.Fits t.shape

theorem Elements.inCommon {β : Precision → Type} (r : (q p : Precision) → Cplx q.Elem → β p)
    (g : {p : Precision} → Cplx p.Elem → β p → Cplx p.Elem) {z w : CplxTensor} {e e' : Index u → CplxTensor}
    (hz : z.Elements u e) (hw : w.Elements u e') (h : z.standing.Compatible w.standing) :
    ∃ t e'', CplxTensor.inCommon r g z w = .ok t ∧ (∀ i, CplxTensor.inCommon r g (e i) (e' i) = .ok (e'' i)) ∧
      t.Elements u e'' ∧ Result z w t := by
  obtain ⟨f, hf, he⟩ := hz
  obtain ⟨f', hf', he'⟩ := hw
  let p := common z w
  obtain ⟨c, hc, hread⟩ := (hf.map (Cplx.map (z.precision.convert p))).zipWith?
    (hf'.map (r w.precision p)) g
  have hone (q : Precision) (hq : (Standing.meet ⟨z.precision, false⟩ ⟨w.precision, false⟩).precision = q)
      (i : Index u) : CplxTensor.inCommon r g (e i) (e' i) =
        .ok ⟨q, .single (g ((f i).map (z.precision.convert q)) (r w.precision q (f' i)))⟩ := by
    subst hq
    rw [he, he']
    rfl
  refine ⟨⟨p, c⟩, _, ?_, hone p h.precision_meet.symm, ⟨_, hread, fun i => rfl⟩, ?_⟩
  · exact congrArg (fun x => fitted x >>= fun c => pure (CplxTensor.mk p c)) hc
  · have haxes := Batch.hasAxes_zipWith? hc
    have hfits := Batch.zipWith?_fits hc
    exact ⟨congrArg (Standing.mk p) haxes, hfits.1, hfits.2⟩

theorem Elements.combine (op : {p : Precision} → Cplx p.Elem → Cplx p.Elem → Cplx p.Elem) {z w : CplxTensor}
    {e e' : Index u → CplxTensor} (hz : z.Elements u e) (hw : w.Elements u e')
    (h : z.standing.Compatible w.standing) :
    ∃ t e'', CplxTensor.combine op z w = .ok t ∧ (∀ i, CplxTensor.combine op (e i) (e' i) = .ok (e'' i)) ∧
      t.Elements u e'' ∧ Result z w t :=
  hz.inCommon (fun q p => Cplx.map (q.convert p)) op hw h

theorem Elements.div {z w : CplxTensor} {e e' : Index u → CplxTensor} (hz : z.Elements u e)
    (hw : w.Elements u e') (h : z.standing.Compatible w.standing) :
    ∃ t e'', z.div w = .ok t ∧ (∀ i, (e i).div (e' i) = .ok (e'' i)) ∧ t.Elements u e'' ∧ Result z w t :=
  hz.inCommon (β := fun p => Cplx p.Elem × p.Elem) (fun q p v => (v.map (q.convert p), q.convert p v.normSq))
    (fun z v => z.divBy v.1 v.2) hw h

section Arrangement

def arrange (a minus plus : CplxTensor) : Except Fault CplxTensor := do
  let positive := (a.cells.map fun a => decide (0 < a.re)).unsqueeze
  pick positive (← stack minus plus) (← stack plus minus)

def pair {α : Type} (x y : α) : Row 2 α := ⟨[x, y], rfl⟩

theorem common_self (p : Precision) (x y : Batch (Cplx p.Elem)) : common ⟨p, x⟩ ⟨p, y⟩ = p := by
  exact Standing.precision_meet_self p x.hasAxes y.hasAxes

theorem cast_self (p : Precision) (x : Batch (Cplx p.Elem)) : cast ⟨p, x⟩ p = x := by
  have hid : Cplx.map (p.convert p) = id := funext fun z => by cases p <;> rfl
  exact (congrArg (x.map ·) hid).trans x.map_id

theorem stack_mk (p : Precision) (x y : Grid u (Cplx p.Elem)) : stack ⟨p, u, x⟩ ⟨p, u, y⟩ =
    .ok ⟨p, .ofRows ⟨u, .ofFn u fun i => pair (x.get i) (y.get i)⟩⟩ := by
  rw [stack, common_self, cast_self, cast_self]
  exact congrArg (fun b => fitted b >>= fun b => pure (CplxTensor.mk p b)) (Batch.stack?_mk (List.cons_ne_nil x [y]))

theorem pick_mk {n : Nat} {c : Batch Bool} {t : Index u → Bool} (hc : c.Reads u t) (p : Precision)
    (x y : Grid u (Row n (Cplx p.Elem))) : pick c.unsqueeze ⟨p, .ofRows ⟨u, x⟩⟩ ⟨p, .ofRows ⟨u, y⟩⟩ =
      .ok ⟨p, .ofRows ⟨u, .ofFn u fun i => if t i then x.get i else y.get i⟩⟩ := by
  rw [pick, common_self, cast_self, cast_self, Batch.pick?_unsqueeze_ofRows hc]
  rfl

theorem arrange_eq {a : CplxTensor} {f : Index u → Cplx a.precision.Elem} (ha : a.cells.Reads u f) (p : Precision)
    (x y : Grid u (Cplx p.Elem)) : arrange a ⟨p, u, x⟩ ⟨p, u, y⟩ =
      .ok ⟨p, .ofRows ⟨u, .ofFn u fun i =>
        if 0 < (f i).re then pair (x.get i) (y.get i) else pair (y.get i) (x.get i)⟩⟩ := by
  have hpositive := ha.map fun a => decide (0 < a.re)
  rw [arrange, stack_mk, stack_mk]
  refine (pick_mk hpositive p _ _).trans ?_
  simp only [Grid.get_ofFn, decide_eq_true_eq]

theorem Elements.arrange {a minus plus : CplxTensor} {ea eminus eplus : Index u → CplxTensor}
    (ha : a.Elements u ea) (hminus : minus.Elements u eminus) (hplus : plus.Elements u eplus)
    (hp : plus.precision = minus.precision) (hfits : u.Fits minus.shape) (hfits' : u.Fits plus.shape) :
    ∃ (p : Precision) (g : Grid u (Row 2 (Cplx p.Elem))), a.arrange minus plus = .ok ⟨p, .ofRows ⟨u, g⟩⟩ ∧
      ∀ i, (ea i).arrange (eminus i) (eplus i) = .ok ⟨p, .ofRows (.single (g.get i))⟩ := by
  obtain ⟨p, x⟩ := minus
  obtain ⟨q, y⟩ := plus
  obtain rfl : q = p := hp
  obtain ⟨f, hf, hea⟩ := ha
  obtain ⟨fm, hfm, hem⟩ := hminus
  obtain ⟨fp, hfp, hep⟩ := hplus
  have hx : x = ⟨u, .ofFn u fm⟩ := hfm.eq_of_fits hfits
  have hy : y = ⟨u, .ofFn u fp⟩ := hfp.eq_of_fits hfits'
  have hall := congrArg₂ (fun x y => a.arrange ⟨q, x⟩ ⟨q, y⟩) hx hy
  refine ⟨q, _, hall.trans (arrange_eq hf q _ _), fun i => ?_⟩
  rw [hea, hem, hep, Grid.get_ofFn, Grid.get_ofFn, Grid.get_ofFn]
  have hread : (Batch.single (f i)).Reads [] fun _ => f i := ⟨trivial, fun _ => rfl⟩
  exact arrange_eq (a := ⟨a.precision, .single (f i)⟩) hread q (fm i) (fp i)

end Arrangement

theorem quadraticRoots_of_steps {a b c square product disc low high minus plus : CplxTensor}
    (hsquare : (b.divFloat 2).mul (b.divFloat 2) = .ok square) (hproduct : a.mul c = .ok product)
    (hdisc : square.sub product = .ok disc) (hlow : (b.divFloat 2).neg.sub (disc.power 0.5) = .ok low)
    (hhigh : (b.divFloat 2).neg.add (disc.power 0.5) = .ok high) (hminus : low.div a = .ok minus)
    (hplus : high.div a = .ok plus) : quadraticRoots a b c = arrange a minus plus := by
  simp only [quadraticRoots, arrange, hsquare, hproduct, hdisc, hlow, hhigh, hminus, hplus, bind, Except.bind]

theorem combine_single (p : Precision) (op : {p : Precision} → Cplx p.Elem → Cplx p.Elem → Cplx p.Elem)
    (x y : Cplx p.Elem) : combine op ⟨p, .single x⟩ ⟨p, .single y⟩ = .ok ⟨p, .single (op x y)⟩ := by
  cases p <;> rfl

theorem div_single (p : Precision) (x y : Cplx p.Elem) :
    div ⟨p, .single x⟩ ⟨p, .single y⟩ = .ok ⟨p, .single (x / y)⟩ := by
  cases p <;> rfl

theorem quadraticRoots_single (p : Precision) (a b c : Cplx p.Elem) :
    quadraticRoots ⟨p, .single a⟩ ⟨p, .single b⟩ ⟨p, .single c⟩ =
      .ok ⟨p, .ofRows (.single (Solve.quadraticComplex a b c))⟩ := by
  let k := b.divReal (p.ofFloat 2)
  let s := (k * k - a * c).power (p.ofFloat 0.5)
  let minus := (-k - s) / a
  let plus := (-k + s) / a
  have hclosed : Solve.quadraticComplex a b c = if 0 < a.re then pair minus plus else pair plus minus := by
    simp only [minus, plus, s, k, p.ofFloat_half, p.ofFloat_two]
    rfl
  have hsteps : quadraticRoots ⟨p, .single a⟩ ⟨p, .single b⟩ ⟨p, .single c⟩ =
      arrange ⟨p, .single a⟩ ⟨p, .single minus⟩ ⟨p, .single plus⟩ :=
    quadraticRoots_of_steps (combine_single p (· * ·) k k) (combine_single p (· * ·) a c)
      (combine_single p (· - ·) (k * k) (a * c)) (combine_single p (· - ·) (-k) s)
      (combine_single p (· + ·) (-k) s) (div_single p (-k - s) a) (div_single p (-k + s) a)
  have hread : (Batch.single a).Reads [] fun _ => a := ⟨trivial, fun _ => rfl⟩
  rw [hsteps, hclosed]
  exact arrange_eq (a := ⟨p, .single a⟩) hread p minus plus

/-- Beside a coefficient with axes none without axes may be wider. This is asked of the outer
coefficients, and of the middle one beside their product. -/
theorem quadraticRoots_elements (a b c : CplxTensor) (hac : a.standing.Compatible c.standing)
    (hb : b.standing.Compatible (a.standing.meet c.standing)) {ea eb ec : Index u → CplxTensor}
    (ha : a.Elements u ea) (hb' : b.Elements u eb) (hc : c.Elements u ec)
    (h : Shape.join₃ a.shape b.shape c.shape = some u) :
    ∃ (p : Precision) (g : Grid u (Row 2 (Cplx p.Elem))), quadraticRoots a b c = .ok ⟨p, .ofRows ⟨u, g⟩⟩ ∧
      ∀ i, quadraticRoots (ea i) (eb i) (ec i) = .ok ⟨p, .ofRows (.single (g.get i))⟩ := by
  let halved (p : Precision) (z : Cplx p.Elem) : Cplx p.Elem := z.divReal (p.ofFloat 2)
  let power (p : Precision) (z : Cplx p.Elem) : Cplx p.Elem := z.power (p.ofFloat 0.5)
  let opposite (p : Precision) (z : Cplx p.Elem) : Cplx p.Elem := -z
  have hk := hb'.onNumbers halved
  obtain ⟨square, esquare, hsquare, hsquare', hsquares, rsquare⟩ := hk.combine (· * ·) hk (.refl _)
  obtain ⟨product, eproduct, hproduct, hproduct', hproducts, rproduct⟩ := ha.combine (· * ·) hc hac
  have hstanding : square.standing = b.standing := rsquare.standing.trans (Standing.meet_self b.standing)
  have hbproduct : b.standing.Compatible product.standing := rproduct.standing.symm ▸ hb
  obtain ⟨disc, edisc, hdisc, hdisc', hdiscs, rdisc⟩ :=
    hsquares.combine (· - ·) hproducts (hstanding.symm ▸ hbproduct)
  have hdiscStanding : disc.standing = b.standing.meet product.standing := hstanding ▸ rdisc.standing
  have hbdisc : b.standing.Compatible disc.standing := by
    rw [hdiscStanding]
    exact hbproduct.meet (.refl _) hbproduct
  have hroot := hdiscs.onNumbers power
  have hneg := hk.onNumbers opposite
  obtain ⟨low, elow, hlow, hlow', hlows, rlow⟩ := hneg.combine (· - ·) hroot hbdisc
  obtain ⟨high, ehigh, hhigh, hhigh', hhighs, rhigh⟩ := hneg.combine (· + ·) hroot hbdisc
  have hsum : (b.standing.meet disc.standing).Compatible a.standing := by
    rw [hdiscStanding, rproduct.standing]
    exact hac.numerator hb
  obtain ⟨minus, eminus, hminus, hminus', hminuses, rminus⟩ := hlows.div ha (rlow.standing ▸ hsum)
  obtain ⟨plus, eplus, hplus, hplus', hpluses, rplus⟩ := hhighs.div ha (rhigh.standing ▸ hsum)
  have hprecision : plus.precision = minus.precision := by
    have hstandings : plus.standing = minus.standing := by
      rw [rplus.standing, rminus.standing, rhigh.standing, rlow.standing]
    exact congrArg Standing.precision hstandings
  -- all three coefficients have gone into a quotient of a sum with `disc`
  have hfits {sum t : CplxTensor} (hs : Result ((b.onNumbers halved).onNumbers opposite)
      (disc.onNumbers power) sum) (ht : Result sum a t) : u.Fits t.shape := by
    apply Shape.join₃_least h ht.right (Shape.fits_trans hs.left ht.left)
    exact Shape.fits_trans (Shape.fits_trans rproduct.right rdisc.right) (Shape.fits_trans hs.right ht.left)
  obtain ⟨p, g, hall, heach⟩ := ha.arrange hminuses hpluses hprecision (hfits rlow rminus) (hfits rhigh rplus)
  have hbatch := quadraticRoots_of_steps hsquare hproduct hdisc hlow hhigh hminus hplus
  have hone (i : Index u) := quadraticRoots_of_steps (hsquare' i) (hproduct' i) (hdisc' i) (hlow' i)
    (hhigh' i) (hminus' i) (hplus' i)
  exact ⟨p, g, hbatch.trans hall, fun i => (hone i).trans (heach i)⟩

end CplxTensor

end PolyRoots
