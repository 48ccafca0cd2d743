import PolyRoots.Cplx.Batch
import PolyRoots.Fault
import PolyRoots.Grid.Tensor
import PolyRoots.Poly.Basic

namespace PolyRoots

structure CplxTensor where
  precision : Precision
  cells : Batch (Cplx precision.Elem)

structure Standing where
  precision : Precision
  hasAxes : Bool

/-- The standing of a result of two operands. If only one of them has axes, it decides the
precision; otherwise the wider precision wins. -/
def Standing.meet (s t : Standing) : Standing where
  precision :=
    if s.hasAxes == t.hasAxes then s.precision.join t.precision
    else if s.hasAxes then s.precision else t.precision
  hasAxes := s.hasAxes || t.hasAxes

namespace CplxTensor

def standing (z : CplxTensor) : Standing := ⟨z.precision, z.cells.hasAxes⟩

def cast (z : CplxTensor) (p : Precision) : Batch (Cplx p.Elem) :=
  z.cells.map (Cplx.map (z.precision.convert p))

def re (z : CplxTensor) : Tensor := .ofReal (z.cells.map (·.re))

def im (z : CplxTensor) : Tensor := .ofReal (z.cells.map (·.im))

def ofParts (re im : Tensor) : Except Fault CplxTensor := do
  let cells ← fitted
    (Batch.zipWith? Cplx.mk (re.cast (.real .double)) (im.cast (.real .double)))
  return ⟨.double, cells⟩

def common (z w : CplxTensor) : Precision := (z.standing.meet w.standing).precision

def combine (op : {p : Precision} → Cplx p.Elem → Cplx p.Elem → Cplx p.Elem)
    (z w : CplxTensor) : Except Fault CplxTensor := do
  let p := common z w
  return ⟨p, ← fitted (Batch.zipWith? op (z.cast p) (w.cast p))⟩

def add : CplxTensor → CplxTensor → Except Fault CplxTensor := combine (· + ·)

def sub : CplxTensor → CplxTensor → Except Fault CplxTensor := combine (· - ·)

def mul : CplxTensor → CplxTensor → Except Fault CplxTensor := combine (· * ·)

/-- The quotient. The squared magnitude of the divisor is taken in the divisor's precision. -/
def div (z w : CplxTensor) : Except Fault CplxTensor := do
  let p := common z w
  let divisors := w.cells.map fun v =>
    (v.map (w.precision.convert p), w.precision.convert p v.normSq)
  return ⟨p, ← fitted
    (Batch.zipWith? (fun z (v, d) => Cplx.divBy z v d) (z.cast p) divisors)⟩

/-- The quotient by real numbers. Truth values and integers take the precision of the dividend. -/
def divReal (z : CplxTensor) (x : Tensor) : Except Fault CplxTensor := do
  let p := match x.format with
    | .flag | .int64 => z.precision
    | .real q => (z.standing.meet ⟨q, x.cells.hasAxes⟩).precision
  return ⟨p, ← fitted (Batch.zipWith? Cplx.divReal (z.cast p) (x.cast (.real p)))⟩

def divFloat (z : CplxTensor) (x : Float) : CplxTensor :=
  ⟨z.precision, z.cells.map (·.divReal (z.precision.ofFloat x))⟩

def neg (z : CplxTensor) : CplxTensor := ⟨z.precision, z.cells.map (- ·)⟩

def abs (z : CplxTensor) : Tensor := .ofReal (z.cells.map Cplx.abs)

def angle (z : CplxTensor) : Tensor := .ofReal (z.cells.map Cplx.angle)

def isNaN (z : CplxTensor) : Batch Bool := z.cells.map Cplx.isNaN

def isReal (z : CplxTensor) : Batch Bool := z.cells.map Cplx.isReal

def equal (z w : CplxTensor) : Except Fault (Batch Bool) :=
  let p := common z w
  fitted (Batch.zipWith? (· == ·) (z.cast p) (w.cast p))

def power (z : CplxTensor) (e : Float) : CplxTensor :=
  ⟨z.precision, z.cells.map (·.power (z.precision.ofFloat e))⟩

/-- The roots of degree `n`, along a new innermost axis. Up to degree four the whole result is
searched for roots of positive real numbers. -/
def roots (n : Int) (z : CplxTensor) : Except Fault CplxTensor :=
  if n < 1 then .error (.rootDegree n)
  else if n ≤ 4 ∧ searchableAxes < z.cells.shape.length + 1 then .error .tooManyAxes
  else do return ⟨z.precision, ← fitted (z.cells.roots? n.toNat)⟩

def stack (z w : CplxTensor) : Except Fault CplxTensor := do
  let p := common z w
  return ⟨p, ← fitted (Batch.stack? [z.cast p, w.cast p])⟩

def pick (c : Batch Bool) (z w : CplxTensor) : Except Fault CplxTensor := do
  let p := common z w
  return ⟨p, ← fitted (Batch.pick? c (z.cast p) (w.cast p))⟩

/-- The roots of quadratic equations, along a new innermost axis. The sign of the real part of `a`
decides which root comes first. -/
def quadraticRoots (a b c : CplxTensor) : Except Fault CplxTensor := do
  let k := b.divFloat 2
  let square ← k.mul k
  let root := (← square.sub (← a.mul c)).power 0.5
  let minus ← (← k.neg.sub root).div a
  let plus ← (← k.neg.add root).div a
  let positive := (a.cells.map fun a => decide (0 < a.re)).unsqueeze
  pick positive (← stack minus plus) (← stack plus minus)

def evaluate (p : Poly) (z : CplxTensor) : Except Fault CplxTensor :=
  if p.body.width = 0 then .error .noEntry
  else do return ⟨.double, ← fitted ((p.cast (.real .double)).evaluateCplx? (z.cast .double))⟩

end CplxTensor

end PolyRoots
