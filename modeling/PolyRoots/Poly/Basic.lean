import PolyRoots.Fault
import PolyRoots.Poly.Batch
import PolyRoots.Grid.Tensor

namespace PolyRoots

/-- Polynomials whose coefficients carry a format. Two formats meet in their common format before
anything is computed, and quotients of integers are taken in single precision. -/
structure Poly where
  format : Format
  body : PolyBatch format.Elem

namespace Poly

/-- The coefficients as a tensor, whose innermost axis runs over the powers. -/
def coeffs (p : Poly) : Tensor := ⟨p.format, p.body.coeffs⟩

def ofTensor (t : Tensor) : Except Fault Poly :=
  match PolyBatch.ofCoeffs? t.cells with
  | none => .error .scalarCoefficients
  | some body => if body.isEmpty then .error .emptyCoefficients else .ok ⟨t.format, body⟩

def ofList (f : Format) (l : List f.Elem) : Poly := ⟨f, .ofList l⟩

def ofList? (f : Format) (l : List f.Elem) : Except Fault Poly :=
  if l.isEmpty then .error .emptyCoefficients else .ok (ofList f l)

def single (operation : SingleOnly) (p : Poly) : Except Fault (List p.format.Elem) :=
  match p.body.single? with
  | some l => .ok l
  | none => .error (.batched operation (p.body.width :: p.body.rows.shape))

def cast (p : Poly) (f : Format) : PolyBatch f.Elem := p.body.map (p.format.convert f)

def combine (op : {f : Format} → PolyBatch f.Elem → PolyBatch f.Elem → Option (PolyBatch f.Elem))
    (p q : Poly) : Except Fault Poly := do
  let f := p.format.join q.format
  return ⟨f, ← fitted (op (p.cast f) (q.cast f))⟩

def needsNumbers (f : Format) (fault : Fault) : Except Fault Unit :=
  if f = .flag then .error fault else .ok ()

def neg (p : Poly) : Except Fault Poly := do
  needsNumbers p.format .flagDifference
  return ⟨p.format, p.body.neg⟩

def add (p q : Poly) : Except Fault Poly := combine PolyBatch.add? p q

def sub (p q : Poly) : Except Fault Poly := do
  needsNumbers (p.format.join q.format) .flagDifference
  combine PolyBatch.sub? p q

/-- Two factors without any coefficients have no product, since its length would be negative. -/
def mul (p q : Poly) : Except Fault Poly :=
  if p.body.width + q.body.width = 0 then .error .shapes else combine PolyBatch.mul? p q

def scale (c : Tensor) (p : Poly) : Except Fault Poly := do
  let f := p.format.join c.format
  return ⟨f, ← fitted ((p.cast f).scale? (c.cast f))⟩

def scaleCoeffs (p : Poly) (c : Batch p.format.Elem) : Except Fault Poly := do
  return ⟨p.format, ← fitted (p.body.scaleCoeffs? c)⟩

/-- The polynomial times a tensor. One with axes scales whole polynomials in the common format, any
other is multiplied into the coefficients in their format. -/
def scaleTensor (p : Poly) (c : Tensor) : Except Fault Poly :=
  if c.cells.hasAxes then p.scale c else p.scaleCoeffs (c.cast p.format)

def pow (p : Poly) (n : Int) : Except Fault Poly :=
  if n < 0 then .error (.negativeExponent n)
  else if n = 0 ∧ p.body.rows.shape.size = 0 then .error .emptyCoefficients
  else if p.body.width = 0 ∧ 1 < n then .error .shapes
  else do return ⟨p.format, ← fitted (p.body.pow? n.toNat)⟩

def column (p : Poly) (k : Fin p.body.width) : Tensor := ⟨p.format, p.body.column k⟩

/-- Adds the terms of the given columns of `p` to `sum`, the first of which goes with `power`. -/
def composeLoop (p u : Poly) : List (Fin p.body.width) → Poly → Poly → Except Fault Poly
  | [], _, sum => .ok sum
  | k :: ks, power, sum => do
    let sum ← sum.add (← power.scaleTensor (p.column k))
    if ks.isEmpty then return sum else composeLoop p u ks (← power.mul u) sum

/-- The composition `p(u(x))`. A single outer polynomial multiplies powers of `u` by its
coefficients in the format of `u`; the polynomials of a batch do so in the common format. -/
def compose (p u : Poly) : Except Fault Poly := do
  let sum ← ofTensor ⟨p.format, (p.body.take 1).coeffs⟩
  composeLoop p u (List.finRange p.body.width).tail u sum

def degree (p : Poly) : Except Fault Nat := do
  return Coeffs.degree (← p.single .degree)

def leadingCoefficient (p : Poly) : Except Fault Float := do
  let l ← p.single .leadingCoefficient
  match Coeffs.leading? l with
  | some c => return p.format.convert (.real .double) c
  | none => throw .noEntry

/-- The coefficients of low degree up to the last one that exceeds the tolerance in any polynomial
of the batch; one is always kept. -/
def trim (tol : Float) (p : Poly) : Except Fault Poly := do
  needsNumbers p.format .flagCount
  if p.body.width = 0 then throw .shapes
  return ⟨p.format, p.body.take (p.body.significantWidth (p.format.exceeds tol))⟩

/-- A result for which a batch with `extra` more axes was searched or summed. -/
def searched {α : Type} (extra : Nat) (b : Batch α) : Except Fault (Batch α) :=
  if searchableAxes < b.shape.length + extra then .error .tooManyAxes else .ok b

/-- Whether two polynomials agree up to a tolerance, for each place of the common batch. The
difference is taken before the formats meet, so neither may consist of truth values. -/
def equal (tol : Float) (p q : Poly) : Except Fault (Batch Bool) := do
  needsNumbers p.format .flagDifference
  needsNumbers q.format .flagDifference
  let f := p.format.join q.format
  searched 1 (← fitted ((p.cast f).agree? (f.within tol) (q.cast f)))

/-- The derivative of a given order. One that keeps some coefficients needs numbers as factors. -/
def derivative (order : Int) (p : Poly) : Except Fault Poly := do
  if order < 0 then throw (.negativeOrder order)
  if 0 < order ∧ order < p.body.width then needsNumbers p.format .flagCount
  return ⟨p.format, p.body.derivative order.toNat⟩

def antiderivative (p : Poly) (c : Batch p.format.Elem) : Except Fault Poly := do
  needsNumbers p.format .flagCount
  let q := p.format.quotients
  return ⟨.real q, ← fitted ((p.cast (.real q)).antiderivative?
    (c.map (p.format.convert (.real q))))⟩

def integral (p : Poly) (a b : Batch p.format.Elem) : Except Fault Tensor := do
  needsNumbers p.format .flagCount
  let q := p.format.quotients
  return .ofReal (← searched 1 (← fitted (p.body.integral? p.format.raise
    (p.format.convert (.real q)) a b)))

/-- The values at the given points. Integers alone have no undefined value, so a format of integers
is refused. With every coefficient the values are searched for an overflow. -/
def evaluate (p : Poly) (x : Tensor) : Except Fault Tensor :=
  match p.format.join x.format with
  | .int64 => .error .noUndefined
  | .flag => do return ⟨.flag, ← values ((p.cast .flag).evaluate (x.cast .flag))⟩
  | .real q => do
    return .ofReal (← values ((p.cast (.real q)).evaluate (x.cast (.real q))))
where
  values {α : Type} (b : Batch α) : Except Fault (Batch α) :=
    if p.body.width = 0 then .ok b else searched 0 b

def fromRoots (roots : Tensor) : Except Fault Poly :=
  match PolyBatch.ofCoeffs? roots.cells with
  | none => .error .noEntry
  | some body => do
    if body.width ≠ 0 then needsNumbers roots.format .flagDifference
    let p ← fitted body.fromRoots?
    if p.isEmpty then throw .emptyCoefficients
    return ⟨roots.format, p⟩

/-- The polynomial with the given values at the given nodes. Nodes are compared before they are
converted. -/
def interpolate (x y : Tensor) : Except Fault Poly :=
  if x.shape.length ≠ 1 ∨ y.shape.length ≠ 1 then .error (.notOneAxis x.shape y.shape)
  else if x.shape.size = 0 then .error .noNodes
  else if x.shape.size ≠ y.shape.size then .error (.unequalCounts x.shape.size y.shape.size)
  else if !Coeffs.distinct x.cells.toList then .error .repeatedNodes
  else
    let f := x.format.join y.format
    let xs := (x.cast f).toList
    let ys := (y.cast f).toList
    match f, xs, ys with
    | .flag, _, [y] => .ok (ofList .flag [0 + y])
    | .flag, _, _ => .error .flagDifference
    | .int64, _, [y] => .ok (ofList .int64 [0 + y])
    | f, xs, ys =>
      .ok (ofList (.real f.quotients)
        (Coeffs.interpolate (f.convert (.real f.quotients)) xs ys))

end Poly

end PolyRoots
