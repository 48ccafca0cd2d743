import PolyRoots.Fault.Message
import PolyRoots.Poly.Roots
import PolyRoots.Request.Operation

namespace PolyRoots

/-- The tolerance and the step count that suit a format. -/
def Storage.tolerances : Storage → Float × Nat
  | half _ => (1e-3, 50)
  | full (.real .single) => (1e-6, 100)
  | full _ => (Poly.imaginaryTolerance, Solve.defaultSteps)

namespace Value

def floats (l : List Float) : Value := tensor (Tensor.ofFloats l)

def axis {n : Nat} (r : Row n (Cplx Float)) : Value :=
  complex ⟨.double, (Batch.single r).ofRows⟩

end Value

def isWord (n : Int) : Bool := Int64.minValue.toInt ≤ n && n < UInt64.size

def CplxFn.run (fn : CplxFn) (v : Value) : Except Fault Value :=
  match fn with
  | neg => do return .complex (← v.complex?).neg
  | abs => do return .tensor (← v.complex?).abs
  | isNaN => do return .mask (← v.complex?).isNaN
  | isReal => do return .mask (← v.complex?).isReal
  | angle => do return .tensor (← v.complex?).angle
  | power e => do return .complex ((← v.complex?).power e)
  | roots n =>
    if n < 1 then .error (.rootDegree n)
    else do
      let z ← v.complex?
      if !isWord n then throw .wordRange
      if storableLength < n then throw .tooLarge
      return .complex (← z.roots n)

def CplxTensor.divValue (z : CplxTensor) (w : Value) : Except Fault CplxTensor :=
  match w with
  | .complex w => z.div w
  | .tensor t => z.divReal t
  | .plain (.number x) => .ok (z.divFloat x.toFloat)
  | .float x => .ok (z.divFloat x)
  | .integer n => .ok (z.divFloat (Float.ofInt n))
  | _ => .error .notNumeric

def CplxFn₂.run (fn : CplxFn₂) (v w : Value) : Except Fault Value :=
  match fn with
  | add => do return .complex (← (← v.asComplex).add (← w.asComplex))
  | sub => do return .complex (← (← v.asComplex).sub (← w.asComplex))
  | mul => do return .complex (← (← v.asComplex).mul (← w.asComplex))
  | div => do return .complex (← (← v.asComplex).divValue w)
  | equal => do return .mask (← (← v.complex?).equal (← w.complex?))

def PolyFn.run (fn : PolyFn) (p : Poly) : Except Fault Value :=
  match fn with
  | same => .ok (.poly p)
  | degree => do return .integer (← p.degree)
  | leadingCoefficient => do return .float (← p.leadingCoefficient)
  | neg => do return .poly (← p.neg)
  | trim tol => do return .poly (← p.trim tol)
  | pow n => do return .poly (← p.pow n)
  | derivative order => do return .poly (← p.derivative order)
  | realRoots multiple => do
    let f ← p.realRoots multiple
    return .found (.ofFloats f.roots) f.unsettled

def PolyFn₂.run (fn : PolyFn₂) (p q : Poly) : Except Fault Value :=
  match fn with
  | add => do return .poly (← p.add q)
  | sub => do return .poly (← p.sub q)
  | mul => do return .poly (← p.mul q)
  | divMod => do
    let (s, r) ← p.divMod q
    return .division s r
  | div => do return .poly (← p.div q)
  | mod => do return .poly (← p.mod q)
  | compose => do return .poly (← p.compose q)
  | equal tol => do return .mask (← Poly.equal tol p q)
  | search a b maxiter => do
    let s ← p.search q a b maxiter.toNat
    return .search s (if s.settled then [] else [unsettledText a b maxiter])

def ClosedForm.run : ClosedForm → Except Fault Value
  | quadraticReal a b c multiple => do return .floats (← Solve.quadraticReal multiple a b c)
  | cubicReal a b c d multiple => do return .floats (← Solve.cubicReal multiple a b c d)
  | cubicComplex a b c d => do return .axis (← Solve.cubicComplex a b c d)
  | quarticReal a b c d e tol => do
    return .floats (← Solve.quarticReal (tol.getD Poly.imaginaryTolerance) a b c d e)
  | quarticComplex a b c d e => do return .axis (← Solve.quarticComplex a b c d e)

/-- The polynomial times a value: a tensor with axes scales whole polynomials, anything else is
multiplied into the coefficients. -/
def Poly.scaleValue (p : Poly) (c : Value) : Except Fault Value :=
  match c with
  | .tensor t => do return .poly (← p.scaleTensor t)
  | c => do return .poly (← p.scaleCoeffs (← c.toBatch p.format))

/-- The values at points. What has no format takes that of the coefficients. -/
def Poly.evaluateValue (p : Poly) (x : Value) : Except Fault Value := do
  return .tensor (← p.evaluate (← x.toTensor p.format))

def Storage.monomial (storage : Storage) (n : Int) : Except Fault Value :=
  if n < 0 then .error (.negativeDegree n)
  else if Int64.maxValue.toInt ≤ n then .error .lengthRange
  else if storableLength ≤ n then .error .tooLarge
  else
    .ok <| match storage with
    | .full f => .poly (.ofList f (Coeffs.monomial n.toNat))
    | .half h => .halfPoly h (.ofList (.real .single) (Coeffs.monomial n.toNat))

/-- A symbol between two values. A complex value on either side decides for complex arithmetic,
otherwise a polynomial decides; sums and differences then need polynomials on both sides, while any
value can scale a polynomial. -/
def Symbol.run (s : Symbol) (v w : Value) : Except Fault Value :=
  match v, w with
  | .complex _, _ => cplx v w
  | .poly p, .poly q =>
    match s with
    | plus => PolyFn₂.add.run p q
    | minus => PolyFn₂.sub.run p q
    | times => PolyFn₂.mul.run p q
    | floorDiv => PolyFn₂.div.run p q
    | percent => PolyFn₂.mod.run p q
    | slash => .error .notNumeric
  | .poly p, _ =>
    match s with
    | plus | minus => .error .wrongKind
    | times => p.scaleValue w
    | floorDiv | percent => do
      let _ ← p.single .divmod
      throw .wrongKind
    | slash => .error .notNumeric
  | _, .complex _ => cplx v w
  | _, .poly q =>
    match s with
    | plus | minus => .error .wrongKind
    | times => q.scaleValue v
    | _ => .error .notNumeric
  | _, _ => .error .notNumeric
where
  cplx (v w : Value) : Except Fault Value :=
    match s with
    | plus => CplxFn₂.add.run v w
    | minus => CplxFn₂.sub.run v w
    | times => CplxFn₂.mul.run v w
    | slash => CplxFn₂.div.run v w
    | floorDiv | percent => .error .notNumeric

def Sign.run (s : Sign) (v : Value) : Except Fault Value :=
  match s, v with
  | neg, .complex z => .ok (.complex z.neg)
  | neg, .poly p => PolyFn.neg.run p
  | pos, .complex z => .ok (.complex z)
  | abs, .complex z => .ok (.tensor z.abs)
  | _, _ => .error .notNumeric

/-- A power by symbol. A polynomial takes integer exponents, or zero and one in any form. -/
def Exponent.run (n : Exponent) (v : Value) : Except Fault Value :=
  match v, n with
  | .complex z, integer n =>
    if isWord n then .ok (.complex (z.power (Float.ofInt n))) else .error .wordRange
  | .complex z, real x => .ok (.complex (z.power x))
  | .poly p, integer n => PolyFn.run (.pow n) p
  | .poly p, real x =>
    if x < 0 then .error (.negativeRealExponent x)
    else if x == 0 then PolyFn.run (.pow 0) p
    else if x == 1 then PolyFn.run (.pow 1) p
    else .error .notNumeric
  | _, _ => .error .notNumeric

def Value.apply (v x : Value) : Except Fault Value :=
  match v.poly? with
  | .ok p => p.evaluateValue x
  | .error _ => .error .notFunction

def Operation.run (past : Nat → Except Fault Value) (op : Operation) : Except Fault Value :=
  let value (x : Operand) : Except Fault Value := x.value past
  let asPoly (x : Operand) : Except Fault Poly := do (← x.value past).asPoly
  match op with
  | complexNumber re im => do return .complex (← Value.complexNumber (← value re) (← value im))
  | cplx fn z => do fn.run (← value z)
  | cplx₂ fn z w => do fn.run (← value z) (← value w)
  | poly fn p => do fn.run (← asPoly p)
  | poly₂ fn p q => do fn.run (← asPoly p) (← asPoly q)
  | scale p c => do (← asPoly p).scaleValue (← value c)
  | antiderivative p c => do
    let p ← asPoly p
    let c ← value c
    Poly.needsNumbers p.format .flagCount
    return .poly (← p.antiderivative (← c.toBatch p.format))
  | integral p a b => do
    let p ← asPoly p
    let a ← value a
    let b ← value b
    return .tensor (← p.integral (← a.toBatch p.format) (← b.toBatch p.format))
  | evaluate p x => do (← asPoly p).evaluateValue (← value x)
  | evaluateCplx p z => do
    let p ← asPoly p
    return .complex (← CplxTensor.evaluate p (← (← value z).complex?))
  | fromRoots roots => do
    return .poly (← Poly.fromRoots (← (← value roots).toTensor (.real .double)))
  | monomial n storage => storage.monomial n
  | interpolate x y => do
    let x ← value x
    let y ← value y
    let x ← x.toTensor (.real .double)
    return .poly (← Poly.interpolate x (← y.toTensor x.format))
  | closedForm equation => equation.run
  | quadraticComplex a b c => do
    let a ← value a
    let b ← value b
    let c ← value c
    return .complex
      (← CplxTensor.quadraticRoots (← a.asComplex) (← b.asComplex) (← c.asComplex))
  | tolerances storage => .ok (.tolerances storage.tolerances.1 storage.tolerances.2)
  | binary s a b => do s.run (← value a) (← value b)
  | sign s a => do s.run (← value a)
  | power a n => do n.run (← value a)
  | call a b => do (← value a).apply (← value b)

end PolyRoots
