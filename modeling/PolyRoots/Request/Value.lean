import PolyRoots.Cplx.Tensor
import PolyRoots.Poly.Division
import PolyRoots.Request.Operand
import PolyRoots.Solve.Newton

namespace PolyRoots

inductive HalfFormat where
  | float16
  | bfloat16
  deriving DecidableEq

inductive Storage where
  | full (f : Format)
  | half (h : HalfFormat)
  deriving DecidableEq

inductive Value where
  | plain (x : Nested)
  | float (x : Float)
  | integer (n : Int)
  | tensor (t : Tensor)
  | complex (z : CplxTensor)
  | poly (p : Poly)
  | halfPoly (h : HalfFormat) (p : Poly)
  | division (quotient remainder : Poly)
  /-- Real roots, and how many searches for them were unsettled. -/
  | found (roots : Tensor) (unsettled : Nat)
  | search (s : Solve.Search Float) (warnings : List String)
  | tolerances (imag : Float) (steps : Nat)

namespace Value

def mask (b : Batch Bool) : Value := tensor (.ofMask b)

def entry (f : Format) (x : Float) : Except Fault f.Elem :=
  match f.ofFloat? x with
  | some a => .ok a
  | none => .error .integerRange

/-- The value as numbers of a format. Complex tensors and polynomials count as empty sequences, a
quotient with its remainder as two of them. -/
def toBatch (f : Format) : Value → Except Fault (Batch f.Elem)
  | plain x => x.toBatch fun n => entry f n.toFloat
  | float x => do return .single (← entry f x)
  | integer n => do return .single (← entry f (Float.ofInt n))
  | tensor t => .ok (t.cast f)
  | complex _ | poly _ | halfPoly _ _ => .ok (.ofList [])
  | division _ _ => .ok (.fill [0, 2] default)
  | _ => .error .notNumeric

def toTensor (f : Format) : Value → Except Fault Tensor
  | tensor t => .ok t
  | v => do return ⟨f, ← v.toBatch f⟩

def complexNumber (re im : Value) : Except Fault CplxTensor := do
  let re ← re.toTensor (match im with
    | tensor t => t.format
    | _ => .real .double)
  let im ← im.toTensor re.format
  CplxTensor.ofParts re im

def asComplex : Value → Except Fault CplxTensor
  | complex z => .ok z
  | v => complexNumber v (float 0)

def complex? : Value → Except Fault CplxTensor
  | complex z => .ok z
  | _ => .error .wrongKind

def poly? : Value → Except Fault Poly
  | poly p => .ok p
  | halfPoly _ p => .ok p
  | _ => .error .wrongKind

def asPoly : Value → Except Fault Poly
  | poly p => .ok p
  | halfPoly _ p => .ok p
  | plain .absent => .error .noCoefficients
  | v => do Poly.ofTensor (← v.toTensor (.real .double))

def part : Part → Value → Except Fault Value
  | .quotient, division q _ => .ok (poly q)
  | .remainder, division _ r => .ok (poly r)
  | .re, complex z => .ok (tensor z.re)
  | .im, complex z => .ok (tensor z.im)
  | .coeffs, poly p => .ok (tensor p.coeffs)
  | .coeffs, halfPoly _ p => .ok (tensor p.coeffs)
  | .roots, found roots _ => .ok (tensor roots)
  | _, _ => .error .wrongKind

def literal (f : Format) (x : Nested) : Except Fault Tensor := do
  match f with
  | .int64 =>
    return ⟨.int64, ← x.toBatch fun n =>
      match n.toInt64? with
      | some k => .ok k
      | none => .error .integerRange⟩
  | f => return ⟨f, ← x.toBatch fun n => entry f n.toFloat⟩

end Value

def Operand.value (past : Nat → Except Fault Value) : Operand → Except Fault Value
  | plain x => .ok (.plain x)
  | tensor f x => do return .tensor (← Value.literal f x)
  | complex re im => do
    let re ← re.value past
    let im ← im.value past
    return .complex (← Value.complexNumber re im)
  | poly coeffs => do return .poly (← (← coeffs.value past).asPoly)
  | ref step part => do
    let v ← past step
    match part with
    | none => return v
    | some part => v.part part

end PolyRoots
