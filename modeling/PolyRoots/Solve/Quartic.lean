import PolyRoots.Solve.Quadratic
import PolyRoots.Solve.Cubic

universe u

namespace PolyRoots

namespace Solve

variable {α : Type u} [Zero α] [One α] [Add α] [Sub α] [Neg α] [Mul α] [Div α] [NatCast α] [BEq α]
  [LT α] [DecidableLT α] [LE α] [DecidableLE α] [Elementary α]

def quotient (x d : α) : Except Fault α :=
  if d == 0 then .error .zeroDenominator else .ok (x / d)

/-- The depressed quartic `y⁴ + p y² + q y + r`. -/
structure Depressed (α : Type u) where
  p : α
  q : α
  r : α

def depress (a b c d e : α) : Except Fault (Depressed α) := do
  let a2 := a * a
  let p ← quotient (8 * a * c - 3 * b * b) (8 * a2)
  let q ← quotient (8 * a2 * d + b * b * b - 4 * a * b * c) (8 * a2 * a)
  let r ← quotient
    (16 * a * b * b * c - 64 * a2 * b * d - 3 * b * b * b * b + 256 * a2 * a * e)
    (256 * a2 * a2)
  return ⟨p, q, r⟩

def Depressed.resolventTerm (f : Depressed α) : α := (f.p * f.p - 4 * f.r) / 16

def biquadraticSums (h : Row 2 (Cplx α)) : Row 4 (Cplx α) :=
  let z := h.get 0
  let w := h.get 1
  ⟨[-z - w, z - w, -z + w, z + w], rfl⟩

/-- The four sums of `± h₀`, `± h₁` and `± h₂` with an even number of minus signs. -/
def resolventSums (h : Row 3 (Cplx α)) : Row 4 (Cplx α) :=
  let z := h.get 0
  let w := h.get 1
  let v := h.get 2
  ⟨[z + w + v, z - w - v, -z + w - v, -z - w + v], rfl⟩

def scaleReal (x : α) (z : Cplx α) : Cplx α := z.map (x * ·)

def quarticComplex (a b c d e : α) : Except Fault (Row 4 (Cplx α)) :=
  if a == 0 then .error (.zeroLeading .quartic)
  else do
    let f ← depress a b c d e
    let shift (z : Cplx α) : Cplx α := ⟨z.re + -b / (4 * a), z.im⟩
    if f.q == 0 then
      let squares := quadraticComplex (.ofReal 1) (.ofReal (f.p / 2)) (.ofReal f.resolventTerm)
      return (biquadraticSums (squares.map (·.power (1 / 2)))).map shift
    else
      let squares ← cubicComplex 1 (f.p / 2) f.resolventTerm (-f.q * f.q / 64)
      let h := squares.map (·.power (1 / 2))
      let product := h.get 0 * h.get 1 * h.get 2
      let sign : α := if product.re / f.q < 0 then 1 else -1
      return (resolventSums h).map fun z => shift (scaleReal sign z)

/-- Ascending order in which undefined values come last. -/
def ascending [Extended α] (x y : α) : Bool :=
  Extended.isNaN y || (!Extended.isNaN x && !decide (y < x))

/-- The real parts, in ascending order, of the complex roots whose imaginary part is below `tol` in
magnitude. -/
def quarticReal [Extended α] (tol a b c d e : α) : Except Fault (List α) := do
  let z ← quarticComplex a b c d e
  return ((z.toList.filter fun z => decide (magnitude z.im < tol)).map (·.re)).mergeSort ascending

end Solve

end PolyRoots
