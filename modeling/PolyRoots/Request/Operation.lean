import PolyRoots.Request.Value

namespace PolyRoots

inductive CplxFn where
  | neg
  | abs
  | isNaN
  | isReal
  | angle
  | power (e : Float)
  | roots (n : Int)

inductive CplxFn₂ where
  | add
  | sub
  | mul
  | div
  | equal

inductive PolyFn where
  | same
  | degree
  | leadingCoefficient
  | neg
  | trim (tol : Float)
  | pow (n : Int)
  | derivative (order : Int)
  | realRoots (multiple : Bool)

inductive PolyFn₂ where
  | add
  | sub
  | mul
  | divMod
  | div
  | mod
  | compose
  | equal (tol : Float)
  | search (a b : Float) (maxiter : Int)

inductive ClosedForm where
  | quadraticReal (a b c : Float) (multiple : Bool)
  | cubicReal (a b c d : Float) (multiple : Bool)
  | cubicComplex (a b c d : Float)
  | quarticReal (a b c d e : Float) (tol : Option Float)
  | quarticComplex (a b c d e : Float)

inductive Symbol where
  | plus
  | minus
  | times
  | slash
  | floorDiv
  | percent

inductive Sign where
  | neg
  | pos
  | abs

inductive Exponent where
  | integer (n : Int)
  | real (x : Float)

inductive Operation where
  | complexNumber (re im : Operand)
  | cplx (fn : CplxFn) (z : Operand)
  | cplx₂ (fn : CplxFn₂) (z w : Operand)
  | poly (fn : PolyFn) (p : Operand)
  | poly₂ (fn : PolyFn₂) (p q : Operand)
  | scale (p c : Operand)
  | antiderivative (p constant : Operand)
  | integral (p a b : Operand)
  | evaluate (p x : Operand)
  | evaluateCplx (p z : Operand)
  | fromRoots (roots : Operand)
  | monomial (n : Int) (storage : Storage)
  | interpolate (x y : Operand)
  | closedForm (equation : ClosedForm)
  | quadraticComplex (a b c : Operand)
  | tolerances (storage : Storage)
  | binary (symbol : Symbol) (a b : Operand)
  | sign (symbol : Sign) (a : Operand)
  | power (a : Operand) (n : Exponent)
  | call (a b : Operand)

namespace Operation

def operands : Operation → List Operand
  | cplx _ z | poly _ z | fromRoots z | sign _ z | power z _ => [z]
  | complexNumber a b | cplx₂ _ a b | poly₂ _ a b | scale a b | antiderivative a b
  | evaluate a b | evaluateCplx a b | interpolate a b | binary _ a b | call a b => [a, b]
  | integral a b c | quadraticComplex a b c => [a, b, c]
  | monomial _ _ | closedForm _ | tolerances _ => []

/-- Whether the operation goes through angles or general powers, whose last digits are left open.
A symbol does so if its result is complex. -/
def isInexact (op : Operation) (result : Value) : Bool :=
  match op with
  | cplx .angle _ | cplx (.power _) _ | cplx (.roots _) _ => true
  | poly (.realRoots _) _ | integral _ _ _ | quadraticComplex _ _ _ => true
  | closedForm (.quadraticReal _ _ _ _) => false
  | closedForm _ => true
  | power _ _ => match result with
    | .complex _ => true
    | _ => false
  | _ => false

end Operation

end PolyRoots
