import PolyRoots.Coeffs.Calculus
import PolyRoots.Coeffs.Evaluate
import PolyRoots.Solve.Newton
import PolyRoots.Solve.Quartic

universe u

namespace PolyRoots

namespace Solve

variable {α : Type u}

/-- Root candidates in order, and how many of the searches behind them were unsettled. -/
structure Found (α : Type u) where
  roots : List α
  unsettled : Nat

/-- Adds values one by one, leaving out those that compare equal to one already present. -/
def insertNew [BEq α] (l : List α) (xs : List α) : List α :=
  xs.foldl (fun l x => if l.any (· == x) then l else l ++ [x]) l

/-- Goes through the brackets between neighbouring breakpoints. A root at the right end of a bracket
is also the left end of the next one, which is then skipped; it counts twice if it is critical and
repeated roots are wanted. -/
def scan [BEq α] (find : α → α → Search α) (multiple : Bool) (critical : List α) :
    List α → Found α
  | a :: b :: rest =>
    let s := find a b
    let missed := if s.settled then 0 else 1
    match s.root with
    | none =>
      let f := scan find multiple critical (b :: rest)
      ⟨f.roots, missed + f.unsettled⟩
    | some x =>
      if x == b then
        let f := scan find multiple critical rest
        let copies := if multiple && critical.any (· == b) then [x, x] else [x]
        ⟨copies ++ f.roots, missed + f.unsettled⟩
      else
        let f := scan find multiple critical (b :: rest)
        ⟨x :: f.roots, missed + f.unsettled⟩
  | _ => ⟨[], 0⟩

variable [Zero α] [One α] [Add α] [Sub α] [Neg α] [Mul α] [Div α] [NatCast α] [BEq α] [LT α]
  [DecidableLT α] [LE α] [DecidableLE α] [Elementary α] [Extended α]

/-- The ends of the brackets: both infinities and the finite candidates, in ascending order. -/
def breakpoints (candidates : List α) : List α :=
  (insertNew [-Extended.infinity, Extended.infinity]
    (candidates.filter Extended.isFinite)).mergeSort ascending

/-- The roots of a polynomial of degree at most four, given up to its leading coefficient. -/
def closedForm (tol : α) (multiple : Bool) : List α → Except Fault (List α)
  | [b, a] => .ok [-b / a]
  | [c, b, a] => quadraticReal multiple a b c
  | [d, c, b, a] => cubicReal multiple a b c d
  | [e, d, c, b, a] => quarticReal tol a b c d e
  | _ => .ok []

/-- The scan for the roots of `p`, given those of its first two derivatives. These split the line into
intervals on which `p` is monotone and keeps the sense of its curvature. -/
def scanned (multiple : Bool) (p : List α) (critical inflection : Found α) : Found α :=
  let find (a b : α) :=
    search (Coeffs.evaluate p) (Coeffs.evaluate (Coeffs.derivative 1 p)) a b defaultSteps
  let found := scan find multiple critical.roots (breakpoints (critical.roots ++ inflection.roots))
  ⟨found.roots, critical.unsettled + inflection.unsettled + found.unsettled⟩

/-- The real roots of a polynomial in ascending order. For degree four `tol` bounds the imaginary
part of what counts as real, and roots are repeated whatever `multiple` says. -/
def realRoots (tol : α) (multiple : Bool) (p : List α) : Except Fault (Found α) :=
  if _h : Coeffs.degree p < 5 then do
    return ⟨← closedForm tol multiple (p.take (Coeffs.degree p + 1)), 0⟩
  else do
    let d₁ := Coeffs.derivative 1 p
    let critical ← realRoots tol true d₁
    let inflection ← realRoots tol true (Coeffs.derivative 1 d₁)
    return scanned multiple p critical inflection
termination_by p.length
decreasing_by
  · have := Coeffs.degree_le_length p
    rw [Coeffs.length_derivative_one (by omega)]
    omega
  · have := Coeffs.degree_le_length p
    have h := Coeffs.length_derivative_one (p := p) (by omega)
    rw [Coeffs.length_derivative_one (by omega)]
    omega

def realRootsAt (tol : α) (multiple : Bool) (n : Nat) (p : List α) : Except Fault (Found α) :=
  if n < 5 then do return ⟨← closedForm tol multiple (p.take (n + 1)), 0⟩
  else do
    let d₁ := Coeffs.derivative 1 p
    let critical ← realRoots tol true d₁
    let inflection ← realRoots tol true (Coeffs.derivative 1 d₁)
    return scanned multiple p critical inflection

end Solve

end PolyRoots
