import PolyRoots.Coeffs.Division
import PolyRoots.Poly.Basic

namespace PolyRoots

namespace Poly

/-- Subtracts a row of results in place from the front entries of an accumulator. Results can only be
stored in a format of the same kind or of a later one. -/
def subInPlace {f g : Format} (acc : List f.Elem) (row : List g.Elem) : Except Fault (List f.Elem) :=
  if g.kind ≤ f.kind then
    .ok ((Coeffs.subFront (acc.map (f.convert g)) row).map (g.convert f))
  else .error .fractionalDigits

/-- The given number of division steps by `lead :: tail` in a format without fractions, highest
coefficient first. The digits are quotients in single precision, and so are their products. -/
def divLoopWhole (f : Format) (lead : f.Elem) (tail : List f.Elem) :
    Nat → List f.Elem → Except Fault (List f.Elem × List f.Elem)
  | 0, r => .ok ([], r)
  | _ + 1, [] => .ok ([], [])
  | n + 1, c :: r => do
    let g : Format := .real .single
    let digit : g.Elem := f.convert g c / f.convert g lead
    let r ← subInPlace (g := g) r (tail.map fun a => digit * f.convert g a)
    let (s, r) ← divLoopWhole f lead tail n r
    return (g.convert f digit :: s, r)

def divModWhole (f : Format) (m n : Nat) (p q : List f.Elem) : Except Fault (Poly × Poly) :=
  let single := f.convert (.real .single)
  if n = 0 then
    match q with
    | [] => .error .noEntry
    | c :: _ => do
      if c == 0 then throw .zeroDivisor
      let s ← ofList? (.real .single) (p.map fun a => single a / single c)
      return (s, ofList f [0])
  else if m < n then do
    return (ofList f [0], ← ofList? f p)
  else
    match (q.take (n + 1)).reverse with
    | [] => .error .noEntry
    | lead :: tail => do
      let (s, r) ← divLoopWhole f lead tail (m + 1 - n) (p.take (m + 1)).reverse
      return (← ofList? f s.reverse, ← ofList? f r.reverse)

def divModReal (r : Precision) (m n : Nat) (p q : List r.Elem) : Except Fault (Poly × Poly) :=
  if q.isEmpty then .error .noEntry
  else
    match Coeffs.divModAt? m n p q with
    | none => .error .zeroDivisor
    | some (s, t) => do
      return (← ofList? (.real r) s, ← ofList? (.real r) t)

def divModIn : (f : Format) → (m n : Nat) → List f.Elem → List f.Elem → Except Fault (Poly × Poly)
  | .flag => divModWhole .flag
  | .int64 => divModWhole .int64
  | .real r => divModReal r

/-- Quotient and remainder. The degrees are taken before the coefficients are converted. -/
def divMod (p q : Poly) : Except Fault (Poly × Poly) := do
  let a ← p.single .divmod
  let b ← q.single .divmod
  let f := p.format.join q.format
  divModIn f (Coeffs.degree a) (Coeffs.degree b) (a.map (p.format.convert f)) (b.map (q.format.convert f))

def div (p q : Poly) : Except Fault Poly := do return (← divMod p q).1

def mod (p q : Poly) : Except Fault Poly := do return (← divMod p q).2

end Poly

end PolyRoots
