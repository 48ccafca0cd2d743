import PolyRoots.Cplx.Polar
import PolyRoots.Grid.Batch

universe u

namespace PolyRoots

namespace Batch

open Elementary

variable {α : Type u} [Zero α] [One α] [Add α] [Neg α] [Mul α] [Div α] [NatCast α] [BEq α] [LT α]
  [DecidableLT α] [Elementary α]

def polarRoots? (n : Nat) (z : Batch (Cplx α)) : Option (Batch (Cplx α)) := do
  let magnitude := z.map fun z => pow z.normSq (1 / 2 / (n : α))
  let turns := ofRow (.ofFn fun k : Fin n => 2 * pi * (k.val : α))
  let phi ← zipWith? (fun a t => (a + t) / (n : α)) (z.map Cplx.angle).unsqueeze turns
  zipWith? Cplx.polar magnitude.unsqueeze phi

/-- The roots of degree `n`, along a new innermost axis. If there is a positive real number anywhere,
the closed forms are computed everywhere and replace the roots of such numbers. -/
def roots? (n : Nat) (z : Batch (Cplx α)) : Option (Batch (Cplx α)) := do
  let polar ← z.polarRoots? n
  let positive := (z.map fun z => z.im == 0 && 0 < z.re).unsqueeze
  if n ≤ 4 && positive.any then
    let r := z.map fun z => pow z.re (1 / (n : α))
    pick? positive (← stack? ((Cplx.axisFormulas n).map r.map)) polar
  else return polar

end Batch

end PolyRoots
