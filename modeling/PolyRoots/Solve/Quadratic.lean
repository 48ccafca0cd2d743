import PolyRoots.Fault
import PolyRoots.Grid.Row
import PolyRoots.Cplx.Polar

universe u

namespace PolyRoots

namespace Solve

variable {α : Type u} [Zero α] [Add α] [Sub α] [Neg α] [Mul α] [Div α] [NatCast α] [LT α]
  [DecidableLT α] [Elementary α]

def quadraticReal [BEq α] (multiple : Bool) (a b c : α) : Except Fault (List α) :=
  if a == 0 then .error (.zeroLeading .quadratic)
  else
    let k := b / 2
    let disc := k * k - a * c
    if disc < 0 then .ok []
    else if multiple || disc != 0 then
      let s := Elementary.sqrt disc
      if 0 < a then .ok [(-k - s) / a, (-k + s) / a] else .ok [(-k + s) / a, (-k - s) / a]
    else .ok [-k / a]

/-- The two complex roots. For `a` with positive real part the one with the negative square root
comes first. -/
def quadraticComplex [One α] (a b c : Cplx α) : Row 2 (Cplx α) :=
  let k := b.divReal 2
  let s := (k * k - a * c).power (1 / 2)
  let minus := (-k - s) / a
  let plus := (-k + s) / a
  if 0 < a.re then ⟨[minus, plus], rfl⟩ else ⟨[plus, minus], rfl⟩

end Solve

end PolyRoots
