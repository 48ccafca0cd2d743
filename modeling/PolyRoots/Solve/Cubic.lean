import PolyRoots.Fault
import PolyRoots.Grid.Row
import PolyRoots.Cplx.Polar

universe u

namespace PolyRoots

namespace Solve

variable {α : Type u} [Zero α] [One α] [Add α] [Sub α] [Neg α] [Mul α] [Div α] [NatCast α] [BEq α]
  [LT α] [DecidableLT α] [LE α] [DecidableLE α] [Elementary α]

def cbrt (t : α) : α :=
  if 0 ≤ t then Elementary.pow t (1 / 3) else -Elementary.pow (-t) (1 / 3)

def cubicThree (a b s disc : α) : List α :=
  let w : Cplx α := Cplx.power ⟨-s / 2, Elementary.sqrt (-disc) / 2⟩ (1 / 3)
  let r := -w.re
  let i := Elementary.sqrt 3 * w.im
  let roots := [(r - i - b) / (3 * a), (r + i - b) / (3 * a), (2 * w.re - b) / (3 * a)]
  if a < 0 then roots.reverse else roots

def cubicRepeated (multiple : Bool) (a b u s t : α) : List α :=
  let x := (-b - t) / (3 * a)
  if s == 9 * a * u then if multiple then [x, x, x] else [x]
  else
    let single := (2 * t - b) / (3 * a)
    let double := if multiple then [x, x] else [x]
    if 0 < t * a then double ++ [single] else [single] ++ double

/-- The real roots in ascending order, each as often as its multiplicity if `multiple` is set. -/
def cubicReal (multiple : Bool) (a b c d : α) : Except Fault (List α) :=
  if a == 0 then .error (.zeroLeading .cubic)
  else
    let u := 3 * a * c - b * b
    let s := 2 * b * b * b - 9 * a * b * c + 27 * a * a * d
    let disc := 4 * u * u * u + s * s
    if disc < 0 then .ok (cubicThree a b s disc)
    else
      let q := Elementary.sqrt disc
      let t := cbrt ((-q - s) / 2)
      if disc != 0 then .ok [(t + cbrt ((q - s) / 2) - b) / (3 * a)]
      else .ok (cubicRepeated multiple a b u s t)

/-- The three complex roots. Of the two candidates for the radicand the one of larger magnitude is
taken, so it vanishes only for a triple root. -/
def cubicComplex (a b c d : α) : Except Fault (Row 3 (Cplx α)) :=
  if a == 0 then .error (.zeroLeading .cubic)
  else
    let a3 := 3 * a
    let u := a3 * c - b * b
    let s := 2 * b * b * b - 9 * a * b * c + 27 * a * a * d
    let root := (Cplx.ofReal (s * s + 4 * u * u * u)).power (1 / 2)
    let plus := root.divReal 2 - .ofReal (s / 2)
    let minus := (-root).divReal 2 - .ofReal (s / 2)
    let radicand := if plus.abs < minus.abs then minus else plus
    if radicand.abs == 0 then .ok ⟨List.replicate 3 (.ofReal (-b / a3)), rfl⟩
    else
      let w : Row 3 (Cplx α) := ⟨radicand.roots 3, Cplx.length_roots _ _⟩
      .ok (w.map fun w => (w - .ofReal u / w - .ofReal b).divReal a3)

end Solve

end PolyRoots
