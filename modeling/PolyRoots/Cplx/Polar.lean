import PolyRoots.Cplx.Basic

universe u

namespace PolyRoots

namespace Cplx

variable {α : Type u} [Elementary α]

open Elementary

def angle (z : Cplx α) : α := atan2 z.im z.re

def polar [Mul α] (r phi : α) : Cplx α := ⟨r * cos phi, r * sin phi⟩

def power [Add α] [Mul α] [Div α] [NatCast α] (z : Cplx α) (e : α) : Cplx α :=
  polar (pow z.normSq (e / 2)) (z.angle * e)

/-- The roots of degree one to four of a positive real number, each as a function of the positive root
that is free of rounding in the angles. -/
def axisFormulas [Zero α] [Neg α] [Mul α] [Div α] [NatCast α] : Nat → List (α → Cplx α)
  | 1 => [fun r => ⟨r, 0⟩]
  | 2 => [fun r => ⟨r, 0⟩, fun r => ⟨-r, 0⟩]
  | 3 => [fun r => ⟨r, 0⟩, fun r => ⟨-r / 2, sqrt 3 * r / 2⟩, fun r => ⟨-r / 2, -(sqrt 3 * r / 2)⟩]
  | 4 => [fun r => ⟨r, 0⟩, fun r => ⟨0, r⟩, fun r => ⟨-r, 0⟩, fun r => ⟨0, -r⟩]
  | _ => []

def axisRoots [Zero α] [Neg α] [Mul α] [Div α] [NatCast α] (r : α) (n : Nat) : List (Cplx α) :=
  (axisFormulas n).map (· r)

/-- The roots of degree `n`, the principal root first and then by increasing angle. -/
def polarRoots [One α] [Add α] [Mul α] [Div α] [NatCast α] (z : Cplx α) (n : Nat) :
    List (Cplx α) :=
  let r := pow z.normSq (1 / 2 / (n : α))
  (List.range n).map fun (k : Nat) => polar r ((z.angle + 2 * pi * (k : α)) / (n : α))

def roots [Zero α] [One α] [Add α] [Neg α] [Mul α] [Div α] [NatCast α] [BEq α] [LT α]
    [DecidableLT α] (z : Cplx α) (n : Nat) : List (Cplx α) :=
  if n ≤ 4 && z.im == 0 && 0 < z.re then axisRoots (pow z.re (1 / (n : α))) n
  else polarRoots z n

theorem length_roots [Zero α] [One α] [Add α] [Neg α] [Mul α] [Div α] [NatCast α] [BEq α] [LT α]
    [DecidableLT α] (z : Cplx α) (n : Nat) : (roots z n).length = n := by
  unfold roots
  split
  · rename_i h
    have hn : n ≤ 4 := by simp_all
    match n, hn with
    | 0, _ | 1, _ | 2, _ | 3, _ | 4, _ => rfl
  · simp [polarRoots]

end Cplx

end PolyRoots
