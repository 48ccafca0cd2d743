import PolyRoots.Coeffs.Basic

universe u v

namespace PolyRoots

namespace Coeffs

variable {α : Type u} {β : Type v}

def fallingFactor [One α] [Sub α] [Mul α] [NatCast α] (i k : Nat) : α :=
  (List.range k).foldl (fun f (j : Nat) => f * ((i : α) - (j : α))) 1

def derivative [Zero α] [One α] [Sub α] [Mul α] [NatCast α] (k : Nat) (p : List α) : List α :=
  if k = 0 then p
  else if p.length ≤ k then [0]
  else (p.drop k).mapIdx fun i c => c * fallingFactor (i + k) k

def antiderivative [Div α] [NatCast α] (c : α) (p : List α) : List α :=
  c :: p.mapIdx fun i a => a / ((i + 1 : Nat) : α)

/-- The integral from `a` to `b`, term by term. Quotients are taken after `conv`, since the
coefficients may be of a kind that is not closed under division. -/
def integral [Sub α] [Mul α] [Zero β] [Add β] [Div β] [NatCast β] (raise : α → Nat → α)
    (conv : α → β) (p : List α) (a b : α) : β :=
  (p.mapIdx fun i c =>
    conv (c * (raise b (i + 1) - raise a (i + 1))) / ((i + 1 : Nat) : β)).foldl (· + ·) 0

def derivativeLength (k w : Nat) : Nat := if k = 0 then w else if w ≤ k then 1 else w - k

theorem length_derivative [Zero α] [One α] [Sub α] [Mul α] [NatCast α] (k : Nat) (p : List α) :
    (derivative k p).length = derivativeLength k p.length := by
  unfold derivative derivativeLength
  split
  · rfl
  · split <;> simp

theorem length_derivative_one [Zero α] [One α] [Sub α] [Mul α] [NatCast α] {p : List α}
    (h : 1 < p.length) : (derivative 1 p).length = p.length - 1 := by
  rw [length_derivative, derivativeLength, if_neg (by omega), if_neg (by omega)]

@[simp]
theorem length_antiderivative [Div α] [NatCast α] (c : α) (p : List α) :
    (antiderivative c p).length = p.length + 1 := by
  simp [antiderivative]

end Coeffs

end PolyRoots
