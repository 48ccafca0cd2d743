import PolyRoots.Coeffs.Basic

universe u

namespace PolyRoots

namespace Coeffs

variable {α : Type u}

/-- The state of Horner's rule: the current value and the final one if it has overflowed. -/
structure Horner (α : Type u) where
  value : α
  fixed : Option α

namespace Horner

/-- The step to the coefficient `a` of index `i`. As long as only zeros were met nothing is
multiplied, since a zero times an infinite `x` is undefined. An overflow at index `i` stands for the
sign of the value times the `i`-th power of `x`. -/
def step [Zero α] [BEq α] [Add α] [Mul α] [Extended α] (x : α) (i : Nat) (a : α) (h : Horner α) :
    Horner α :=
  let v := if h.value == 0 then a else h.value * x + a
  let limit := if i % 2 = 0 then v else v * Extended.sign x
  ⟨v, h.fixed.or (if Extended.isInf v then some limit else none)⟩

def run [Zero α] [BEq α] [Add α] [Mul α] [Extended α] (x : α) : Nat → List α → Horner α
  | _, [] => ⟨0, none⟩
  | i, a :: p => step x i a (run x (i + 1) p)

def result (h : Horner α) : α := h.fixed.getD h.value

end Horner

def evaluate [Zero α] [BEq α] [Add α] [Mul α] [Extended α] (p : List α) (x : α) : α :=
  if Extended.isNaN x then Extended.nan else (Horner.run x 0 p).result

end Coeffs

end PolyRoots
