import PolyRoots.Coeffs.Basic

universe u v

namespace PolyRoots

namespace Coeffs

variable {α : Type u} {β : Type v}

def monomial [Zero α] [One α] (n : Nat) : List α := List.replicate n 0 ++ [1]

def timesRoot [Zero α] [Add α] [Mul α] [Neg α] (p : List α) (r : α) : List α :=
  List.zipWith (· + ·) (0 :: p) (scale (-r) (p ++ [0]))

def fromRoots [Zero α] [One α] [Add α] [Mul α] [Neg α] (roots : List α) : List α :=
  roots.foldl timesRoot [1]

def withOthers : List α → List (α × List α)
  | [] => []
  | a :: l => (a, l) :: (withOthers l).map fun (b, others) => (b, a :: others)

/-- The linear polynomial that is zero at node `x'` and one at node `x`. The difference is taken
among the nodes and the quotients after `conv`. -/
def nodeFactor [Sub α] [Neg α] [One β] [Div β] (conv : α → β) (x x' : α) : List β :=
  let d := conv (x - x')
  [conv (-x') / d, 1 / d]

def interpolate [Sub α] [Neg α] [Zero β] [One β] [Add β] [Mul β] [Div β] (conv : α → β)
    (xs ys : List α) : List β :=
  ((withOthers xs).zip ys).foldl
    (fun acc ((x, others), y) =>
      add acc (others.foldl (fun basis x' => mul basis (nodeFactor conv x x')) [conv y])) [0]

def distinct [BEq α] : List α → Bool
  | [] => true
  | a :: l => l.all (fun b => !(a == b)) && distinct l

theorem length_timesRoot [Zero α] [Add α] [Mul α] [Neg α] (p : List α) (r : α) :
    (timesRoot p r).length = p.length + 1 := by
  simp [timesRoot]

theorem length_fromRoots [Zero α] [One α] [Add α] [Mul α] [Neg α] (roots : List α) :
    (fromRoots roots).length = roots.length + 1 := by
  have h (p : List α) : (roots.foldl timesRoot p).length = p.length + roots.length := by
    induction roots generalizing p with
    | nil => simp
    | cons r roots ih =>
      simp [ih, length_timesRoot]
      omega
  simp [fromRoots, h, Nat.add_comm]

end Coeffs

end PolyRoots
