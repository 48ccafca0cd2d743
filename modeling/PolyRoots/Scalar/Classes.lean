universe u

namespace PolyRoots

/-- Scalars that may leave the finite range. Over an exact domain both tests are constantly
false. -/
class Extended (α : Type u) where
  isNaN : α → Bool
  isInf : α → Bool
  nan : α
  infinity : α
  sign : α → α

/-- The elementary functions behind angles and fractional powers. -/
class Elementary (α : Type u) where
  sqrt : α → α
  pow : α → α → α
  atan2 : α → α → α
  cos : α → α
  sin : α → α
  pi : α

namespace Extended

variable {α : Type u} [Extended α]

def isFinite (x : α) : Bool := !(isNaN x || isInf x)

end Extended

def magnitude {α : Type u} [Zero α] [Neg α] [LT α] [DecidableLT α] (x : α) : α :=
  if x < 0 then -x else x

/-- In formulas, a numeral from two on stands for the cast of a natural number. -/
scoped instance numeral {α : Type u} [NatCast α] {n : Nat} : OfNat α (n + 2) :=
  ⟨((n + 2 : Nat) : α)⟩

end PolyRoots
