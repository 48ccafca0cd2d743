import PolyRoots.Scalar.Classes

namespace PolyRoots

/-- A truth value that counts as zero or one. -/
structure Flag where
  holds : Bool
  deriving DecidableEq, Inhabited

namespace Flag

instance instZero : Zero Flag := ⟨⟨false⟩⟩

instance instOne : One Flag := ⟨⟨true⟩⟩

instance instAdd : Add Flag := ⟨fun a b => ⟨a.holds || b.holds⟩⟩

instance instMul : Mul Flag := ⟨fun a b => ⟨a.holds && b.holds⟩⟩

instance instSub : Sub Flag := ⟨fun a b => ⟨a.holds && !b.holds⟩⟩

instance instNeg : Neg Flag := ⟨fun a => 0 - a⟩

instance instNatCast : NatCast Flag := ⟨fun n => ⟨n != 0⟩⟩

instance instExtended : Extended Flag where
  isNaN _ := false
  isInf _ := false
  nan := 1
  infinity := 1
  sign a := a

def toNumber {α : Type} [Zero α] [One α] (a : Flag) : α := if a.holds then 1 else 0

def ofNumber {α : Type} [Zero α] [BEq α] (x : α) : Flag := ⟨x != 0⟩

end Flag

end PolyRoots
