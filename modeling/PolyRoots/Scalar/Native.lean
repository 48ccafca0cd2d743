import PolyRoots.Scalar.Classes

namespace PolyRoots

instance instNatCastFloat : NatCast Float := ⟨Float.ofNat⟩

instance instNatCastFloat32 : NatCast Float32 := ⟨Float32.ofNat⟩

instance instNatCastInt64 : NatCast Int64 := ⟨Int64.ofNat⟩

instance instExtendedFloat : Extended Float where
  isNaN := Float.isNaN
  isInf := Float.isInf
  nan := 0 / 0
  infinity := 1 / 0
  sign x := if 0 < x then 1 else if x < 0 then -1 else 0

instance instExtendedFloat32 : Extended Float32 where
  isNaN := Float32.isNaN
  isInf := Float32.isInf
  nan := 0 / 0
  infinity := 1 / 0
  sign x := if 0 < x then 1 else if x < 0 then -1 else 0

/-- Exponents that stand for a root, a product or a reciprocal are computed as such, which rounds
less often than a general power. -/
instance instElementaryFloat : Elementary Float where
  sqrt := Float.sqrt
  pow x e :=
    if e == 0.5 then x.sqrt
    else if e == -0.5 then 1 / x.sqrt
    else if e == 2.0 then x * x
    else if e == 3.0 then x * x * x
    else if e == -1.0 then 1 / x
    else if e == -2.0 then 1 / (x * x)
    else Float.pow x e
  atan2 := Float.atan2
  cos := Float.cos
  sin := Float.sin
  pi := 3.141592653589793

@[inherit_doc instElementaryFloat]
instance instElementaryFloat32 : Elementary Float32 where
  sqrt := Float32.sqrt
  pow x e :=
    if e == 0.5 then x.sqrt
    else if e == -0.5 then 1 / x.sqrt
    else if e == 2.0 then x * x
    else if e == 3.0 then x * x * x
    else if e == -1.0 then 1 / x
    else if e == -2.0 then 1 / (x * x)
    else Float32.pow x e
  atan2 := Float32.atan2
  cos := Float32.cos
  sin := Float32.sin
  pi := 3.141592653589793

end PolyRoots
