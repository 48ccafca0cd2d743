import PolyRoots.Decimal.Ratio

namespace PolyRoots

/-- A number split into sign and magnitude. The magnitude of a finite number is `mantissa` times a
power of two. -/
inductive Binary where
  | nan
  | infinite (negative : Bool)
  | finite (negative : Bool) (mantissa : Nat) (exponent : Int)

namespace Binary

def leadingBit : Nat := 1 <<< 52

def ofFloat (x : Float) : Binary :=
  let bits : Nat := x.toBits.toNat
  let negative : Bool := bits >>> 63 = 1
  let field : Nat := (bits >>> 52) % 2048
  let fraction : Nat := bits % leadingBit
  if field = 2047 then if fraction = 0 then infinite negative else nan
  else if field = 0 then finite negative fraction (-1074)
  else finite negative (leadingBit + fraction) ((field : Int) - 1075)

def magnitude? : Binary → Option Ratio
  | finite _ (m + 1) q => some (Ratio.shift ⟨m + 1, 1⟩ q)
  | _ => none

end Binary

end PolyRoots
