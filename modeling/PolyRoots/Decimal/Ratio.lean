namespace PolyRoots

structure Ratio where
  num : Nat
  den : Nat

namespace Ratio

def round (r : Ratio) : Nat :=
  let c := r.num / r.den
  let rest := 2 * (r.num % r.den)
  if rest < r.den then c
  else if r.den < rest then c + 1
  else c + c % 2

def floor (r : Ratio) : Nat := r.num / r.den

def tenTo (k : Nat) : Nat := Nat.pow 10 k

def scale (r : Ratio) (k : Int) : Ratio :=
  if 0 ≤ k then ⟨r.num * tenTo k.toNat, r.den⟩ else ⟨r.num, r.den * tenTo (-k).toNat⟩

def shift (r : Ratio) (k : Int) : Ratio :=
  if 0 ≤ k then ⟨r.num <<< k.toNat, r.den⟩ else ⟨r.num, r.den <<< (-k).toNat⟩

instance instLE : LE Ratio := ⟨fun r s => r.num * s.den ≤ s.num * r.den⟩

instance instLT : LT Ratio := ⟨fun r s => r.num * s.den < s.num * r.den⟩

instance decidableLE (r s : Ratio) : Decidable (r ≤ s) :=
  inferInstanceAs (Decidable (r.num * s.den ≤ s.num * r.den))

instance decidableLT (r s : Ratio) : Decidable (r < s) :=
  inferInstanceAs (Decidable (r.num * s.den < s.num * r.den))

def digitCount (n : Nat) : Nat := if n < 10 then 1 else digitCount (n / 10) + 1

/-- The exponent of the leading digit of a positive quotient. Below one it is found from the
reciprocal, rounded up. -/
def leadingExponent (r : Ratio) : Int :=
  if r.den ≤ r.num then (digitCount (r.num / r.den) : Int) - 1
  else -(digitCount ((r.den + r.num - 1) / r.num - 1) : Int)

def significant (digits : Nat) (r : Ratio) : Nat × Int :=
  let e := r.leadingExponent
  let n := (r.scale (digits - 1 - e)).round
  if n = tenTo digits then (n / 10, e + 1) else (n, e)

end Ratio

end PolyRoots
