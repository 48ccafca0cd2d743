import PolyRoots.Decimal.Scientific

namespace PolyRoots

namespace Decimal

/-- The numbers between `low` and `high` round to `value`; the ends do so if `closed`. -/
structure Basin where
  low : Ratio
  value : Ratio
  high : Ratio
  closed : Bool

/-- The basin of a positive mantissa and its exponent. Below a power of two the spacing halves,
except at the bottom of the normal range. -/
def Basin.ofBinary (m : Nat) (q : Int) : Basin :=
  let atPower := m = Binary.leadingBit ∧ -1074 < q
  { low := Ratio.shift ⟨if atPower then 4 * m - 1 else 4 * m - 2, 1⟩ (q - 2)
    value := Ratio.shift ⟨m, 1⟩ q
    high := Ratio.shift ⟨4 * m + 2, 1⟩ (q - 2)
    closed := m % 2 = 0 }

def Basin.contains (b : Basin) (r : Ratio) : Bool :=
  if b.closed then decide (b.low ≤ r) && decide (r ≤ b.high)
  else decide (b.low < r) && decide (r < b.high)

/-- The multiple of ten to the power `place` next to the value and inside the basin, if any. Of two
the nearer counts, and of two equally near ones the even. -/
def Basin.gridPoint? (b : Basin) (place : Int) : Option Nat :=
  let scaled := b.value.scale (-place)
  let c := scaled.floor
  let inside (n : Nat) := b.contains (Ratio.scale ⟨n, 1⟩ place)
  match inside c, inside (c + 1) with
  | true, true => some scaled.round
  | true, false => some c
  | false, true => some (c + 1)
  | false, false => none

/-- The first grid with a point in the basin, from coarse to fine: the point and its place. -/
def Basin.shortest (b : Basin) : Nat → Int → Nat × Int
  | 0, place => ((b.value.scale (-place)).round, place)
  | n + 1, place =>
    match b.gridPoint? place with
    | some c => (c, place)
    | none => b.shortest n (place - 1)

def dropZeros (digits : List Char) : List Char := (digits.reverse.dropWhile (· == '0')).reverse

def zeros (n : Nat) : List Char := List.replicate n '0'

def positional (digits : List Char) (e : Int) : String :=
  if e < 0 then "0." ++ String.ofList (zeros (-e - 1).toNat ++ digits)
  else
    let whole := e.toNat + 1
    let digits := digits ++ zeros (whole + 1 - digits.length)
    String.ofList (digits.take whole) ++ "." ++ String.ofList (digits.drop whole)

def exponential (digits : List Char) (e : Int) : String :=
  let text := if digits.length ≤ 1 then String.ofList digits else pointed (String.ofList digits)
  text ++ exponentText e

def shortest (x : Float) : String :=
  match Binary.ofFloat x with
  | .nan => nanText
  | .infinite negative => infinityText negative
  | .finite negative 0 _ => signText negative ++ "0.0"
  | .finite negative m q =>
    let b := Basin.ofBinary m q
    let (c, place) := b.shortest 16 b.value.leadingExponent
    let all := (toString c).toList
    let e := place + all.length - 1
    let digits := dropZeros all
    signText negative ++
      if -4 ≤ e ∧ e < 16 then positional digits e else exponential digits e

end Decimal

end PolyRoots
