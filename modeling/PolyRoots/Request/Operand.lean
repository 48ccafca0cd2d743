import PolyRoots.Decimal.Ratio
import PolyRoots.Fault
import PolyRoots.Grid.Tensor

namespace PolyRoots

inductive Numeral where
  | decimal (mantissa : Int) (places : Nat)
  | negativeZero
  | nan
  | infinite (negative : Bool)

namespace Numeral

def toFloat : Numeral → Float
  | decimal m places =>
    let x := Float.ofScientific m.natAbs true places
    if m < 0 then -x else x
  | negativeZero => -0.0
  | nan => Extended.nan
  | infinite negative => if negative then -Extended.infinity else Extended.infinity

def toInt64? : Numeral → Option Int64
  | decimal m places =>
    let n := m.tdiv (Ratio.tenTo places)
    if Int64.minValue.toInt ≤ n ∧ n ≤ Int64.maxValue.toInt then some (Int64.ofInt n) else none
  | negativeZero => some 0
  | _ => none

end Numeral

inductive Nested where
  | number (x : Numeral)
  | absent
  | list (xs : List Nested)

namespace Nested

def dims : Nested → List Nat
  | list [] => [0]
  | list (x :: xs) => (xs.length + 1) :: dims x
  | _ => []

def store {α : Type} (conv : Numeral → Except Fault α) : List Nat → Nested → Except Fault (List α)
  | [], number x => do return [← conv x]
  | [], _ => .error .notNumeric
  | n :: dims, list xs =>
    if xs.length = n then do return (← xs.mapM (store conv dims)).flatten else .error .ragged
  | _ :: _, _ => .error .notNumeric

def maxDepth : Nat := 128

/-- The numbers of a nested list. If the first entries lead to an empty list there are none, whatever
the other entries are. -/
def numbers {α : Type} (conv : Numeral → Except Fault α) (x : Nested) : Except Fault (List α) :=
  if Shape.size x.dims = 0 then .ok [] else store conv x.dims x

def toBatch {α : Type} [Inhabited α] (conv : Numeral → Except Fault α) (x : Nested) :
    Except Fault (Batch α) := do
  if maxDepth < x.dims.length then throw .tooDeep
  let cells := (← numbers conv x).toArray
  return ⟨x.dims.reverse, .ofSeq _ fun k => cells.getD k default⟩

end Nested

inductive Part where
  | quotient
  | remainder
  | re
  | im
  | coeffs
  | roots

inductive Operand where
  | plain (x : Nested)
  | tensor (format : Format) (x : Nested)
  | complex (re im : Operand)
  | poly (coeffs : Operand)
  | ref (step : Nat) (part : Option Part)

def Operand.refs : Operand → List Nat
  | plain _ | tensor _ _ => []
  | complex re im => re.refs ++ im.refs
  | poly coeffs => coeffs.refs
  | ref step _ => [step]

end PolyRoots
