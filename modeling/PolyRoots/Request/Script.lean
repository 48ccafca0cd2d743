import PolyRoots.Request.Run
import PolyRoots.Request.View

namespace PolyRoots

/-- A result, and whether its last digits are left open. That is so if its operation is inexact, or
if it was computed from such a result. -/
structure Result where
  value : Value
  inexact : Bool

abbrev History := List (Except Fault Result)

namespace History

def value (h : History) (step : Nat) : Except Fault Value :=
  match h[step]? with
  | some (.ok r) => .ok r.value
  | _ => .error .badReference

def inexact (h : History) (step : Nat) : Bool :=
  match h[step]? with
  | some (.ok r) => r.inexact
  | _ => false

def next (h : History) (op : Operation) : Except Fault Result := do
  let v ← op.run h.value
  let inherited := op.operands.any fun x => x.refs.any h.inexact
  return ⟨v, op.isInexact v || inherited⟩

end History

def runScript (ops : List Operation) : History :=
  ops.foldl (fun h op => h ++ [h.next op]) []

def Result.view? (r : Result) : Option View := r.value.view? (if r.inexact then .rounded else .exact)

end PolyRoots
