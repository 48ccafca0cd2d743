import PolyRoots.Decimal.Scientific

namespace PolyRoots

namespace Decimal

/-- The place at which the largest of some magnitudes has its last digit of `digits`. There is none
if no number is finite and non-zero. -/
def commonPlace? (digits : Nat) (xs : List Float) : Option Int :=
  let largest := (xs.filterMap fun x => (Binary.ofFloat x).magnitude?).foldl
    (fun (best : Option Ratio) r =>
      match best with
      | none => some r
      | some b => if b < r then some r else some b) none
  largest.map fun r => (r.significant digits).2 - (digits - 1)

def rounded (place : Option Int) (x : Float) : String :=
  match Binary.ofFloat x with
  | .nan => nanText
  | .infinite negative => infinityText negative
  | .finite negative m q =>
    match place, Binary.magnitude? (.finite negative m q) with
    | some place, some r =>
      let n := (r.scale (-place)).round
      if n = 0 then "0" else signText negative ++ toString n ++ "e" ++ toString place
    | _, _ => "0"

end Decimal

end PolyRoots
