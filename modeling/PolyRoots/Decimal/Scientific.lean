import PolyRoots.Decimal.Binary

namespace PolyRoots

namespace Decimal

def signText (negative : Bool) : String := if negative then "-" else ""

def exponentText (e : Int) : String :=
  let digits := toString e.natAbs
  "e" ++ (if e < 0 then "-" else "+") ++ (if e.natAbs < 10 then "0" ++ digits else digits)

def pointed (digits : String) : String := (digits.take 1).toString ++ "." ++ (digits.drop 1).toString

def nanText : String := "nan"

def infinityText (negative : Bool) : String := signText negative ++ "inf"

def scientific (x : Float) : String :=
  match Binary.ofFloat x with
  | .nan => nanText
  | .infinite negative => infinityText negative
  | .finite negative m q =>
    let (digits, e) :=
      match Binary.magnitude? (.finite negative m q) with
      | none => (String.ofList (List.replicate 17 '0'), (0 : Int))
      | some r =>
        let (n, e) := r.significant 17
        (toString n, e)
    signText negative ++ pointed digits ++ exponentText e

end Decimal

end PolyRoots
