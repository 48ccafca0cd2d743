import PolyRoots.Decimal.Rounded
import PolyRoots.Request.Value

namespace PolyRoots

inductive Cells where
  | texts (l : List String)
  | flags (l : List Bool)

structure Panel where
  format : Storage
  shape : List Nat
  cells : Cells

inductive View where
  | panel (t : Panel)
  | poly (t : Panel)
  | complex (re im : Panel)
  | division (quotient remainder : Panel)
  | text (s : String)
  | integer (n : Int)
  | found (roots : Panel) (unsettled : Nat)
  | search (root : Option String) (evals slopes warnings : List String)
  | tolerances (imag : String) (steps : Nat)

inductive Style where
  | exact
  | rounded

namespace Style

def writer (s : Style) (p : Precision) (group : List Float) : Float → String :=
  match s with
  | exact => Decimal.scientific
  | rounded =>
    let digits := match p with
      | .single => 5
      | .double => 10
    Decimal.rounded (Decimal.commonPlace? digits group)

end Style

namespace Panel

def ofFloats (p : Precision) (shape : Shape) (write : Float → String) (l : List Float) : Panel :=
  ⟨.full (.real p), shape.reverse, .texts (l.map write)⟩

def ofTensor (s : Style) : Tensor → Panel
  | ⟨.flag, b⟩ => ⟨.full .flag, b.shape.reverse, .flags (b.toList.map Flag.holds)⟩
  | ⟨.int64, b⟩ =>
    ⟨.full .int64, b.shape.reverse, .texts (b.toList.map fun n => toString n.toInt)⟩
  | ⟨.real p, b⟩ =>
    let l := b.toList.map p.toFloat
    ofFloats p b.shape (s.writer p l) l

def ofPoly (s : Style) (p : Poly) : Panel := ofTensor s p.coeffs

end Panel

def Value.view? (s : Style) : Value → Option View
  | plain _ => none
  | float x => some (.text (s.writer .double [x] x))
  | integer n => some (.integer n)
  | tensor t => some (.panel (.ofTensor s t))
  | complex z =>
    let p := z.precision
    let re := z.cells.toList.map fun c => p.toFloat c.re
    let im := z.cells.toList.map fun c => p.toFloat c.im
    let write := s.writer p (re ++ im)
    some (.complex (.ofFloats p z.cells.shape write re) (.ofFloats p z.cells.shape write im))
  | poly p => some (.poly (.ofPoly s p))
  | halfPoly h p => some (.poly { Panel.ofPoly s p with format := .half h })
  | division q r => some (.division (.ofPoly s q) (.ofPoly s r))
  | found roots n => some (.found (.ofTensor s roots) n)
  | search r warnings =>
    let write (x : Float) : String := s.writer .double [x] x
    some (.search (r.root.map write) (r.evals.map write) (r.slopes.map write) warnings)
  | tolerances imag n => some (.tolerances (Decimal.scientific imag) n)

end PolyRoots
