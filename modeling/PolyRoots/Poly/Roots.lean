import PolyRoots.Poly.Basic
import PolyRoots.Solve.RealRoots

namespace PolyRoots

namespace Poly

def imaginaryTolerance : Float := 1e-12

/-- The real roots in ascending order. They are found in double precision, by a method that the degree
before the conversion decides. -/
def realRoots (multiple : Bool) (p : Poly) : Except Fault (Solve.Found Float) := do
  let l ← p.single .realRoots
  Solve.realRootsAt imaginaryTolerance multiple (Coeffs.degree l)
    (l.map (p.format.convert (.real .double)))

/-- The function of one number that a single polynomial is. -/
def asFunction (p : Poly) : Except Fault (Float → Float) :=
  match p with
  | ⟨.int64, _⟩ => .error .noUndefined
  | ⟨.flag, body⟩ => do
    let l ← row body
    return fun x => (Coeffs.evaluate l (Flag.ofNumber x)).toNumber
  | ⟨.real q, body⟩ => do
    let l ← row body
    return fun x => q.toFloat (Coeffs.evaluate l (q.ofFloat x))
where
  row {α : Type} (body : PolyBatch α) : Except Fault (List α) :=
    match body.rows.only? with
    | none => .error .notOneNumber
    | some r =>
      if body.width ≠ 0 ∧ searchableAxes < body.rows.shape.length then .error .tooManyAxes
      else .ok r.toList

/-- The search for a zero of `f` with slopes `df` between two ends, which must be defined. Polynomials
that are no functions of one number are a fault only if the search asks them for a value. -/
def search (f df : Poly) (a b : Float) (maxiter : Nat) : Except Fault (Solve.Search Float) :=
  if a.isNaN || b.isNaN then .error (.undefinedEnd a b)
  else if b < a then .ok (.early none [])
  else do
    let f ← f.asFunction
    match df.asFunction with
    | .ok df => return Solve.search f df a b maxiter
    | .error fault =>
      let s := Solve.search f (fun _ => 0) a b maxiter
      if s.slopes.isEmpty then return s else throw fault

end Poly

end PolyRoots
