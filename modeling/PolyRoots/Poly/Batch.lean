import PolyRoots.Coeffs.Calculus
import PolyRoots.Coeffs.Compose
import PolyRoots.Coeffs.Construct
import PolyRoots.Coeffs.Evaluate
import PolyRoots.Cplx.Basic
import PolyRoots.Grid.Batch

universe u v w

namespace PolyRoots

/-- Polynomials stored with a common number of coefficients. Operations work on the array of all
coefficients, whose innermost axis runs over the powers, and on its columns. They have no result if
the axes of their operands do not fit. -/
structure PolyBatch (α : Type u) where
  width : Nat
  rows : Batch (Row width α)

namespace PolyBatch

variable {α : Type u} {β : Type v} {γ : Type w}

def ofList (l : List α) : PolyBatch α := ⟨l.length, .single ⟨l, rfl⟩⟩

def single? (p : PolyBatch α) : Option (List α) :=
  match p.rows with
  | ⟨[], r⟩ => some (Row.toList r)
  | _ => none

def coeffs (p : PolyBatch α) : Batch α := p.rows.ofRows

def ofCoeffs? (b : Batch α) : Option (PolyBatch α) := b.rows?.map fun ⟨n, r⟩ => ⟨n, r⟩

def row (p : PolyBatch α) (i : Index p.rows.shape) : List α := (p.rows.get i).toList

def isEmpty (p : PolyBatch α) : Bool := p.width == 0 || p.rows.shape.size == 0

def constants (c : Batch α) : PolyBatch α := ⟨1, c.map (.replicate 1)⟩

def column (p : PolyBatch α) (k : Fin p.width) : Batch α := p.rows.map (·.get k)

def take (n : Nat) (p : PolyBatch α) : PolyBatch α := ⟨min n p.width, p.rows.map (Row.take n)⟩

def drop (n : Nat) (p : PolyBatch α) : PolyBatch α := ⟨p.width - n, p.rows.map (Row.drop n)⟩

def map (f : α → β) (p : PolyBatch α) : PolyBatch β := ⟨p.width, p.rows.map (Row.map f)⟩

def zipWith? (f : α → β → γ) (p : PolyBatch α) (q : PolyBatch β) : Option (PolyBatch γ) :=
  (Batch.zipWith? f p.coeffs q.coeffs).bind ofCoeffs?

/-- The same polynomials with axes of length one inside the axes of the batch, as many as `t` has. -/
def align (t : Shape) (p : PolyBatch α) : PolyBatch α :=
  let s := t.ones ++ p.rows.shape
  have h : Shape.size (p.width :: s) = Shape.size (p.width :: p.rows.shape) :=
    congrArg (p.width * ·) (Shape.size_ones_append t p.rows.shape)
  ⟨p.width, s, .rows (.reshape (p.width :: s) h p.coeffs.cells)⟩

section Ring

variable [Zero α] [One α] [Add α] [Sub α] [Neg α] [Mul α]

def pad (before after : Nat) (p : PolyBatch α) : PolyBatch α :=
  ⟨before + p.width + after, p.rows.map (Row.pad 0 before after)⟩

def padZip? (f : α → α → α) (p q : PolyBatch α) : Option (PolyBatch α) :=
  zipWith? f (p.pad 0 (q.width - p.width)) (q.pad 0 (p.width - q.width))

def neg (p : PolyBatch α) : PolyBatch α := p.map (- ·)

def add? (p q : PolyBatch α) : Option (PolyBatch α) := padZip? (· + ·) p q

def sub? (p q : PolyBatch α) : Option (PolyBatch α) := padZip? (· - ·) p q

def addSlice? {s : Shape} {m : Nat} (i n : Nat) (t : PolyBatch α) (x : Grid s (Row m α)) :
    Option (Grid s (Row m α)) := do
  let slice := x.map (Row.slice i n)
  let t ← t.coeffs.expand? (min n (m - i) :: s)
  return x.zipWith (Row.setSlice i n) (slice.zipWith (Row.zipWith (· + ·)) t.rows)

def addProducts? {s : Shape} {m : Nat} (p q : PolyBatch α) (x : Grid s (Row m α)) (k : Fin p.width) :
    Option (Grid s (Row m α)) :=
  (zipWith? (· * ·) (constants (p.column k)) q).bind fun t => addSlice? k q.width t x

def mul? (p q : PolyBatch α) : Option (PolyBatch α) :=
  (p.rows.shape.join q.rows.shape).bind fun s =>
    let m := p.width + q.width - 1
    ((List.finRange p.width).foldlM (addProducts? p q) (.fill s (.replicate m 0))).map (⟨m, s, ·⟩)

/-- Repeated squaring: `acc` times `base` to the power `n`, for positive `n`. -/
def powLoop? (acc : Option (PolyBatch α)) (base : PolyBatch α) (n : Nat) : Option (PolyBatch α) :=
  if n < 2 then times? acc
  else do
    let acc ← if n % 2 = 1 then some <$> times? acc else some acc
    powLoop? acc (← mul? base base) (n / 2)
termination_by n
where
  times? : Option (PolyBatch α) → Option (PolyBatch α)
    | none => some base
    | some acc => mul? acc base

def pow? (p : PolyBatch α) (n : Nat) : Option (PolyBatch α) :=
  if n = 0 then some (constants (.fill p.rows.shape 1)) else powLoop? none p n

def scale? (c : Batch α) (p : PolyBatch α) : Option (PolyBatch α) :=
  zipWith? (· * ·) p (constants c)

/-- Each coefficient times the factor at its place, where the powers count as an axis. -/
def scaleCoeffs? (c : Batch α) (p : PolyBatch α) : Option (PolyBatch α) :=
  (Batch.zipWith? (· * ·) p.coeffs c).bind ofCoeffs?

def timesRoot? (p : PolyBatch α) (r : Batch α) : Option (PolyBatch α) := do
  zipWith? (· + ·) (p.pad 1 0) (← zipWith? (· * ·) (p.pad 0 1) (constants (r.map (- ·))))

def fromRoots? (roots : PolyBatch α) : Option (PolyBatch α) :=
  (List.finRange roots.width).foldlM (fun p k => timesRoot? p (roots.column k))
    (constants (.fill roots.rows.shape 1))

def fallingFactors [NatCast α] (n k : Nat) : Row n α :=
  let indices : Row n α := .ofFn fun i => ((i + k : Nat) : α)
  (List.range k).foldl (fun f (j : Nat) => f.zipWith (· * ·) (indices.map (· - (j : α)))) (.replicate n 1)

def derivative [NatCast α] (k : Nat) (p : PolyBatch α) : PolyBatch α :=
  if k = 0 then p
  else if p.width ≤ k then constants (.fill p.rows.shape 0)
  else
    let factors := Batch.ofRow (fallingFactors (p.width - k) k)
    have h : factors.shape.Fits ((p.width - k) :: p.rows.shape) := ⟨.inl rfl, trivial⟩
    ⟨_, p.rows.shape, .rows ((p.drop k).coeffs.cells.zipWith (· * ·) (.expand h factors.cells))⟩

/-- The antiderivatives whose constant terms are given, for all polynomials or for each. -/
def antiderivative? [Div α] [NatCast α] (c : Batch α) (p : PolyBatch α) : Option (PolyBatch α) := do
  let indices := Batch.ofRow (.ofFn fun k : Fin p.width => ((k + 1 : Nat) : α))
  let ⟨n, s, x⟩ ← (Batch.zipWith? (· / ·) p.coeffs indices).bind ofCoeffs?
  let c ← c.unsqueeze.expand? (1 :: s)
  return ⟨1 + n, s, c.rows.zipWith Row.append x⟩

def agree? (test : α → Bool) (p q : PolyBatch α) : Option (Batch Bool) :=
  (sub? p q).map fun d => d.rows.map (·.toList.all test)

end Ring

def significantWidth (test : α → Bool) (p : PolyBatch α) : Nat :=
  let found := (p.map test).rows.toList.foldl (Row.zipWith (· || ·)) (.replicate p.width false)
  ((Coeffs.lastIndex? id found.toList).map (· + 1)).getD 1

def integral? {β : Type u} [Sub α] [Mul α] [Zero β] [Add β] [Div β] [NatCast β]
    (raise : α → Nat → α) (conv : α → β) (p : PolyBatch α) (a b : Batch α) : Option (Batch β) := do
  let exponents := Batch.ofRow (.ofFn fun k : Fin p.width => (k + 1 : Nat))
  let span ← Batch.zipWith? (· - ·) (← Batch.zipWith? raise b.unsqueeze exponents)
    (← Batch.zipWith? raise a.unsqueeze exponents)
  let products ← Batch.zipWith? (· * ·) p.coeffs span
  let terms ← (Batch.zipWith? (fun c (n : Nat) => conv c / (n : β)) products exponents).bind ofCoeffs?
  return terms.rows.map (·.toList.foldl (· + ·) 0)

section Evaluation

variable [Zero α] [Add α] [Mul α]

/-- The state of Horner's rule everywhere: the current values, where there was an overflow, and the
final values there. -/
structure HornerGrid (s : Shape) (α : Type u) where
  value : Grid s α
  overflowed : Grid s Bool
  limit : Grid s α

/-- The step to the coefficients `a` of index `i`. As long as only zeros were met nothing is
multiplied, and final values change where there is an overflow for the first time. -/
def HornerGrid.step [BEq α] [Extended α] {s : Shape} (x : Grid s α) (i : Nat) (a : Grid s α)
    (h : HornerGrid s α) : HornerGrid s α :=
  let value := Grid.pick (h.value.map (· == 0)) a ((h.value.zipWith (· * ·) x).zipWith (· + ·) a)
  let newly := value.zipWith (fun v o => Extended.isInf v && !o) h.overflowed
  if newly.any then
    let limit := if i % 2 = 0 then value else value.zipWith (fun v x => v * Extended.sign x) x
    ⟨value, h.overflowed.zipWith (· || ·) newly, newly.pick limit h.limit⟩
  else ⟨value, h.overflowed, h.limit⟩

def evaluate [BEq α] [Extended α] (p : PolyBatch α) (x : Batch α) : Batch α :=
  let s := x.shape ++ p.rows.shape
  let points : Grid s α := .expand (Shape.fits_append x.shape p.rows.shape) x.cells
  let aligned := p.align x.shape
  let start : HornerGrid s α := ⟨.fill s 0, .fill s false, .fill s 0⟩
  let h := (List.finRange p.width).foldr (fun k h =>
    h.step points k (.expand (Shape.ones_append_fits _ _) (aligned.column k).cells)) start
  let result := h.overflowed.pick h.limit h.value
  ⟨s, (points.map Extended.isNaN).pick (.fill s Extended.nan) result⟩

/-- Horner's rule for the coefficients of increasing powers. The last ones start the sum. -/
def hornerCplx? [Sub α] (z : Batch (Cplx α)) : List (Batch α) → Option (Batch (Cplx α))
  | [] => none
  | [a] => some (a.map Cplx.ofReal)
  | a :: p => do
    let w ← Batch.zipWith? (· * ·) (← hornerCplx? z p) z
    Batch.zipWith? (· + ·) w (a.map Cplx.ofReal)

def evaluateCplx? [Sub α] (p : PolyBatch α) (z : Batch (Cplx α)) : Option (Batch (Cplx α)) :=
  hornerCplx? z ((List.finRange p.width).map (p.align z.shape).column)

end Evaluation

end PolyBatch

end PolyRoots
