import PolyRoots.Grid.Row
import PolyRoots.Grid.Shape

universe u v w

namespace PolyRoots

/-- Nested rows. The head of the shape is the innermost axis, so a grid of shape `n :: s` is a grid
of shape `s` whose values are rows of length `n`. -/
def Grid : Shape → Type u → Type u
  | [], α => α
  | n :: s, α => Grid s (Row n α)

namespace Grid

variable {α : Type u} {β : Type v} {γ : Type w}

def rows {n : Nat} {s : Shape} (x : Grid (n :: s) α) : Grid s (Row n α) := x

def ofRows {n : Nat} {s : Shape} (x : Grid s (Row n α)) : Grid (n :: s) α := x

def get : {s : Shape} → {α : Type u} → Grid s α → Index s → α
  | [], _, x, _ => x
  | _ :: _, _, x, (k, i) => (get (rows x) i).get k

def ofFn : (s : Shape) → {α : Type u} → (Index s → α) → Grid s α
  | [], _, f => f ()
  | _ :: s, _, f => ofRows (ofFn s fun i => Row.ofFn fun k => f (k, i))

def map : {s : Shape} → {α : Type u} → {β : Type v} → (α → β) → Grid s α → Grid s β
  | [], _, _, f, x => f x
  | _ :: _, _, _, f, x => ofRows (map (Row.map f) (rows x))

def zipWith : {s : Shape} → {α : Type u} → {β : Type v} → {γ : Type w} →
    (α → β → γ) → Grid s α → Grid s β → Grid s γ
  | [], _, _, _, f, x, y => f x y
  | _ :: _, _, _, _, f, x, y => ofRows (zipWith (Row.zipWith f) (rows x) (rows y))

def pick {s : Shape} (c : Grid s Bool) (x y : Grid s α) : Grid s α :=
  zipWith (fun b xy => if b then xy.1 else xy.2) c (zipWith Prod.mk x y)

def toList : {s : Shape} → {α : Type u} → Grid s α → List α
  | [], _, x => [x]
  | _ :: _, _, x => (toList (rows x)).flatMap Row.toList

def ofSeq (s : Shape) (f : Nat → α) : Grid s α := ofFn s fun i => f i.offset

def fill (s : Shape) (a : α) : Grid s α := ofFn s fun _ => a

def any {s : Shape} (x : Grid s Bool) : Bool := x.toList.any id

def reshape {s : Shape} (t : Shape) (h : t.size = s.size) (x : Grid s α) : Grid t α :=
  ofFn t fun i => get x (.ofOffset i.offset (h ▸ i.offset_lt))

def stack {s : Shape} (l : List (Grid s α)) : Grid (l.length :: s) α :=
  ofRows (ofFn s fun i => ⟨l.map (get · i), List.length_map _⟩)

def expand {s u : Shape} (h : s.Fits u) (x : Grid s α) : Grid u α :=
  ofFn u fun i => get x (i.project h)

@[simp]
theorem rows_ofRows {n : Nat} {s : Shape} (x : Grid s (Row n α)) : rows (ofRows x) = x := rfl

theorem get_cons {n : Nat} {s : Shape} (x : Grid (n :: s) α) (i : Index (n :: s)) :
    get x i = (get (rows x) i.2).get i.1 := rfl

@[simp]
theorem get_ofFn {s : Shape} (f : Index s → α) (i : Index s) : get (ofFn s f) i = f i := by
  induction s generalizing α with
  | nil => rfl
  | cons n s ih =>
    rw [get_cons, ofFn, rows_ofRows, ih, Row.get_ofFn]
    rfl

@[simp]
theorem get_map {s : Shape} (f : α → β) (x : Grid s α) (i : Index s) :
    get (map f x) i = f (get x i) := by
  induction s generalizing α β with
  | nil => rfl
  | cons n s ih => rw [get_cons, map, rows_ofRows, ih, Row.get_map, get_cons]

@[simp]
theorem get_zipWith {s : Shape} (f : α → β → γ) (x : Grid s α) (y : Grid s β) (i : Index s) :
    get (zipWith f x y) i = f (get x i) (get y i) := by
  induction s generalizing α β γ with
  | nil => rfl
  | cons n s ih =>
    rw [get_cons, zipWith, rows_ofRows, ih, Row.get_zipWith, get_cons, get_cons]

@[simp]
theorem get_pick {s : Shape} (c : Grid s Bool) (x y : Grid s α) (i : Index s) :
    get (pick c x y) i = if get c i then get x i else get y i := by
  rw [pick, get_zipWith, get_zipWith]

@[ext]
theorem ext {s : Shape} {x y : Grid s α} (h : ∀ i, get x i = get y i) : x = y := by
  induction s generalizing α with
  | nil => exact h ()
  | cons n s ih => exact ih fun i => Row.ext fun k => h (k, i)

@[simp]
theorem get_fill {s : Shape} (a : α) (i : Index s) : get (fill s a) i = a := get_ofFn _ i

@[simp]
theorem get_ofSeq {s : Shape} (f : Nat → α) (i : Index s) : get (ofSeq s f) i = f i.offset :=
  get_ofFn _ i

@[simp]
theorem get_expand {s u : Shape} (h : s.Fits u) (x : Grid s α) (i : Index u) :
    get (expand h x) i = get x (i.project h) :=
  get_ofFn _ i

end Grid

end PolyRoots
