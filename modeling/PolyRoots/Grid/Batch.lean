import PolyRoots.Grid.Basic

universe u v w x

namespace PolyRoots

/-- Grids that carry their shape. Operations on two of them first repeat both to their common shape,
and have no result if there is none. -/
structure Batch (α : Type u) where
  shape : Shape
  cells : Grid shape α

namespace Batch

variable {α : Type u} {β : Type v} {γ : Type w} {δ : Type x}

def single (a : α) : Batch α := ⟨[], a⟩

def fill (s : Shape) (a : α) : Batch α := ⟨s, .fill s a⟩

def ofRow {n : Nat} (r : Row n α) : Batch α := ⟨[n], Grid.ofRows (s := []) r⟩

def ofList [Inhabited α] (l : List α) : Batch α := ⟨[l.length], .ofSeq _ fun k => l.getD k default⟩

def get (b : Batch α) (i : Index b.shape) : α := Grid.get b.cells i

def map (f : α → β) (b : Batch α) : Batch β := ⟨b.shape, Grid.map f b.cells⟩

def toList (b : Batch α) : List α := Grid.toList b.cells

def only? (b : Batch α) : Option α :=
  match b.toList with
  | [a] => some a
  | _ => none

def hasAxes (b : Batch α) : Bool := !b.shape.isEmpty

def any (b : Batch Bool) : Bool := b.cells.any

def unsqueeze (b : Batch α) : Batch α := ⟨1 :: b.shape, .ofRows (b.cells.map (.replicate 1))⟩

def expand? (u : Shape) (b : Batch α) : Option (Grid u α) :=
  if h : b.shape.Fits u then some (Grid.expand h b.cells) else none

def cells? (s : Shape) (b : Batch α) : Option (Grid s α) :=
  if h : b.shape = s then some (h ▸ b.cells) else none

def stack? : List (Batch α) → Option (Batch α)
  | [] => none
  | b :: l => (l.mapM (cells? b.shape)).map fun cells => ⟨_, .stack (b.cells :: cells)⟩

def zipWith? (f : α → β → γ) (a : Batch α) (b : Batch β) : Option (Batch γ) :=
  match h : a.shape.join b.shape with
  | none => none
  | some u => some ⟨u, .ofFn u fun i =>
      f (Grid.get a.cells (i.project (Shape.join_fits h).1))
        (Grid.get b.cells (i.project (Shape.join_fits h).2))⟩

def zipWith₃? (f : α → β → γ → δ) (a : Batch α) (b : Batch β) (c : Batch γ) : Option (Batch δ) :=
  (zipWith? Prod.mk b c).bind fun bc => zipWith? (fun x y => f x y.1 y.2) a bc

def pick? (c : Batch Bool) (a b : Batch α) : Option (Batch α) :=
  zipWith₃? (fun c x y => if c then x else y) c a b

def rows? (b : Batch α) : Option ((n : Nat) × Batch (Row n α)) :=
  match b with
  | ⟨[], _⟩ => none
  | ⟨n :: s, x⟩ => some ⟨n, s, Grid.rows x⟩

def ofRows {n : Nat} (b : Batch (Row n α)) : Batch α := ⟨n :: b.shape, Grid.ofRows b.cells⟩

@[simp]
theorem get_map (f : α → β) (b : Batch α) (i : Index b.shape) : (b.map f).get i = f (b.get i) :=
  Grid.get_map f b.cells i

theorem zipWith?_eq_some {f : α → β → γ} {a : Batch α} {b : Batch β} {c : Batch γ}
    (h : zipWith? f a b = some c) :
    ∃ hj : a.shape.join b.shape = some c.shape, ∀ i,
      c.get i = f (a.get (i.project (Shape.join_fits hj).1))
        (b.get (i.project (Shape.join_fits hj).2)) := by
  unfold zipWith? at h
  split at h
  · cases h
  · rename_i u hu
    cases h
    exact ⟨hu, fun i => Grid.get_ofFn _ i⟩

theorem zipWith?_isSome_iff {f : α → β → γ} {a : Batch α} {b : Batch β} :
    (zipWith? f a b).isSome ↔ (a.shape.join b.shape).isSome := by
  unfold zipWith?
  split <;> simp_all

end Batch

end PolyRoots
