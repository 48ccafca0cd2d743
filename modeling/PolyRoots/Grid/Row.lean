universe u v w

namespace PolyRoots

/-- Lists of a stated length, the innermost axis of a grid. -/
def Row (n : Nat) (α : Type u) : Type u := { l : List α // l.length = n }

namespace Row

variable {α : Type u} {β : Type v} {γ : Type w} {m n : Nat}

def toList (r : Row n α) : List α := r.val

def get (r : Row n α) (k : Fin n) : α := r.val.get (k.cast r.property.symm)

def ofFn (f : Fin n → α) : Row n α := ⟨List.ofFn f, List.length_ofFn⟩

def map (f : α → β) (r : Row n α) : Row n β := ⟨r.val.map f, by simp [r.property]⟩

def zipWith (f : α → β → γ) (r : Row n α) (t : Row n β) : Row n γ :=
  ⟨List.zipWith f r.val t.val, by simp [r.property, t.property]⟩

def replicate (n : Nat) (a : α) : Row n α := ⟨.replicate n a, List.length_replicate⟩

def append (r : Row m α) (t : Row n α) : Row (m + n) α :=
  ⟨r.val ++ t.val, by simp [r.property, t.property]⟩

def pad (a : α) (before after : Nat) (r : Row n α) : Row (before + n + after) α :=
  ((replicate before a).append r).append (replicate after a)

def take (k : Nat) (r : Row n α) : Row (min k n) α := ⟨r.val.take k, by simp [r.property]⟩

def drop (k : Nat) (r : Row n α) : Row (n - k) α := ⟨r.val.drop k, by simp [r.property]⟩

def slice (i k : Nat) (r : Row n α) : Row (min k (n - i)) α := (r.drop i).take k

def setSlice (i k : Nat) (r : Row n α) (t : Row (min k (n - i)) α) : Row n α :=
  ⟨r.val.take i ++ t.val ++ r.val.drop (i + k), by
    simp only [List.length_append, List.length_take, List.length_drop, r.property, t.property]
    omega⟩

@[ext]
theorem ext {r t : Row n α} (h : ∀ k, r.get k = t.get k) : r = t := by
  apply Subtype.ext
  apply List.ext_getElem (r.property.trans t.property.symm)
  intro k hk _
  exact h ⟨k, r.property ▸ hk⟩

@[simp]
theorem get_ofFn (f : Fin n → α) (k : Fin n) : (ofFn f).get k = f k := by
  simp only [get, ofFn, List.get_eq_getElem, List.getElem_ofFn]
  rfl

@[simp]
theorem get_map (f : α → β) (r : Row n α) (k : Fin n) : (r.map f).get k = f (r.get k) := by
  simp only [get, map, List.get_eq_getElem, List.getElem_map]
  rfl

@[simp]
theorem length_toList (r : Row n α) : r.toList.length = n := r.property

@[simp]
theorem get_zipWith (f : α → β → γ) (r : Row n α) (t : Row n β) (k : Fin n) :
    (r.zipWith f t).get k = f (r.get k) (t.get k) := by
  simp only [get, zipWith, List.get_eq_getElem, List.getElem_zipWith]
  rfl

@[simp]
theorem get_replicate (a : α) (k : Fin n) : (replicate n a).get k = a := by
  simp only [get, replicate, List.get_eq_getElem, List.getElem_replicate]

end Row

end PolyRoots
