import PolyRoots.Poly.Batch
import PolyRoots.Proofs.Coeffs.Loops
import PolyRoots.Proofs.Grid.Combine

universe u v w

namespace PolyRoots

open Shape (join_fits)

namespace Row

variable {α : Type u} {β : Type v} {γ : Type w} {m n : Nat}

def lift {g : Nat → Nat} (f : List α → List β) (hf : ∀ l, (f l).length = g l.length)
    (r : Row n α) : Row (g n) β :=
  ⟨f r.val, by rw [hf, r.property]⟩

def lift₂ {g : Nat → Nat → Nat} (f : List α → List β → List γ)
    (hf : ∀ l t, (f l t).length = g l.length t.length) (r : Row m α) (t : Row n β) :
    Row (g m n) γ :=
  ⟨f r.val t.val, by rw [hf, r.property, t.property]⟩

def addAt [Add α] (i : Nat) (l : List α) (r : Row n α) : Row n α :=
  ⟨Coeffs.addAt i l r.toList, by rw [Coeffs.length_addAt, length_toList]⟩

end Row

theorem Grid.row_expand {α : Type u} {m n : Nat} {s : Shape} (h : Shape.Fits (m :: s) (n :: s)) (hmn : m = n)
    {x : Grid (m :: s) α} (i : Index s) : ((expand h x).rows.get i).toList = (x.rows.get i).toList := by
  subst hmn
  have hexpand : expand h x = x := ext fun i => by rw [get_expand, Index.project_self]
  rw [hexpand]

namespace PolyBatch

variable {α : Type u} {β : Type v} {γ : Type w}

abbrev shape (p : PolyBatch α) : Shape := p.rows.shape

def tabulate (s : Shape) (n : Nat) (f : Index s → List α) (h : ∀ i, (f i).length = n) : PolyBatch α :=
  ⟨n, s, .ofFn s fun i => ⟨f i, h i⟩⟩

/-- A function on coefficient lists applied to every polynomial. -/
def lift {g : Nat → Nat} (f : List α → List β) (hf : ∀ l, (f l).length = g l.length)
    (p : PolyBatch α) : PolyBatch β :=
  ⟨g p.width, p.rows.map (Row.lift f hf)⟩

@[inherit_doc lift]
def lift₂? {g : Nat → Nat → Nat} (f : List α → List β → List γ)
    (hf : ∀ l t, (f l t).length = g l.length t.length) (p : PolyBatch α) (q : PolyBatch β) :
    Option (PolyBatch γ) :=
  (Batch.zipWith? (Row.lift₂ f hf) p.rows q.rows).map (⟨_, ·⟩)

section Rows

theorem length_row (p : PolyBatch α) (i : Index p.shape) : (p.row i).length = p.width := (p.rows.get i).property

theorem tabulate_congr {s : Shape} {m n : Nat} {f g : Index s → List α} (hf : ∀ i, (f i).length = m)
    (hg : ∀ i, (g i).length = n) (hmn : m = n) (hfg : ∀ i, f i = g i) :
    tabulate s m f hf = tabulate s n g hg := by
  obtain rfl : f = g := funext hfg
  subst hmn
  rfl

theorem ext_rows {s : Shape} {m n : Nat} {x : Grid s (Row m α)} {y : Grid s (Row n α)} (hmn : m = n)
    (h : ∀ i, (x.get i).toList = (y.get i).toList) : (⟨m, s, x⟩ : PolyBatch α) = ⟨n, s, y⟩ := by
  subst hmn
  exact congrArg (fun x => PolyBatch.mk m ⟨s, x⟩) (Grid.ext fun i => Subtype.ext (h i))

theorem row_tabulate {s : Shape} {n : Nat} (f : Index s → List α) (h : ∀ i, (f i).length = n) (i : Index s) :
    (tabulate s n f h).row i = f i :=
  congrArg Row.toList (Grid.get_ofFn _ i)

theorem eq_tabulate {s : Shape} {m n : Nat} {x : Grid s (Row m α)} {f : Index s → List α}
    {hf : ∀ i, (f i).length = n} (hmn : m = n) (h : ∀ i, (x.get i).toList = f i) :
    (⟨m, s, x⟩ : PolyBatch α) = tabulate s n f hf :=
  ext_rows hmn fun i => (h i).trans (row_tabulate f hf i).symm

theorem row_map (f : α → β) (p : PolyBatch α) (i : Index p.shape) : (p.map f).row i = (p.row i).map f :=
  congrArg Row.toList (Batch.get_map (Row.map f) p.rows i)

theorem row_constants (c : Batch α) (i : Index c.shape) : (constants c).row i = [c.get i] :=
  congrArg Row.toList (Batch.get_map (Row.replicate 1) c i)

theorem constants_fill (s : Shape) (a : α) :
    constants (.fill s a) = tabulate s 1 (fun _ => [a]) fun _ => rfl :=
  eq_tabulate rfl fun i => (row_constants (.fill s a) i).trans (congrArg (fun a => [a]) (Grid.get_fill a i))

theorem row_lift {g : Nat → Nat} {f : List α → List β} (hf : ∀ l, (f l).length = g l.length)
    (p : PolyBatch α) (i : Index p.shape) : (p.lift f hf).row i = f (p.row i) :=
  congrArg Row.toList (Batch.get_map (Row.lift f hf) p.rows i)

theorem lift_eq_tabulate {g : Nat → Nat} {f : List α → List β} (hf : ∀ l, (f l).length = g l.length)
    (p : PolyBatch α) : p.lift f hf = tabulate p.shape (g p.width) (fun i => f (p.row i)) fun i => by
      rw [hf, length_row] :=
  eq_tabulate rfl (row_lift hf p)

theorem lift_congr [Zero α] {a b : Nat → Nat} {f g : List α → List β} (hf : ∀ l, (f l).length = a l.length)
    (hg : ∀ l, (g l).length = b l.length) (h : ∀ l, f l = g l) (p : PolyBatch α) : p.lift f hf = p.lift g hg := by
  have hwidth : a p.width = b p.width := by
    have hl := hf (List.replicate p.width 0)
    rwa [h, hg, List.length_replicate, eq_comm] at hl
  rw [lift_eq_tabulate, lift_eq_tabulate]
  exact tabulate_congr _ _ hwidth fun i => h _

theorem lift₂?_of_join {g : Nat → Nat → Nat} {f : List α → List β → List γ}
    (hf : ∀ l t, (f l t).length = g l.length t.length) (p : PolyBatch α) (q : PolyBatch β) {s : Shape}
    (h : p.shape.join q.shape = some s) :
    lift₂? f hf p q = some (tabulate s (g p.width q.width)
      (fun i => f (p.row (i.project (join_fits h).1)) (q.row (i.project (join_fits h).2))) fun i => by
        rw [hf, length_row, length_row]) := by
  rw [lift₂?, Batch.zipWith?_of_join _ _ _ h]
  refine congrArg some (eq_tabulate rfl fun i => ?_)
  rw [Grid.get_ofFn]
  rfl

theorem row_tabulate_project {s : Shape} {n : Nat} (f : Index s → List α) (hf : ∀ i, (f i).length = n)
    (h : s.Fits s) (i : Index s) : (tabulate s n f hf).row (i.project h) = f i :=
  (congrArg (tabulate s n f hf).row (Index.project_self h i)).trans (row_tabulate f hf i)

theorem lift₂?_tabulate {g : Nat → Nat → Nat} {f : List α → List β → List γ}
    (hf : ∀ l t, (f l t).length = g l.length t.length) {s : Shape} {m n : Nat} {a : Index s → List α}
    {b : Index s → List β} (ha : ∀ i, (a i).length = m) (hb : ∀ i, (b i).length = n) :
    lift₂? f hf (tabulate s m a ha) (tabulate s n b hb) =
      some (tabulate s (g m n) (fun i => f (a i) (b i)) fun i => by rw [hf, ha, hb]) := by
  rw [lift₂?_of_join hf (tabulate s m a ha) (tabulate s n b hb) (Shape.join_self s)]
  refine congrArg some (tabulate_congr _ _ rfl fun i => ?_)
  exact congrArg₂ f (row_tabulate_project a ha _ i) (row_tabulate_project b hb _ i)

theorem ofList_eq {l : List α} {n : Nat} (h : l.length = n) : ofList l = ⟨n, .single ⟨l, h⟩⟩ := by
  subst h
  rfl

theorem lift_ofList {g : Nat → Nat} {f : List α → List β} (hf : ∀ l, (f l).length = g l.length) (l : List α) :
    (ofList l).lift f hf = ofList (f l) :=
  (ofList_eq (hf l)).symm

theorem lift₂?_ofList {g : Nat → Nat → Nat} {f : List α → List β → List γ}
    (hf : ∀ l t, (f l t).length = g l.length t.length) (p : List α) (q : List β) :
    lift₂? f hf (ofList p) (ofList q) = some (ofList (f p q)) :=
  congrArg some (ofList_eq (hf p q)).symm

end Rows

section Elementwise

variable (f : α → β → γ)

theorem zipWith?_of_join_eq_none {p : PolyBatch α} {q : PolyBatch β} (h : p.shape.join q.shape = none) :
    zipWith? f p q = none := by
  have hjoin : p.coeffs.shape.join q.coeffs.shape = none := by
    change Shape.join (p.width :: p.shape) (q.width :: q.shape) = none
    rw [Shape.join, h]
    cases Shape.joinAxis p.width q.width <;> rfl
  rw [zipWith?, Batch.zipWith?_of_join_eq_none f hjoin]
  rfl

theorem zipWith?_of_join {p : PolyBatch α} {q : PolyBatch β} {n : Nat} {s : Shape}
    (hn : Shape.joinAxis p.width q.width = some n) (h : p.shape.join q.shape = some s) :
    zipWith? f p q = some ⟨n, s, .ofFn s fun i => .ofFn fun k =>
      f ((p.rows.get (i.project (join_fits h).1)).get (Index.squeeze (Shape.joinAxis_fits hn).1 k))
        ((q.rows.get (i.project (join_fits h).2)).get (Index.squeeze (Shape.joinAxis_fits hn).2 k))⟩ := by
  rw [zipWith?, Batch.zipWith?_of_join f p.coeffs q.coeffs (Shape.join_cons hn h)]
  rfl

theorem zipWith?_of_width_eq {p : PolyBatch α} {q : PolyBatch β} (hw : p.width = q.width) {s : Shape}
    (h : p.shape.join q.shape = some s) :
    zipWith? f p q = some (tabulate s p.width (fun i => List.zipWith f (p.row (i.project (join_fits h).1))
      (q.row (i.project (join_fits h).2))) fun i => by
        rw [List.length_zipWith, length_row, length_row, hw, Nat.min_self]) := by
  obtain ⟨n, a⟩ := p
  obtain ⟨m, b⟩ := q
  obtain rfl : n = m := hw
  have hrows : zipWith? f ⟨n, a⟩ ⟨n, b⟩ = ((Batch.zipWith? (Row.zipWith f) a b).map Batch.ofRows).bind ofCoeffs? :=
    congrArg (Option.bind · ofCoeffs?) (Batch.zipWith?_ofRows f a b)
  rw [hrows, Batch.zipWith?_of_join _ a b h]
  exact congrArg some (eq_tabulate rfl fun i => congrArg Row.toList (Grid.get_ofFn _ i))

theorem zipWith?_constants {p : PolyBatch α} {c : Batch β} {s : Shape} (h : p.shape.join c.shape = some s) :
    zipWith? f p (constants c) = some (tabulate s p.width (fun i =>
      (p.row (i.project (join_fits h).1)).map (f · (c.get (i.project (join_fits h).2)))) fun i => by
        rw [List.length_map, length_row]) := by
  rw [zipWith?_of_join f (q := constants c) (Shape.joinAxis_of_fits (.inr rfl)).2 h]
  refine congrArg some (eq_tabulate rfl fun i => ?_)
  rw [Grid.get_ofFn]
  refine congrArg Row.toList (Row.ext fun k => ?_ :
    _ = (p.rows.get (i.project (join_fits h).1)).map (f · (c.get (i.project (join_fits h).2))))
  rw [Row.get_ofFn, Row.get_map, Index.squeeze_self]
  refine congrArg (f _) ((congrArg (fun r : Row 1 β => r.get _) (Batch.get_map _ c _)).trans ?_)
  exact Row.get_replicate _ _

theorem constants_zipWith? {c : Batch α} {q : PolyBatch β} {s : Shape} (h : c.shape.join q.shape = some s) :
    zipWith? f (constants c) q = some (tabulate s q.width (fun i =>
      (q.row (i.project (join_fits h).2)).map (f (c.get (i.project (join_fits h).1)))) fun i => by
        rw [List.length_map, length_row]) := by
  rw [zipWith?_of_join f (p := constants c) (Shape.joinAxis_of_fits (.inr rfl)).1 h]
  refine congrArg some (eq_tabulate rfl fun i => ?_)
  rw [Grid.get_ofFn]
  refine congrArg Row.toList (Row.ext fun k => ?_ :
    _ = (q.rows.get (i.project (join_fits h).2)).map (f (c.get (i.project (join_fits h).1))))
  rw [Row.get_ofFn, Row.get_map, Index.squeeze_self]
  refine congrArg (f · _) ((congrArg (fun r : Row 1 α => r.get _) (Batch.get_map _ c _)).trans ?_)
  exact Row.get_replicate _ _

theorem zipWith?_tabulate {s : Shape} {m n : Nat} {a : Index s → List α} {b : Index s → List β}
    (ha : ∀ i, (a i).length = m) (hb : ∀ i, (b i).length = n) (hmn : m = n) :
    zipWith? f (tabulate s m a ha) (tabulate s n b hb) =
      some (tabulate s m (fun i => List.zipWith f (a i) (b i)) fun i => by
        rw [List.length_zipWith, ha, hb, hmn, Nat.min_self]) := by
  rw [zipWith?_of_width_eq f (p := tabulate s m a ha) (q := tabulate s n b hb) hmn (Shape.join_self s)]
  refine congrArg some (tabulate_congr _ _ rfl fun i => ?_)
  exact congrArg₂ (List.zipWith f) (row_tabulate_project a ha _ i) (row_tabulate_project b hb _ i)

theorem zipWith?_tabulate_constants {s : Shape} {m : Nat} {a : Index s → List α} (ha : ∀ i, (a i).length = m)
    (c : Grid s β) :
    zipWith? f (tabulate s m a ha) (constants ⟨s, c⟩) =
      some (tabulate s m (fun i => (a i).map (f · (c.get i))) fun i => by rw [List.length_map, ha]) := by
  rw [zipWith?_constants f (p := tabulate s m a ha) (c := ⟨s, c⟩) (Shape.join_self s)]
  refine congrArg some (tabulate_congr _ _ rfl fun i => ?_)
  exact congrArg₂ (fun l x => l.map (f · x)) (row_tabulate_project a ha _ i)
    (congrArg c.get (Index.project_self _ i))

end Elementwise

section Sum

variable [Zero α]

theorem row_pad (before after : Nat) (p : PolyBatch α) (i : Index p.shape) :
    (p.pad before after).row i = List.replicate before 0 ++ p.row i ++ List.replicate after 0 :=
  congrArg Row.toList (Batch.get_map (Row.pad 0 before after) p.rows i)

theorem padZip?_eq_lift₂? (f : α → α → α) (p q : PolyBatch α) :
    padZip? f p q = lift₂? (Coeffs.padZip f) (Coeffs.length_padZip f) p q := by
  cases h : p.shape.join q.shape with
  | none =>
      rw [lift₂?, Batch.zipWith?_of_join_eq_none _ h]
      exact zipWith?_of_join_eq_none (p := p.pad 0 _) (q := q.pad 0 _) f h
  | some s =>
      have hw : (p.pad 0 (q.width - p.width)).width = (q.pad 0 (p.width - q.width)).width := by
        simp only [pad]
        omega
      rw [padZip?, zipWith?_of_width_eq f hw h, lift₂?_of_join _ p q h]
      refine congrArg some (tabulate_congr _ _ ?_ fun i => ?_)
      · simp only [pad]
        omega
      · rw [Coeffs.padZip_eq, length_row, length_row]
        exact congrArg₂ (List.zipWith f) (row_pad 0 _ p _) (row_pad 0 _ q _)

end Sum

end PolyBatch

end PolyRoots
