import PolyRoots.Proofs.Grid.Broadcast

universe u v w x

namespace PolyRoots

theorem Row.map_zipWith_mk {α : Type u} {n : Nat} (b : Bool) (r t : Row n α) :
    (r.zipWith Prod.mk t).map (fun x => if b then x.1 else x.2) = if b then r else t := by
  refine Row.ext fun k => ?_
  rw [Row.get_map, Row.get_zipWith]
  cases b <;> rfl

namespace Batch

variable {α : Type u} {β : Type v} {γ : Type w} {δ : Type x}

theorem map_map (f : α → β) (g : β → γ) (b : Batch α) : (b.map f).map g = b.map fun x => g (f x) :=
  by
  refine congrArg (Batch.mk b.shape) (Grid.ext fun i => ?_)
  exact (get_map g (b.map f) i).trans ((congrArg g (get_map f b i)).trans (get_map (fun x => g (f x)) b i).symm)

theorem zipWith?_of_join_eq_none (f : α → β → γ) {a : Batch α} {b : Batch β}
    (h : a.shape.join b.shape = none) : zipWith? f a b = none := by
  rw [← Option.not_isSome_iff_eq_none, zipWith?_isSome_iff, h]
  exact Bool.false_ne_true

theorem map_zipWith? (g : γ → δ) (f : α → β → γ) (a : Batch α) (b : Batch β) :
    (zipWith? f a b).map (Batch.map g) = zipWith? (fun x y => g (f x y)) a b := by
  cases h : a.shape.join b.shape with
  | none =>
      rw [zipWith?_of_join_eq_none _ h, zipWith?_of_join_eq_none _ h]
      rfl
  | some s =>
      rw [zipWith?_of_join _ _ _ h, zipWith?_of_join _ _ _ h]
      refine congrArg (fun x => some (Batch.mk s x)) (Grid.ext fun i => ?_)
      rw [Grid.get_map, Grid.get_ofFn, Grid.get_ofFn]

theorem zipWith?_map_right {δ : Type x} (f : α → β → γ) (g : δ → β) (a : Batch α) (b : Batch δ) :
    zipWith? f a (b.map g) = zipWith? (fun x y => f x (g y)) a b := by
  cases h : a.shape.join b.shape with
  | none =>
      rw [zipWith?_of_join_eq_none _ h]
      exact zipWith?_of_join_eq_none (b := b.map g) _ h
  | some s =>
      rw [zipWith?_of_join _ _ _ h]
      refine (zipWith?_of_join f a (b.map g) h).trans (congrArg (fun x => some (Batch.mk s x)) ?_)
      refine Grid.ext fun i => ?_
      rw [Grid.get_ofFn, Grid.get_ofFn]
      exact congrArg (f _) (get_map g b _)

theorem zipWith?_swap (f : α → β → γ) (a : Batch α) (b : Batch β) :
    zipWith? f a b = zipWith? (fun y x => f x y) b a := by
  cases h : a.shape.join b.shape with
  | none => rw [zipWith?_of_join_eq_none f h, zipWith?_of_join_eq_none _ (Shape.join_comm _ _ ▸ h)]
  | some s => rw [zipWith?_of_join f _ _ h, zipWith?_of_join _ _ _ (Shape.join_comm _ _ ▸ h)]

theorem zipWith?_single (f : α → β → γ) (a : Batch α) (y : β) :
    zipWith? f a (single y) = some (a.map fun x => f x y) := by
  rw [zipWith?_of_join f a (single y) (Shape.join_nil a.shape)]
  refine congrArg (fun x => some (Batch.mk a.shape x)) (Grid.ext fun i => ?_)
  rw [Grid.get_ofFn, Index.project_self]
  exact (get_map (fun x => f x y) a i).symm

theorem zipWith?_self (f : α → α → β) (a : Batch α) : zipWith? f a a = some (a.map fun x => f x x) := by
  rw [zipWith?_of_join f a a (Shape.join_self a.shape)]
  refine congrArg (fun x => some (Batch.mk a.shape x)) (Grid.ext fun i => ?_)
  rw [Grid.get_ofFn, Index.project_self]
  exact (get_map (fun x => f x x) a i).symm

theorem zipWith?_map_self (f : β → γ → δ) (g : α → β) (h : α → γ) (a : Batch α) :
    zipWith? f (a.map g) (a.map h) = some (a.map fun x => f (g x) (h x)) := by
  rw [zipWith?_map_right, zipWith?_swap, zipWith?_map_right, zipWith?_self]

theorem zipWith?_fits {f : α → β → γ} {a : Batch α} {b : Batch β} {c : Batch γ} (h : zipWith? f a b = some c) :
    a.shape.Fits c.shape ∧ b.shape.Fits c.shape :=
  Shape.join_fits (zipWith?_eq_some h).1

theorem get_unsqueeze (b : Batch α) (i : Index (1 :: b.shape)) : b.unsqueeze.get i = b.get i.2 :=
  (congrArg (Row.get · i.1) (Grid.get_map (Row.replicate 1) b.cells i.2)).trans (Row.get_replicate _ i.1)

section Rows

variable {n : Nat}

theorem zipWith?_ofRows (f : α → β → γ) (a : Batch (Row n α)) (b : Batch (Row n β)) :
    zipWith? f a.ofRows b.ofRows = (zipWith? (Row.zipWith f) a b).map ofRows := by
  have haxis : Shape.joinAxis n n = some n := (Shape.joinAxis_of_fits (.inl rfl)).1
  cases h : a.shape.join b.shape with
  | none =>
      have hjoin : a.ofRows.shape.join b.ofRows.shape = none := by
        change Shape.join (n :: a.shape) (n :: b.shape) = none
        rw [Shape.join, h, haxis]
      rw [zipWith?_of_join_eq_none f hjoin, zipWith?_of_join_eq_none _ h]
      rfl
  | some s =>
      have hjoin : a.ofRows.shape.join b.ofRows.shape = some (n :: s) := Shape.join_cons haxis h
      rw [zipWith?_of_join f _ _ hjoin, zipWith?_of_join _ _ _ h]
      refine congrArg (fun x => some (Batch.mk (n :: s) x)) (Grid.ext fun i => ?_)
      have hrow := Grid.get_ofFn (fun i => (a.get (i.project (Shape.join_fits h).1)).zipWith f
        (b.get (i.project (Shape.join_fits h).2))) i.2
      refine (Grid.get_ofFn _ i).trans (Eq.trans ?_ (congrArg (Row.get · i.1) hrow).symm)
      rw [Row.get_zipWith]
      exact congrArg₂ f (congrArg (Row.get _) (Index.squeeze_self _ i.1))
        (congrArg (Row.get _) (Index.squeeze_self _ i.1))

theorem zipWith?_unsqueeze_ofRows (f : α → β → γ) (a : Batch α) (b : Batch (Row n β)) :
    zipWith? f a.unsqueeze b.ofRows = (zipWith? (fun x r => r.map (f x)) a b).map ofRows := by
  have haxis : Shape.joinAxis 1 n = some n := (Shape.joinAxis_of_fits (.inr rfl)).1
  cases h : a.shape.join b.shape with
  | none =>
      have hjoin : a.unsqueeze.shape.join b.ofRows.shape = none := by
        change Shape.join (1 :: a.shape) (n :: b.shape) = none
        rw [Shape.join, h, haxis]
      rw [zipWith?_of_join_eq_none f hjoin, zipWith?_of_join_eq_none _ h]
      rfl
  | some s =>
      have hjoin : a.unsqueeze.shape.join b.ofRows.shape = some (n :: s) := Shape.join_cons haxis h
      rw [zipWith?_of_join f _ _ hjoin, zipWith?_of_join _ _ _ h]
      refine congrArg (fun x => some (Batch.mk (n :: s) x)) (Grid.ext fun i => ?_)
      have hrow := Grid.get_ofFn (fun i => (b.get (i.project (Shape.join_fits h).2)).map
        (f (a.get (i.project (Shape.join_fits h).1)))) i.2
      refine (Grid.get_ofFn _ i).trans (Eq.trans ?_ (congrArg (Row.get · i.1) hrow).symm)
      rw [Row.get_map]
      exact congrArg₂ f (get_unsqueeze a _) (congrArg (Row.get _) (Index.squeeze_self _ i.1))

theorem ofRows_congr {s : Shape} {m : Nat} {x : Grid s (Row m α)} {y : Grid s (Row n α)} (hmn : m = n)
    (h : ∀ i, (x.get i).toList = (y.get i).toList) : ofRows ⟨s, x⟩ = ofRows ⟨s, y⟩ := by
  subst hmn
  exact congrArg (fun x => ofRows ⟨s, x⟩) (Grid.ext fun i => Subtype.ext (h i))

variable (f : α → β → γ) (r : Row n β)

theorem zipWith?_ofRows_ofRow (b : Batch (Row n α)) :
    zipWith? f b.ofRows (ofRow r) = some (b.map (·.zipWith f r)).ofRows :=
  (zipWith?_ofRows f b (single r)).trans (congrArg (Option.map ofRows) (zipWith?_single _ b r))

theorem zipWith?_unsqueeze_ofRow (b : Batch α) :
    zipWith? f b.unsqueeze (ofRow r) = some (b.map fun x => r.map (f x)).ofRows :=
  (zipWith?_unsqueeze_ofRows f b (single r)).trans (congrArg (Option.map ofRows) (zipWith?_single _ b r))

end Rows

theorem expand?_unsqueeze (b : Batch α) (s : Shape) :
    b.unsqueeze.expand? (1 :: s) = (b.expand? s).map fun x => .ofRows (x.map (.replicate 1)) := by
  by_cases h : b.shape.Fits s
  · have hb : b.unsqueeze.shape.Fits (1 :: s) := ⟨.inl rfl, h⟩
    rw [expand?, dif_pos hb, expand?, dif_pos h]
    refine congrArg some (Grid.ext fun i => ?_)
    rw [Grid.get_expand]
    have hone (x : α) (k k' : Fin 1) : (Row.replicate 1 x).get k = (Row.replicate 1 x).get k' := by
      rw [Subsingleton.elim k k']
    refine (congrArg (Row.get · _) (Grid.get_map (Row.replicate 1) b.cells _)).trans ((hone _ _ i.1).trans ?_)
    refine congrArg (Row.get · i.1) ((Grid.get_map (Row.replicate 1) _ i.2).trans ?_).symm
    rw [Grid.get_expand]
  · have hb : ¬ b.unsqueeze.shape.Fits (1 :: s) := fun hb => h hb.2
    rw [expand?, dif_neg hb, expand?, dif_neg h]
    rfl

section Reads

/-- Repeated to the shape `u`, the batch consists of the values of `f`. -/
def Reads (b : Batch α) (u : Shape) (f : Index u → α) : Prop :=
  ∃ h : b.shape.Fits u, ∀ i, b.get (i.project h) = f i

variable {u : Shape} {a : Batch α} {b : Batch β} {g : Index u → α} {h : Index u → β}

theorem reads_get (b : Batch α) (h : b.shape.Fits u) : b.Reads u fun i => b.get (i.project h) :=
  ⟨h, fun _ => rfl⟩

theorem Reads.map (ha : a.Reads u g) (f : α → β) : (a.map f).Reads u fun i => f (g i) :=
  ⟨ha.1, fun i => (get_map f a _).trans (congrArg f (ha.2 i))⟩

theorem Reads.zipWith? (ha : a.Reads u g) (hb : b.Reads u h) (f : α → β → γ) :
    ∃ c, Batch.zipWith? f a b = some c ∧ c.Reads u fun i => f (g i) (h i) := by
  obtain ⟨hga, hga'⟩ := ha
  obtain ⟨hhb, hhb'⟩ := hb
  obtain ⟨v, hv, hfits⟩ := Shape.join_least hga hhb
  refine ⟨_, zipWith?_of_join f a b hv, hfits, fun i => ?_⟩
  refine (Grid.get_ofFn _ _).trans ?_
  rw [Index.project_project, Index.project_project, hga', hhb']

theorem Reads.expand? (ha : a.Reads u g) : a.expand? u = some (.ofFn u g) := by
  obtain ⟨hfits, hget⟩ := ha
  exact (dif_pos hfits).trans (congrArg some (congrArg (Grid.ofFn u) (funext hget)))

theorem Reads.eq_of_fits (ha : a.Reads u g) (hu : u.Fits a.shape) : a = ⟨u, .ofFn u g⟩ := by
  obtain ⟨hfits, hget⟩ := ha
  obtain ⟨s, x⟩ := a
  obtain rfl : s = u := Shape.fits_antisymm hfits hu
  refine congrArg (Batch.mk s) (Grid.ext fun i => ?_)
  rw [Grid.get_ofFn, ← hget, Index.project_self]
  rfl

theorem pick?_unsqueeze_ofRows {n : Nat} {c : Batch Bool} {t : Index u → Bool} (hc : c.Reads u t)
    (x y : Grid u (Row n α)) : pick? c.unsqueeze (ofRows ⟨u, x⟩) (ofRows ⟨u, y⟩) =
      some (ofRows ⟨u, .ofFn u fun i => if t i then x.get i else y.get i⟩) := by
  let choose (b : Bool) (r : Row n (α × α)) : Row n α := r.map fun x => if b then x.1 else x.2
  have hx := reads_get ⟨u, x⟩ (Shape.fits_refl u)
  have hy := reads_get ⟨u, y⟩ (Shape.fits_refl u)
  obtain ⟨d, hd, hpairs⟩ := hx.zipWith? hy (Row.zipWith Prod.mk)
  obtain ⟨e, he, hread⟩ := hc.zipWith? hpairs choose
  have hfits : u.Fits e.shape := Shape.fits_trans (zipWith?_fits hd).1 (zipWith?_fits he).2
  rw [pick?, zipWith₃?, zipWith?_ofRows, hd, Option.map_some, Option.bind_some, zipWith?_unsqueeze_ofRows]
  refine (congrArg (Option.map ofRows) he).trans (congrArg (fun b => some (ofRows b)) ?_)
  refine (hread.eq_of_fits hfits).trans (congrArg (fun f => Batch.mk u (.ofFn u f)) (funext fun i => ?_))
  refine (Row.map_zipWith_mk (t i) _ _).trans ?_
  rw [Index.project_self]
  rfl

end Reads

section Stack

variable {s : Shape}

theorem stack?_mk {l : List (Grid s α)} (hl : l ≠ []) :
    stack? (l.map (Batch.mk s)) = some ⟨l.length :: s, .stack l⟩ := by
  cases l with
  | nil => cases hl rfl
  | cons x l =>
      have hcells : (l.map (Batch.mk s)).mapM (cells? s) = some l := by
        induction l with
        | nil => rfl
        | cons y l ih =>
            have hcell : cells? s ⟨s, y⟩ = some y := dif_pos rfl
            rw [List.map_cons, List.mapM_cons, hcell, ih (List.cons_ne_nil x l)]
            rfl
      exact congrArg (Option.map _) hcells

end Stack

end Batch

end PolyRoots
