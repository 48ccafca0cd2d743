import PolyRoots.Cplx.Batch
import PolyRoots.Proofs.Grid.Combine

universe u v

namespace PolyRoots

theorem Batch.pick?_map {α : Type u} {β : Type v} {n : Nat} (test : α → Bool) (g h : α → Row n β) (b : Batch α) :
    pick? (b.map test).unsqueeze (b.map g).ofRows (b.map h).ofRows =
      some (b.map fun x => if test x then g x else h x).ofRows := by
  have htest : (b.map test).Reads b.shape fun i => test (b.get i) :=
    ⟨Shape.fits_refl b.shape, fun i => (congrArg _ (Index.project_self _ i)).trans (get_map test b i)⟩
  refine (pick?_unsqueeze_ofRows htest _ _).trans (congrArg (fun x => some (ofRows ⟨b.shape, x⟩)) ?_)
  apply Grid.ext
  intro i
  refine (Grid.get_ofFn _ i).trans (Eq.trans ?_ (Grid.get_map _ b.cells i).symm)
  exact congrArg₂ (fun r t => if test (b.get i) then r else t) (get_map g b i) (get_map h b i)

theorem Batch.stack?_map {α : Type u} {β : Type v} {n : Nat} {l : List (α → β)} (hl : l ≠ [])
    (hn : l.length = n) {g : α → Row n β} (hg : ∀ x, (g x).toList = l.map (· x)) (b : Batch α) :
    stack? (l.map b.map) = some (b.map g).ofRows := by
  let cells : List (Grid b.shape β) := l.map fun f => b.cells.map f
  have hcells : l.map b.map = cells.map (Batch.mk b.shape) := by
    rw [List.map_map]
    rfl
  have hrow (i : Index b.shape) : cells.map (Grid.get · i) = l.map (· (b.get i)) := by
    rw [List.map_map]
    exact List.map_congr_left fun f _ => Grid.get_map f b.cells i
  rw [hcells, stack?_mk fun h => hl (List.map_eq_nil_iff.1 h)]
  refine congrArg some (ofRows_congr ((List.length_map _).trans hn) fun i => ?_)
  refine (congrArg Row.toList (Grid.get_ofFn _ i)).trans ((hrow i).trans ?_)
  rw [← hg]
  exact (congrArg Row.toList (get_map g b i)).symm

namespace Cplx

open Elementary

variable {α : Type u} [Zero α] [One α] [Add α] [Neg α] [Mul α] [Div α] [NatCast α] [BEq α] [LT α]
  [DecidableLT α] [Elementary α]

def rootRow (n : Nat) (z : Cplx α) : Row n (Cplx α) := ⟨z.roots n, z.length_roots n⟩

def polarRow (n : Nat) (z : Cplx α) : Row n (Cplx α) := ⟨polarRoots z n, by simp [polarRoots]⟩

omit [One α] [Add α] [BEq α] [LT α] [DecidableLT α] in
theorem length_axisRoots {n : Nat} (hn : n ≤ 4) (r : α) : (axisRoots r n).length = n := by
  obtain rfl | rfl | rfl | rfl | rfl : n = 0 ∨ n = 1 ∨ n = 2 ∨ n = 3 ∨ n = 4 := by omega
  all_goals rfl

def axisRow {n : Nat} (hn : n ≤ 4) (r : α) : Row n (Cplx α) := ⟨axisRoots r n, length_axisRoots hn r⟩

omit [Zero α] [Neg α] [BEq α] [LT α] [DecidableLT α] in
theorem polarRoots?_eq (n : Nat) (z : Batch (Cplx α)) : z.polarRoots? n = some (z.map (polarRow n)).ofRows := by
  let turns : Row n α := .ofFn fun k => 2 * pi * (k.val : α)
  let magnitude (z : Cplx α) : α := pow z.normSq (1 / 2 / (n : α))
  have hphi : Batch.zipWith? (fun a t => (a + t) / (n : α)) (z.map angle).unsqueeze (.ofRow turns) =
      some (z.map fun z => turns.map fun t => (z.angle + t) / (n : α)).ofRows := by
    rw [Batch.zipWith?_unsqueeze_ofRow, Batch.map_map]
  have hpolar : Batch.zipWith? polar (z.map magnitude).unsqueeze
      (z.map fun z => turns.map fun t => (z.angle + t) / (n : α)).ofRows =
        some (z.map (polarRow n)).ofRows := by
    rw [Batch.zipWith?_unsqueeze_ofRows, Batch.zipWith?_map_self]
    refine congrArg (fun f => some (z.map f).ofRows) (funext fun z => Row.ext fun k => ?_)
    rw [Row.get_map, Row.get_map, Row.get_ofFn]
    simp [polarRow, polarRoots, Row.get, magnitude]
    rfl
  exact (congrArg (Option.bind · _) hphi).trans hpolar

omit [One α] [Add α] [BEq α] [LT α] [DecidableLT α] in
theorem stack?_axisFormulas {n : Nat} (hn : n ≠ 0) (hle : n ≤ 4) (r : Batch α) :
    Batch.stack? ((axisFormulas n).map r.map) = some (r.map (axisRow hle)).ofRows := by
  have hlength (x : α) : (axisFormulas n : List (α → Cplx α)).length = n :=
    (List.length_map _).symm.trans (axisRow hle x).property
  refine Batch.stack?_map ?_ (hlength 0) (fun _ => rfl) r
  intro hnil
  exact hn ((hlength 0).symm.trans (congrArg List.length hnil))

/-- The closed forms are computed everywhere if they are needed anywhere, but are taken only where they
belong. -/
theorem roots?_eq {n : Nat} (hn : n ≠ 0) (z : Batch (Cplx α)) :
    z.roots? n = some (z.map (rootRow n)).ofRows := by
  let test (z : Cplx α) : Bool := z.im == 0 && 0 < z.re
  have hroots (w : Cplx α) : w.roots n =
      if n ≤ 4 && test w then axisRoots (pow w.re (1 / (n : α))) n else polarRoots w n := by
    rw [roots, Bool.and_assoc]
  rw [Batch.roots?, polarRoots?_eq]
  change (if n ≤ 4 && (z.map test).unsqueeze.any then _ else _) = _
  by_cases h : n ≤ 4 && (z.map test).unsqueeze.any
  · have hle : n ≤ 4 := of_decide_eq_true (Bool.and_eq_true_iff.1 h).1
    have hchosen (w : Cplx α) : (if test w then axisRow hle (pow w.re (1 / (n : α))) else polarRow n w) =
        rootRow n w := by
      refine Subtype.ext (Eq.trans ?_ (hroots w).symm)
      rw [decide_eq_true hle, Bool.true_and]
      split <;> rfl
    rw [if_pos h, stack?_axisFormulas hn hle, Batch.map_map]
    refine (Batch.pick?_map test _ _ z).trans ?_
    exact congrArg (fun f => some (z.map f).ofRows) (funext hchosen)
  · have hpolar (w : Cplx α) (hw : (n ≤ 4 && test w) = false) : polarRow n w = rootRow n w := by
      apply Subtype.ext
      exact ((hroots w).trans (if_neg (Bool.eq_false_iff.1 hw))).symm
    rw [if_neg h]
    refine congrArg (fun x => some (Batch.ofRows ⟨z.shape, x⟩)) (Grid.ext fun i => ?_)
    rw [Grid.get_map, Grid.get_map]
    apply hpolar
    rcases Bool.and_eq_false_iff.1 (eq_false_of_ne_true h) with hle | hany
    · rw [hle, Bool.false_and]
    · have hone := Grid.get_of_any_eq_false hany (⟨0, Nat.one_pos⟩, i)
      have htest : test (z.get i) = false :=
        (Batch.get_map test z i).symm.trans ((Batch.get_unsqueeze (z.map test) (_, i)).symm.trans hone)
      exact (congrArg _ htest).trans (Bool.and_false _)

end Cplx

end PolyRoots
