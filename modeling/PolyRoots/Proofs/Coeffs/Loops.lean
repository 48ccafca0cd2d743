import Mathlib.Data.List.FinRange
import PolyRoots.Coeffs.Construct
import PolyRoots.Coeffs.Evaluate
import PolyRoots.Grid.Row

universe u v

namespace PolyRoots

theorem Row.zipIdx_toList {α : Type u} {n : Nat} (r : Row n α) :
    r.toList.zipIdx = (List.finRange n).map fun k => (r.get k, k.val) := by
  obtain ⟨l, rfl⟩ := r
  apply List.ext_getElem
  · simp [toList]
  · intro k hk _
    simp [toList, get]

theorem Row.mapIdx_toList {α : Type u} {β : Type v} {n : Nat} (f : Nat → α → β) (r : Row n α) :
    r.toList.mapIdx f = (Row.ofFn fun k => f k (r.get k)).toList := by
  obtain ⟨l, rfl⟩ := r
  apply List.ext_getElem
  · simp [toList, ofFn]
  · intro k hk _
    simp [toList, get, ofFn]

theorem Row.toList_eq_map {α : Type u} {n : Nat} (r : Row n α) : r.toList = (List.finRange n).map r.get := by
  obtain ⟨l, rfl⟩ := r
  exact (List.map_get_finRange l).symm

namespace Coeffs

variable {α : Type u}

def addAt [Add α] (i : Nat) (row acc : List α) : List α := acc.take i ++ addFront (acc.drop i) row

theorem addFront_eq [Add α] (acc row : List α) :
    addFront acc row = List.zipWith (· + ·) acc row ++ acc.drop row.length := by
  induction acc generalizing row with
  | nil => simp [addFront]
  | cons a acc ih => cases row <;> simp [addFront, ih]

theorem addAt_eq [Add α] (i : Nat) (row acc : List α) : addAt i row acc =
    acc.take i ++ List.zipWith (· + ·) ((acc.drop i).take row.length) row ++ acc.drop (i + row.length) := by
  have hzip (l : List α) : List.zipWith (· + ·) (l.take row.length) row = List.zipWith (· + ·) l row := by
    calc
      List.zipWith (· + ·) (l.take row.length) row
        = List.zipWith (· + ·) (l.take row.length) (row.take row.length) := by rw [List.take_length]
      _ = (List.zipWith (· + ·) l row).take row.length := List.take_zipWith.symm
      _ = List.zipWith (· + ·) l row := List.take_of_length_le (by simp)
  rw [addAt, addFront_eq, hzip, List.append_assoc, List.drop_drop]

theorem length_addAt [Add α] (i : Nat) (row acc : List α) : (addAt i row acc).length = acc.length := by
  simp only [addAt, List.length_append, List.length_take, length_addFront, List.length_drop]
  omega

section Product

variable [Add α] [Mul α]

theorem mulAdd_nil (q p : List α) : mulAdd q p [] = [] := by
  cases p <;> rfl

theorem foldl_addAt (q p : List α) (i : Nat) (acc : List α) :
    (p.zipIdx i).foldl (fun acc ak => addAt ak.2 (q.map (ak.1 * ·)) acc) acc =
      acc.take i ++ mulAdd q p (acc.drop i) := by
  induction p generalizing i acc with
  | nil => exact (List.take_append_drop i acc).symm
  | cons a p ih =>
      rw [List.zipIdx_cons, List.foldl_cons, ih, mulAdd]
      have hlen := length_addFront (acc.drop i) (q.map (a * ·))
      rcases Nat.lt_or_ge i acc.length with hi | hi
      · obtain ⟨c, rest, hrest⟩ := List.exists_cons_of_length_pos
          (l := addFront (acc.drop i) (q.map (a * ·))) (by rw [hlen, List.length_drop]; omega)
        have htake : (acc.take i).length = i := List.length_take_of_le hi.le
        rw [addAt, hrest, List.take_append, List.drop_append, htake]
        simp [List.take_take, List.drop_eq_nil_of_le (htake.le.trans (Nat.le_succ i))]
      · have hdrop : acc.drop i = [] := List.drop_eq_nil_of_le hi
        have htake : acc.take i = acc := List.take_of_length_le hi
        rw [addAt, hdrop, htake]
        simp [addFront, mulAdd_nil, List.take_of_length_le (hi.trans (Nat.le_succ i)),
          List.drop_eq_nil_of_le (hi.trans (Nat.le_succ i))]

theorem mul_eq_foldl [Zero α] {m : Nat} (p : Row m α) (q : List α) :
    mul p.toList q = (List.finRange m).foldl (fun acc k => addAt k.val (q.map (p.get k * ·)) acc)
      (List.replicate (p.toList.length + q.length - 1) 0) := by
  have h := foldl_addAt q p.toList 0 (List.replicate (p.toList.length + q.length - 1) 0)
  rw [Row.zipIdx_toList, List.foldl_map] at h
  exact h.symm

end Product

theorem padZip_eq [Zero α] (f : α → α → α) (p q : List α) :
    padZip f p q = List.zipWith f (p ++ List.replicate (q.length - p.length) 0)
      (q ++ List.replicate (p.length - q.length) 0) := by
  induction p generalizing q with
  | nil =>
      induction q with
      | nil => rfl
      | cons b q ih => simpa [padZip, List.replicate_succ] using ih
  | cons a p ih =>
      cases q with
      | nil =>
          have hmap (l : List α) : l.map (f · 0) = List.zipWith f l (List.replicate l.length 0) := by
            induction l with
            | nil => rfl
            | cons a l ih => simp [List.replicate_succ, ih]
          simp [padZip, hmap, List.replicate_succ]
      | cons b q => simpa [padZip] using ih q

section Roots

variable [Zero α] [Add α] [Mul α] [Neg α]

theorem length_foldl_timesRoot {ι : Type v} (root : ι → α) (ks : List ι) (p : List α) :
    (ks.foldl (fun p k => timesRoot p (root k)) p).length = p.length + ks.length := by
  induction ks generalizing p with
  | nil => rfl
  | cons k ks ih =>
      rw [List.foldl_cons, ih, length_timesRoot, List.length_cons]
      omega

theorem fromRoots_eq_foldl [One α] {m : Nat} (r : Row m α) :
    fromRoots r.toList = (List.finRange m).foldl (fun p k => timesRoot p (r.get k)) [1] := by
  rw [fromRoots, Row.toList_eq_map, List.foldl_map]

end Roots

theorem Horner.run_eq_foldr [Zero α] [BEq α] [Add α] [Mul α] [Extended α] (x : α) (i : Nat) (p : List α) :
    run x i p = (p.zipIdx i).foldr (fun ak h => step x ak.2 ak.1 h) ⟨0, none⟩ := by
  induction p generalizing i with
  | nil => rfl
  | cons a p ih => rw [List.zipIdx_cons, List.foldr_cons, run, ih]

end Coeffs

end PolyRoots
