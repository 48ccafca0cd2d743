import Mathlib.Algebra.Field.Rat
import Mathlib.Algebra.Order.Ring.Rat
import Mathlib.Data.List.Chain
import Mathlib.Data.List.Induction
import PolyRoots.Proofs.Scalar.Line
import PolyRoots.Solve.RealRoots

universe u

namespace PolyRoots

namespace Solve

variable {α : Type u}

theorem rel_of_mem_zip_tail {r : α → α → Prop} {bs : List α} (h : bs.IsChain r) (s : α × α)
    (hs : s ∈ bs.zip bs.tail) : r s.1 s.2 := by
  induction bs with
  | nil => cases hs
  | cons a bs ih =>
      cases bs with
      | nil => cases hs
      | cons b bs =>
          rw [List.tail_cons, List.zip_cons_cons, List.mem_cons] at hs
          rcases hs with rfl | hs
          · exact h.rel
          · exact ih h.tail hs

section Bracket

variable [Zero α] [LT α] [DecidableLT α] [BEq α]

def Opposite (u v : α) : Prop := (u < 0 ∧ 0 < v) ∨ (0 < u ∧ v < 0)

instance instDecidableOpposite (u v : α) : Decidable (Opposite u v) := inferInstanceAs (Decidable (_ ∨ _))

/-- What the bracket `[a, b]` adds to the roots: the result of its search if `f` changes sign between
the ends, and the right end, once or twice, if it is a zero. -/
def bracketRoots (f : α → α) (find : α → α → Search α) (multiple : Bool) (critical : List α)
    (a b : α) : List α :=
  if Opposite (f a) (f b) then (find a b).root.toList
  else if f b == 0 then
    if multiple && critical.any (· == b) then [b, b] else [b]
  else []

/-- Breakpoints on which a scan for the zeros of `f` can rely. Signs are known there and products
have the sign that they should have; the first breakpoint is no zero, zeros are not neighbours, and a
search ends at the right end of its bracket only if that is a zero. -/
structure Scannable [Mul α] (f : α → α) (find : α → α → Search α) (bs : List α) : Prop where
  increasing : bs.IsChain (· < ·)
  defined : ∀ u ∈ bs, f u == 0 ∨ 0 < f u ∨ f u < 0
  product : ∀ u ∈ bs, ∀ v ∈ bs, 0 < f u * f v ↔ (0 < f u ∧ 0 < f v) ∨ (f u < 0 ∧ f v < 0)
  first : ∀ u ∈ bs.head?, (f u == 0) = false
  apart : bs.IsChain fun u v => ¬ (f u == 0 ∧ f v == 0)
  ends : bs.IsChain fun u v => ∀ x ∈ (find u v).root, x == v → f v == 0

omit [DecidableLT α] in
theorem Scannable.suffix [Mul α] {f : α → α} {find : α → α → Search α} {bs cs : List α}
    (h : Scannable f find bs) (hs : cs <:+ bs) (hfirst : ∀ u ∈ cs.head?, (f u == 0) = false) :
    Scannable f find cs where
  increasing := h.increasing.suffix hs
  defined u hu := h.defined u (hs.subset hu)
  product u hu v hv := h.product u (hs.subset hu) v (hs.subset hv)
  first := hfirst
  apart := h.apart.suffix hs
  ends := h.ends.suffix hs

variable [StrictComparison α]

omit [DecidableLT α] in
theorem not_opposite_of_zero {u v : α} (h : u == 0) : ¬ Opposite u v := by
  rintro (⟨hu, _⟩ | ⟨hu, _⟩)
  · rw [StrictComparison.beq_left hu] at h
    cases h
  · rw [StrictComparison.beq_right hu] at h
    cases h

omit [DecidableLT α] in
theorem Opposite.left_ne_zero {u v : α} (h : Opposite u v) : (u == 0) = false :=
  Bool.eq_false_iff.2 fun hu => not_opposite_of_zero hu h

omit [DecidableLT α] in
theorem Opposite.right_ne_zero {u v : α} (h : Opposite u v) : (v == 0) = false := by
  rcases h with ⟨_, hv⟩ | ⟨_, hv⟩
  · exact StrictComparison.beq_right hv
  · exact StrictComparison.beq_left hv

omit [DecidableLT α] in
theorem Opposite.not_same {u v : α} (h : Opposite u v) : ¬ ((0 < u ∧ 0 < v) ∨ (u < 0 ∧ v < 0)) := by
  rcases h with ⟨hu, hv⟩ | ⟨hu, hv⟩
  · rintro (⟨hu', _⟩ | ⟨_, hv'⟩)
    · exact StrictComparison.asymm hu hu'
    · exact StrictComparison.asymm hv hv'
  · rintro (⟨_, hv'⟩ | ⟨hu', _⟩)
    · exact StrictComparison.asymm hv hv'
    · exact StrictComparison.asymm hu hu'

theorem bracketRoots_zero {f : α → α} {find : α → α → Search α} {multiple : Bool} {critical : List α}
    {a b : α} (hb : f b == 0) : bracketRoots f find multiple critical a b =
      if multiple && critical.any (· == b) then [b, b] else [b] := by
  have hop : ¬ Opposite (f a) (f b) := by
    intro h
    rw [h.right_ne_zero] at hb
    cases hb
  rw [bracketRoots, if_neg hop, if_pos hb]

/-- The bracket to the right of a zero adds nothing, which is why it can be skipped. -/
theorem bracketRoots_after_zero {f : α → α} {find : α → α → Search α} {multiple : Bool}
    {critical : List α} {a b : α} (ha : f a == 0) (hb : (f b == 0) = false) :
    bracketRoots f find multiple critical a b = [] := by
  rw [bracketRoots, if_neg (not_opposite_of_zero ha), hb]
  rfl

end Bracket

section Step

variable [BEq α] (find : α → α → Search α) (multiple : Bool) (critical : List α)

theorem scan_at_end {a b : α} (rest : List α) (h : (find a b).root = some b) (hb : b == b) :
    (scan find multiple critical (a :: b :: rest)).roots =
      (if multiple && critical.any (· == b) then [b, b] else [b]) ++
        (scan find multiple critical rest).roots := by
  simp only [scan, h, hb, if_true]

theorem scan_inside {a b : α} (rest : List α) (h : ∀ x ∈ (find a b).root, (x == b) = false) :
    (scan find multiple critical (a :: b :: rest)).roots =
      (find a b).root.toList ++ (scan find multiple critical (b :: rest)).roots := by
  cases hroot : (find a b).root with
  | none => simp only [scan, hroot, Option.toList_none, List.nil_append]
  | some x =>
      have hx : (x == b) = false := h x (by rw [hroot]; rfl)
      simp only [scan, hroot, hx, Bool.false_eq_true, if_false, Option.toList_some, List.cons_append,
        List.nil_append]

end Step

section Search

variable [Zero α] [One α] [Add α] [Sub α] [Neg α] [Mul α] [Div α] [NatCast α] [BEq α] [LT α]
  [DecidableLT α] [Extended α]

omit [One α] [Add α] [Mul α] [NatCast α] [Extended α] in
theorem newtonSteps_root (f df : α → α) (n : Nat) (x y : α) :
    ∃ z, (newtonSteps f df n x y).root = some z := by
  induction n generalizing x y with
  | zero => exact ⟨x, rfl⟩
  | succ n ih =>
      simp only [newtonSteps]
      split
      · exact ⟨x, rfl⟩
      · split
        · exact ih _ _
        · exact ⟨x, rfl⟩

variable [StrictComparison α] {f df : α → α} {a b : α} {n : Nat}

theorem search_root_right (hab : a < b) (ha : (f a == 0) = false) (hb : f b == 0) :
    (search f df a b n).root = some b := by
  simp [search, StrictComparison.asymm hab, StrictComparison.beq_left hab, ha, hb, Search.early]

theorem search_root_same (hab : a < b) (ha : (f a == 0) = false) (hb : (f b == 0) = false)
    (hpos : 0 < f a * f b) : (search f df a b n).root = none := by
  simp [search, StrictComparison.asymm hab, StrictComparison.beq_left hab, ha, hb, hpos, Search.early]

theorem search_root_change (hab : a < b) (ha : (f a == 0) = false) (hb : (f b == 0) = false)
    (hpos : ¬ 0 < f a * f b) : ∃ x, (search f df a b n).root = some x := by
  obtain ⟨x, hx⟩ := newtonSteps_root f df n (seed a b) (f (seed a b))
  refine ⟨x, ?_⟩
  simpa [search, StrictComparison.asymm hab, StrictComparison.beq_left hab, ha, hb, hpos, Search.after]
    using hx

theorem bracketRoots_search {multiple : Bool} {critical : List α} (hab : a < b)
    (hfa : f a == 0 ∨ 0 < f a ∨ f a < 0) (hfb : f b == 0 ∨ 0 < f b ∨ f b < 0)
    (hprod : 0 < f a * f b ↔ (0 < f a ∧ 0 < f b) ∨ (f a < 0 ∧ f b < 0))
    (ha : (f a == 0) = false) (hb : (f b == 0) = false) :
    bracketRoots f (fun u v => search f df u v n) multiple critical a b =
      (search f df a b n).root.toList := by
  rw [ha] at hfa
  rw [hb] at hfb
  rw [bracketRoots, hb]
  by_cases hpos : 0 < f a * f b
  · have hop : ¬ Opposite (f a) (f b) := fun h => h.not_same (hprod.1 hpos)
    rw [search_root_same hab ha hb hpos, if_neg hop]
    rfl
  · have hop : Opposite (f a) (f b) := by
      rw [hprod] at hpos
      rcases hfa with h | hu | hu
      · cases h
      · rcases hfb with h | hv | hv
        · cases h
        · exact absurd (.inl ⟨hu, hv⟩) hpos
        · exact .inr ⟨hu, hv⟩
      · rcases hfb with h | hv | hv
        · cases h
        · exact .inl ⟨hu, hv⟩
        · exact absurd (.inr ⟨hu, hv⟩) hpos
    rw [if_pos hop]

/-- The scan adds bracket by bracket, although it leaves out the bracket after a zero. -/
theorem scan_roots (multiple : Bool) (critical bs : List α)
    (h : Scannable f (fun u v => search f df u v n) bs) :
    (scan (fun u v => search f df u v n) multiple critical bs).roots =
      (bs.zip bs.tail).flatMap fun s =>
        bracketRoots f (fun u v => search f df u v n) multiple critical s.1 s.2 := by
  induction bs using List.twoStepInduction with
  | nil => rfl
  | singleton a => rfl
  | cons_cons a b rest ihrest ihcons =>
      have hab : a < b := h.increasing.rel
      have ha : (f a == 0) = false := h.first a rfl
      cases hb : f b == 0 with
      | true =>
          rw [scan_at_end _ _ _ rest (search_root_right hab ha hb) (StrictComparison.beq_self hab),
            List.tail_cons, List.zip_cons_cons, List.flatMap_cons, bracketRoots_zero hb]
          congr 1
          cases rest with
          | nil => rfl
          | cons c rest =>
              have hc : (f c == 0) = false := by
                have hbc := (h.apart.tail).rel
                simpa [hb] using hbc
              rw [ihrest (h.suffix ((List.suffix_cons b _).trans (List.suffix_cons a _))
                  (by intro u hu; cases hu; exact hc)),
                List.zip_cons_cons, List.flatMap_cons, bracketRoots_after_zero hb hc]
              rfl
      | false =>
          have hin : ∀ x ∈ (search f df a b n).root, (x == b) = false := by
            intro x hx
            by_contra hxb
            rw [Bool.not_eq_false] at hxb
            have hz := h.ends.rel x hx hxb
            rw [hb] at hz
            cases hz
          rw [scan_inside _ _ _ rest hin, List.tail_cons, List.zip_cons_cons, List.flatMap_cons,
            bracketRoots_search hab (h.defined a (by simp)) (h.defined b (by simp))
              (h.product a (by simp) b (by simp)) ha hb,
            ihcons b (h.suffix (List.suffix_cons a _) (by intro u hu; cases hu; exact hb))]
          rfl

/-- In particular no change of sign is skipped: every such bracket adds exactly one value. -/
theorem scan_covers_brackets (multiple : Bool) (critical bs : List α)
    (h : Scannable f (fun u v => search f df u v n) bs) :
    (scan (fun u v => search f df u v n) multiple critical bs).roots =
        ((bs.zip bs.tail).flatMap fun s =>
          bracketRoots f (fun u v => search f df u v n) multiple critical s.1 s.2) ∧
      ∀ s ∈ bs.zip bs.tail, Opposite (f s.1) (f s.2) →
        ∃ x, (search f df s.1 s.2 n).root = some x := by
  refine ⟨scan_roots multiple critical bs h, ?_⟩
  intro s hs hop
  obtain ⟨hu, hv⟩ := List.of_mem_zip hs
  refine search_root_change (rel_of_mem_zip_tail h.increasing s hs) hop.left_ne_zero
    hop.right_ne_zero ?_
  rw [h.product s.1 hu s.2 (List.mem_of_mem_tail hv)]
  exact hop.not_same

end Search

def touching : List (Line ℚ) := [-1, -1, 1, 1]

def touchingSearch (a b : Line ℚ) : Search (Line ℚ) :=
  search (Coeffs.evaluate touching) (Coeffs.evaluate (Coeffs.derivative 1 touching)) a b defaultSteps

theorem scannable_touching :
    Scannable (Coeffs.evaluate touching) touchingSearch [.negInf, -1, 0, .posInf] where
  increasing := by decide +kernel
  defined := by decide +kernel
  product := by decide +kernel
  first := by decide +kernel
  apart := by decide +kernel
  ends := by decide +kernel

theorem scan_covers_brackets_touching :
    Scannable (Coeffs.evaluate touching) touchingSearch [.negInf, -1, 0, .posInf] ∧
      (scan touchingSearch true [-1] [.negInf, -1, 0, .posInf]).roots =
        ([(.negInf, -1), (-1, 0), (0, .posInf)].flatMap fun s =>
          bracketRoots (Coeffs.evaluate touching) touchingSearch true [-1] s.1 s.2) ∧
      ∀ s ∈ ([(.negInf, -1), (-1, 0), (0, .posInf)] : List (Line ℚ × Line ℚ)),
        Opposite (Coeffs.evaluate touching s.1) (Coeffs.evaluate touching s.2) →
          ∃ x, (touchingSearch s.1 s.2).root = some x :=
  ⟨scannable_touching, scan_covers_brackets true [-1] _ scannable_touching⟩

end Solve

end PolyRoots
