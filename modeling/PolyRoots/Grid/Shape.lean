namespace PolyRoots

/-- Axis lengths, innermost first. Broadcasting aligns innermost axes, so in this order it is plain
recursion. -/
abbrev Shape := List Nat

namespace Shape

def size : Shape → Nat
  | [] => 1
  | n :: s => n * size s

/-- `Fits s u`: a grid of shape `s` can be repeated to shape `u`. An axis of length one stretches,
any other has its length already, and missing outer axes count as length one. -/
def Fits : Shape → Shape → Prop
  | [], _ => True
  | _ :: _, [] => False
  | m :: s, n :: u => (m = n ∨ m = 1) ∧ Fits s u

instance decidableFits : (s u : Shape) → Decidable (Fits s u)
  | [], _ => .isTrue trivial
  | _ :: _, [] => .isFalse id
  | _ :: s, _ :: u => @instDecidableAnd _ _ inferInstance (decidableFits s u)

def joinAxis (m n : Nat) : Option Nat :=
  if m = n then some m else if m = 1 then some n else if n = 1 then some m else none

def join : Shape → Shape → Option Shape
  | [], t => some t
  | s, [] => some s
  | m :: s, n :: t =>
    match joinAxis m n, join s t with
    | some k, some u => some (k :: u)
    | _, _ => none

def ones (s : Shape) : Shape := s.map fun _ => 1

theorem size_ones_append (s t : Shape) : size (s.ones ++ t) = t.size := by
  induction s with
  | nil => rfl
  | cons n s ih => exact (Nat.one_mul _).trans ih

theorem fits_refl : (s : Shape) → Fits s s
  | [] => trivial
  | _ :: s => ⟨.inl rfl, fits_refl s⟩

theorem fits_append (s t : Shape) : Fits s (s ++ t) := by
  induction s with
  | nil => trivial
  | cons n s ih => exact ⟨.inl rfl, ih⟩

theorem ones_append_fits (s t : Shape) : Fits (s.ones ++ t) (s ++ t) := by
  induction s with
  | nil => exact fits_refl t
  | cons n s ih => exact ⟨.inr rfl, ih⟩

theorem joinAxis_fits {m n k : Nat} (h : joinAxis m n = some k) :
    (m = k ∨ m = 1) ∧ (n = k ∨ n = 1) := by
  unfold joinAxis at h
  grind

theorem join_fits {s t u : Shape} (h : join s t = some u) : Fits s u ∧ Fits t u := by
  induction s generalizing t u with
  | nil =>
    cases h
    exact ⟨trivial, fits_refl _⟩
  | cons m s ih =>
    cases t with
    | nil =>
      cases h
      exact ⟨fits_refl _, trivial⟩
    | cons n t =>
      simp only [join] at h
      split at h
      · rename_i k v hk hv
        cases h
        exact ⟨⟨(joinAxis_fits hk).1, (ih hv).1⟩, ⟨(joinAxis_fits hk).2, (ih hv).2⟩⟩
      · cases h

theorem join_self (s : Shape) : join s s = some s := by
  induction s with
  | nil => rfl
  | cons n s ih => simp [join, joinAxis, ih]

end Shape

def Index : Shape → Type
  | [] => Unit
  | n :: s => Fin n × Index s

namespace Index

def offset : {s : Shape} → Index s → Nat
  | [], _ => 0
  | n :: _, (k, i) => k.val + n * offset i

theorem offset_lt {s : Shape} (i : Index s) : i.offset < s.size := by
  induction s with
  | nil => exact Nat.one_pos
  | cons n s ih =>
    calc
      i.1.val + n * offset i.2 < n + n * offset i.2 := Nat.add_lt_add_right i.1.isLt _
      _ = n * (offset i.2 + 1) := by rw [Nat.mul_succ, Nat.add_comm]
      _ ≤ n * Shape.size s := Nat.mul_le_mul_left n (ih i.2)

def ofOffset : {s : Shape} → (k : Nat) → k < s.size → Index s
  | [], _, _ => ()
  | n :: _, k, h =>
    (⟨k % n, Nat.mod_lt k (Nat.pos_of_mul_pos_right (Nat.zero_lt_of_lt h))⟩,
      ofOffset (k / n) (Nat.div_lt_of_lt_mul h))

def squeeze {m n : Nat} (h : m = n ∨ m = 1) (k : Fin n) : Fin m :=
  if e : m = n then ⟨k.val, e ▸ k.isLt⟩ else ⟨0, by omega⟩

/-- The index in the smaller grid that is repeated at an index of the larger one. -/
def project : {s u : Shape} → Shape.Fits s u → Index u → Index s
  | [], _, _, _ => ()
  | _ :: _, _ :: _, h, (k, i) => (squeeze h.1 k, project h.2 i)

end Index

end PolyRoots
