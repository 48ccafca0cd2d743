import PolyRoots.Coeffs.Basic

universe u v

namespace PolyRoots

namespace Coeffs

section LastIndex

variable {α : Type u} {keep : α → Bool}

theorem lastIndex?_eq_none {p : List α} (h : ∀ a ∈ p, keep a = false) : lastIndex? keep p = none := by
  induction p with
  | nil => rfl
  | cons a p ih =>
      rw [List.forall_mem_cons] at h
      rw [lastIndex?, ih h.2]
      simp [h.1]

theorem lastIndex?_append (p : List α) {z : List α} (hz : ∀ a ∈ z, keep a = false) :
    lastIndex? keep (p ++ z) = lastIndex? keep p := by
  induction p with
  | nil => exact lastIndex?_eq_none hz
  | cons a p ih => rw [List.cons_append, lastIndex?, ih, lastIndex?]

theorem lastIndex?_concat (p : List α) {c : α} (hc : keep c) :
    lastIndex? keep (p ++ [c]) = some p.length := by
  induction p with
  | nil => simp [lastIndex?, hc]
  | cons a p ih => rw [List.cons_append, lastIndex?, ih, List.length_cons]

theorem lastIndex?_map {β : Type v} (f : β → α) (p : List β) :
    lastIndex? keep (p.map f) = lastIndex? (fun b => keep (f b)) p := by
  induction p with
  | nil => rfl
  | cons b p ih => rw [List.map_cons, lastIndex?, ih, lastIndex?]

theorem exists_last (keep : α → Bool) (p : List α) :
    (∀ a ∈ p, keep a = false) ∨
      ∃ q c z, p = q ++ [c] ++ z ∧ keep c = true ∧ ∀ a ∈ z, keep a = false := by
  induction p with
  | nil => exact .inl nofun
  | cons a p ih =>
      rcases ih with hp | ⟨q, c, z, rfl, hc, hz⟩
      · cases ha : keep a with
        | true => exact .inr ⟨[], a, p, rfl, ha, hp⟩
        | false => exact .inl (List.forall_mem_cons.2 ⟨ha, hp⟩)
      · exact .inr ⟨a :: q, c, z, rfl, hc, hz⟩

end LastIndex

variable {α : Type u} [Zero α] [BEq α]

def Zeros (z : List α) : Prop := ∀ a ∈ z, a == 0

instance instDecidableZeros (z : List α) : Decidable (Zeros z) :=
  inferInstanceAs (Decidable (∀ a ∈ z, a == 0))

/-- Lists that differ in zeros at the end only. The zeros need not be equal, as there may be more than
one. -/
def Alike (p p' : List α) : Prop := ∃ l z z', p = l ++ z ∧ p' = l ++ z' ∧ Zeros z ∧ Zeros z'

variable {z : List α}

theorem Zeros.ne_eq_false (hz : Zeros z) : ∀ a ∈ z, (a != 0) = false :=
  fun a ha => by simp [bne, hz a ha]

theorem Zeros.degree_eq_zero (hz : Zeros z) : degree z = 0 := by
  rw [degree, lastIndex?_eq_none hz.ne_eq_false, Option.getD_none]

theorem degree_append_zeros (p : List α) (hz : Zeros z) : degree (p ++ z) = degree p := by
  rw [degree, lastIndex?_append p hz.ne_eq_false, degree]

theorem degree_concat (p : List α) {c : α} (hc : (c == 0) = false) :
    degree (p ++ [c]) = p.length := by
  rw [degree, lastIndex?_concat p (by simp [bne, hc]), Option.getD_some]

theorem leading?_concat_append_zeros (p : List α) {c : α} (hc : (c == 0) = false) (hz : Zeros z) :
    leading? (p ++ [c] ++ z) = some c := by
  rw [leading?, degree_append_zeros _ hz, degree_concat p hc]
  simp

theorem exists_leading (p : List α) :
    Zeros p ∨ ∃ q c z, p = q ++ [c] ++ z ∧ (c == 0) = false ∧ Zeros z := by
  have h := exists_last (· != 0) p
  simpa only [Zeros, bne, Bool.not_eq_false', Bool.not_eq_true'] using h

theorem zeros_cons_iff {c : α} {q : List α} : Zeros (c :: q) ↔ degree (c :: q) = 0 ∧ c == 0 := by
  constructor
  · intro h
    exact ⟨h.degree_eq_zero, h c List.mem_cons_self⟩
  · rintro ⟨hdeg, hc⟩
    rcases exists_leading (c :: q) with h | ⟨l, d, z, heq, hd, hz⟩
    · exact h
    · rw [heq, degree_append_zeros _ hz, degree_concat l hd] at hdeg
      rw [List.length_eq_zero_iff.1 hdeg] at heq
      injection heq with hcd
      rw [hcd, hd] at hc
      cases hc

theorem take_degree (p : List α) :
    Zeros p ∨ ∃ q c, p.take (degree p + 1) = q ++ [c] ∧ q.length = degree p ∧ (c == 0) = false := by
  rcases exists_leading p with hp | ⟨q, c, z, rfl, hc, hz⟩
  · exact .inl hp
  · have hdeg : degree (q ++ [c] ++ z) = q.length := by rw [degree_append_zeros _ hz, degree_concat q hc]
    refine .inr ⟨q, c, ?_, hdeg.symm, hc⟩
    rw [hdeg, List.take_left' (by simp)]

theorem exists_leading? {p : List α} (hp : p ≠ []) : ∃ c, leading? p = some c := by
  have hpos := List.length_pos_iff.2 hp
  have hdeg := degree_le_length p
  exact ⟨_, List.getElem?_eq_getElem (by omega)⟩

theorem of_length_eq_degree {t : List α} (h : t.length = degree (t ++ z) + 1) :
    Zeros z ∧ degree t = degree (t ++ z) ∧ leading? t = leading? (t ++ z) := by
  rcases exists_leading (t ++ z) with hall | ⟨q, c, z', heq, hc, hz'⟩
  · have ht : Zeros t := fun a ha => hall a (List.mem_append_left z ha)
    rw [hall.degree_eq_zero] at h
    rw [leading?, leading?, hall.degree_eq_zero, ht.degree_eq_zero, List.getElem?_append_left (by omega)]
    exact ⟨fun a ha => hall a (List.mem_append_right t ha), rfl, rfl⟩
  · have hdeg : degree (t ++ z) = q.length := by
      rw [heq, degree_append_zeros _ hz', degree_concat q hc]
    obtain ⟨rfl, rfl⟩ := List.append_inj heq (by rw [h, hdeg, List.length_append, List.length_singleton])
    have hleading := leading?_concat_append_zeros q hc (z := []) nofun
    rw [List.append_nil] at hleading
    rw [hleading, leading?_concat_append_zeros q hc hz', hdeg, degree_concat q hc]
    exact ⟨hz', rfl, rfl⟩

theorem degree_map {β : Type v} [Zero β] [BEq β] {f : β → α} (hf : ∀ b, (f b == 0) = (b == 0))
    (p : List β) : degree (p.map f) = degree p := by
  simp only [degree, lastIndex?_map, bne, hf]

end Coeffs

end PolyRoots
