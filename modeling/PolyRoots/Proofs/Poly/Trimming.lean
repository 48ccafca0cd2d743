import PolyRoots.Proofs.Coeffs.Trailing
import PolyRoots.Proofs.Poly.RingLaws
import PolyRoots.Proofs.Scalar.Conversion

namespace PolyRoots

namespace Poly

open Coeffs (Zeros)

variable {f : Format} {l z : List f.Elem} {c : f.Elem}

def kept (f : Format) (l : List f.Elem) : Nat :=
  max 1 (((Coeffs.lastIndex? (f.exceeds 0) l).map (· + 1)).getD 0)

theorem significantWidth_ofList (l : List f.Elem) :
    (PolyBatch.ofList l).significantWidth (f.exceeds 0) = kept f l := by
  have hfound : (List.zipWith (· || ·) (.replicate l.length false) (l.map (f.exceeds 0))) = l.map (f.exceeds 0) := by
    apply List.ext_getElem <;> simp
  have hwidth : (PolyBatch.ofList l).significantWidth (f.exceeds 0) =
      ((Coeffs.lastIndex? id (List.zipWith (· || ·) (.replicate l.length false) (l.map (f.exceeds 0)))).map
        (· + 1)).getD 1 := rfl
  rw [hwidth, hfound, Coeffs.lastIndex?_map, kept]
  change ((Coeffs.lastIndex? (f.exceeds 0) l).map (· + 1)).getD 1 = _
  cases Coeffs.lastIndex? (f.exceeds 0) l with
  | none => rfl
  | some k => exact (max_eq_right (Nat.le_add_left 1 k)).symm

theorem trim_ofList (hf : f ≠ .flag) (hl : l ≠ []) :
    (ofList f l).trim 0 = .ok (ofList f (l.take (kept f l))) := by
  have hneeds : needsNumbers (ofList f l).format .flagCount = .ok () := if_neg hf
  have hwidth : ¬(ofList f l).body.width = 0 := mt List.length_eq_zero_iff.1 hl
  have htake (n : Nat) : (PolyBatch.ofList l).take n = .ofList (l.take n) :=
    (PolyBatch.ofList_eq List.length_take).symm
  unfold trim
  simp only [hneeds, if_neg hwidth]
  refine congrArg (fun b => Except.ok (Poly.mk f b)) ((htake _).trans ?_)
  exact congrArg (fun n => PolyBatch.ofList (l.take n)) (significantWidth_ofList l)

theorem trim_nil (hf : f ≠ .flag) : (ofList f []).trim 0 = .error .shapes := by
  have hneeds : needsNumbers (ofList f []).format .flagCount = .ok () := if_neg hf
  have hwidth : (ofList f []).body.width = 0 := rfl
  unfold trim
  simp only [hneeds, if_pos hwidth]
  rfl

theorem leadingCoefficient_ofList (h : Coeffs.leading? l = some c) :
    (ofList f l).leadingCoefficient = .ok (f.convert (.real .double) c) := by
  have hsingle : (ofList f l).single .leadingCoefficient = .ok l := rfl
  unfold leadingCoefficient
  rw [hsingle]
  dsimp only [bind, Except.bind]
  split
  next d hd =>
    cases h.symm.trans hd
    rfl
  next hnone => cases h.symm.trans hnone

theorem kept_append (hz : ∀ c ∈ z, f.exceeds 0 c = false) : kept f (l ++ z) = kept f l := by
  rw [kept, Coeffs.lastIndex?_append l hz, kept]

theorem kept_concat (hc : f.exceeds 0 c) : kept f (l ++ [c]) = l.length + 1 := by
  rw [kept, Coeffs.lastIndex?_concat l hc]
  simp

theorem one_le_kept (l : List f.Elem) : 1 ≤ kept f l := le_max_left 1 _

theorem kept_le (l : List f.Elem) : kept f l ≤ max 1 l.length := by
  rw [kept]
  cases h : Coeffs.lastIndex? (f.exceeds 0) l with
  | none => simp
  | some i =>
      have := Coeffs.lastIndex?_lt h
      simp
      omega

/-- A trim drops coefficients that do not exceed zero, and it stays with what it keeps. -/
theorem exists_kept (hl : l ≠ []) :
    ∃ t z, l = t ++ z ∧ t ≠ [] ∧ t.length = kept f l ∧ kept f t = t.length ∧
      ∀ c ∈ z, f.exceeds 0 c = false := by
  obtain ⟨a, l, rfl⟩ := List.exists_cons_of_ne_nil hl
  rcases Coeffs.exists_last (f.exceeds 0) (a :: l) with hall | ⟨q, c, z, heq, hc, hz⟩
  · have hnone (l : List f.Elem) (h : ∀ c ∈ l, f.exceeds 0 c = false) : kept f l = 1 :=
      kept_append (l := []) h
    have ha : ∀ c ∈ [a], f.exceeds 0 c = false := fun c hc => hall c (by simp_all)
    have hl : ∀ c ∈ l, f.exceeds 0 c = false := fun c hc => hall c (List.mem_cons_of_mem a hc)
    exact ⟨[a], l, rfl, List.cons_ne_nil a _, (hnone _ hall).symm, hnone _ ha, hl⟩
  · refine ⟨q ++ [c], z, heq, by simp, ?_, ?_, hz⟩
    · rw [heq, kept_append hz, kept_concat hc]
      simp
    · rw [kept_concat hc]
      simp

theorem exceeds_eq_false (hf : f ≠ .flag) : f.exceeds 0 c = false ↔ c == 0 ∨ f.unmeasured c := by
  rw [Format.exceeds_zero hf]
  cases hc : c == 0 <;> cases hm : f.unmeasured c <;> simp [bne, hc]

theorem exceeds_of_zeros (hf : f ≠ .flag) (hz : Zeros z) : ∀ c ∈ z, f.exceeds 0 c = false :=
  fun c hc => (exceeds_eq_false hf).2 (.inl (hz c hc))

theorem kept_spec (hf : f ≠ .flag) (l : List f.Elem) :
    kept f l ≤ Coeffs.degree l + 1 ∧
      (kept f l = Coeffs.degree l + 1 ↔
        Coeffs.degree l = 0 ∨ ∀ c ∈ Coeffs.leading? l, f.unmeasured c = false) := by
  rcases Coeffs.exists_leading l with hl | ⟨q, c, z, rfl, hc, hz⟩
  · have hkept : kept f l = 1 := kept_append (l := []) (exceeds_of_zeros hf hl)
    rw [hl.degree_eq_zero, hkept]
    simp
  · have hkept : kept f (q ++ [c] ++ z) = kept f (q ++ [c]) := kept_append (exceeds_of_zeros hf hz)
    have hdeg : Coeffs.degree (q ++ [c] ++ z) = q.length := by
      rw [Coeffs.degree_append_zeros _ hz, Coeffs.degree_concat q hc]
    rw [hkept, hdeg, Coeffs.leading?_concat_append_zeros q hc hz]
    cases hm : f.unmeasured c with
    | false =>
        have hexceeds : f.exceeds 0 c := by rw [Format.exceeds_zero hf, bne, hc, hm]; rfl
        rw [kept_concat hexceeds]
        simp [hm]
    | true =>
        have hlow : f.exceeds 0 c = false := (exceeds_eq_false hf).2 (.inr hm)
        have hkept : kept f (q ++ [c]) = kept f q := kept_append fun d hd => by
          rw [List.mem_singleton.1 hd, hlow]
        have hpos := one_le_kept q
        have hle := kept_le q
        have hleading : (∀ d ∈ some c, f.unmeasured d = false) ↔ False := by simp [hm]
        rw [hkept, hleading, or_false]
        omega

/-- Without coefficients there is nothing to trim. Otherwise a trim with the tolerance zero keeps the
coefficients up to the leading one exactly if the polynomial is constant or its leading coefficient has a
magnitude, and then it drops zeros only. Else coefficients without a magnitude are dropped as if they were
zero. -/
theorem trim_outcome (hf : f ≠ .flag) (l : List f.Elem) :
    (l = [] → (ofList f l).trim 0 = .error .shapes) ∧
    (l ≠ [] → ∃ n t z, (ofList f l).degree = .ok n ∧ l = t ++ z ∧
      (ofList f l).trim 0 = .ok (ofList f t) ∧ (ofList f t).trim 0 = .ok (ofList f t) ∧
      t ≠ [] ∧ t.length ≤ n + 1 ∧ (∀ c ∈ z, c == 0 ∨ f.unmeasured c) ∧
      (t.length = n + 1 ↔ n = 0 ∨ ∀ c ∈ Coeffs.leading? l, f.unmeasured c = false) ∧
      (t.length = n + 1 → Zeros z ∧ (ofList f t).degree = (ofList f l).degree ∧
        (ofList f t).leadingCoefficient = (ofList f l).leadingCoefficient)) := by
  refine ⟨fun hl => hl ▸ trim_nil hf, fun hl => ?_⟩
  obtain ⟨t, z, heq, ht, hlength, hkept, hz⟩ := exists_kept hl
  obtain ⟨hle, hiff⟩ := kept_spec hf l
  have htrim (l : List f.Elem) (hl : l ≠ []) (t z : List f.Elem) (heq : l = t ++ z)
      (hlength : t.length = kept f l) : (ofList f l).trim 0 = .ok (ofList f t) := by
    rw [trim_ofList hf hl, ← hlength, heq, List.take_left]
  refine ⟨Coeffs.degree l, t, z, rfl, heq, htrim l hl t z heq hlength,
    htrim t ht t [] (List.append_nil t).symm hkept.symm, ht, hlength ▸ hle,
    fun c hc => (exceeds_eq_false hf).1 (hz c hc), hlength ▸ hiff, fun hfull => ?_⟩
  subst heq
  obtain ⟨hzeros, hdeg, hleading⟩ := Coeffs.of_length_eq_degree hfull
  obtain ⟨c, hc⟩ := Coeffs.exists_leading? hl
  rw [leadingCoefficient_ofList (hleading.trans hc), leadingCoefficient_ofList hc]
  exact ⟨hzeros, congrArg Except.ok hdeg, rfl⟩

theorem trim_outcome_line :
    Format.real .double ≠ .flag ∧ ([1, 2, 0, 0] : List Float) ≠ [] ∧
      ∃ n t z, (ofList (.real .double) [1, 2, 0, 0]).degree = .ok n ∧ ([1, 2, 0, 0] : List Float) = t ++ z ∧
        (ofList (.real .double) [1, 2, 0, 0]).trim 0 = .ok (ofList (.real .double) t) ∧
        t.length = n + 1 := by
  have hne : ([1, 2, 0, 0] : List Float) ≠ [] := List.cons_ne_nil _ _
  obtain ⟨n, t, z, hn, heq, htrim, _, _, _, _, hiff, _⟩ :=
    (trim_outcome (f := .real .double) nofun [1, 2, 0, 0]).2 hne
  refine ⟨nofun, hne, n, t, z, hn, heq, htrim, hiff.2 (.inr fun c hc => ?_)⟩
  have hc : c = 2 := Option.some.inj (hc.symm.trans rfl)
  rw [hc]
  rfl

/-- The least integer and the undefined value are dropped from above the degree. -/
theorem trim_below_degree :
    ((ofList .int64 [1, Int64.minValue]).degree = .ok 1 ∧
      (ofList .int64 [1, Int64.minValue]).trim 0 = .ok (ofList .int64 [1])) ∧
    (ofList (.real .double) [1, 0 / 0]).degree = .ok 1 ∧
      (ofList (.real .double) [1, 0 / 0]).trim 0 = .ok (ofList (.real .double) [1]) :=
  ⟨⟨rfl, rfl⟩, rfl, rfl⟩

end Poly

end PolyRoots
