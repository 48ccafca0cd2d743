import PolyRoots.Proofs.Scalar.Rounding

namespace PolyRoots

namespace Binary

open Float.Model
open Float.Model.UnpackedFloat

/-- The mantissas and exponents that rounding leaves: 53 bits, or fewer with the least exponent. -/
structure Canonical (m : Nat) (e : Int) : Prop where
  lt : m < 2 ^ 53
  least : -1074 ≤ e
  normal : 2 ^ 52 ≤ m ∨ e = -1074

theorem Canonical.bits {m : Nat} {e : Int} (h : Canonical m e) (hm : 0 < m) : 52 ≤ m.log2 ∨ e = -1074 := by
  rw [Nat.le_log2 hm.ne']
  exact h.normal

theorem log2_add_le {m n : Nat} (hm : 0 < m) (hn : 0 < n) : m.log2 + n.log2 ≤ (m * n).log2 := by
  rw [Nat.le_log2 (Nat.mul_pos hm hn).ne', pow_add]
  exact Nat.mul_le_mul (Nat.log2_self_le hm.ne') (Nat.log2_self_le hn.ne')

theorem minExponent_eq : Format.binary64.minExponent = -1074 := rfl

theorem canonical_iff {m : Nat} {e : Int} (hm : 0 < m) : Canonical m e ↔ Normalized .binary64 m e := by
  rw [normalized_iff, minExponent_eq]
  change _ ↔ max ((m.log2 : Int) + e - 52) (-1074) = e
  constructor
  · intro h
    have hlog := (Nat.log2_lt hm.ne').2 h.lt
    have hlow := h.least
    have hbits := h.bits hm
    omega
  · intro h
    refine ⟨?_, by omega, ?_⟩
    · rw [← Nat.log2_lt hm.ne']
      omega
    · rw [← Nat.le_log2 hm.ne']
      omega

theorem round_eq {m : Nat} {e : Int} (hm : 0 < m) (he : -1074 ≤ m.log2 + e)
    (hbits : 52 ≤ m.log2 ∨ e ≤ -1074) (s : Sign) (a : Accuracy) :
    ∃ n d hn, roundWithAccuracy .binary64 s m e a = .finite s n d hn ∧ Canonical n d ∧
      m.log2 + e ≤ n.log2 + d := by
  obtain ⟨n, d, hn, hround, hnorm, hle, -⟩ := roundWithAccuracy_eq (f := .binary64) hm he hbits s a
  exact ⟨n, d, hn, hround, (canonical_iff hn).2 hnorm, hle⟩

theorem canonical_unpack {b : BitVec 64} {s : Sign} {m : Nat} {e : Int} {hm : 0 < m}
    (h : unpack .binary64 b = .finite s m e hm) : Canonical m e :=
  (canonical_iff hm).2 (normalized_unpack h)

theorem stored_finite_of_canonical {m : Nat} {e : Int} (h : Canonical m e) (he : e ≤ 971) (s : Sign)
    (hm : 0 < m) : stored (.finite s m e hm) = .finite s m e hm :=
  unpack_pack ((canonical_iff hm).1 h) (inRange_binary64_iff.2 he) s hm

/-- Numbers that are not zero and whose leading bit has no exponent below `k`, undefined and infinite ones
included. -/
def Above (k : Int) : UnpackedFloat → Prop
  | .zero _ => False
  | .finite _ m e _ => k ≤ m.log2 + e
  | .infinity _ | .notANumber => True

theorem above_stored {m : Nat} {e k : Int} (h : Canonical m e) (hk : k ≤ m.log2 + e) (s : Sign) (hm : 0 < m) :
    Above k (stored (.finite s m e hm)) := by
  by_cases he : e ≤ 971
  · rw [stored_finite_of_canonical h he]
    exact hk
  · rw [stored_finite_of_large (not_le.1 he)]
    trivial

theorem above_stored_round {m : Nat} {e k : Int} (hm : 0 < m) (hk : k ≤ m.log2 + e) (hlow : -1074 ≤ k)
    (hbits : 52 ≤ m.log2 ∨ e ≤ -1074) (s : Sign) (a : Accuracy) :
    Above k (stored (roundWithAccuracy .binary64 s m e a)) := by
  obtain ⟨n, d, hn, hround, hcan, hle⟩ := round_eq hm (hlow.trans hk) hbits s a
  rw [hround]
  exact above_stored hcan (hk.trans hle) s hn

theorem Above.mono {k l : Int} {u : UnpackedFloat} (h : Above k u) (hkl : l ≤ k) : Above l u := by
  cases u with
  | zero s => exact h
  | infinity s | notANumber => trivial
  | finite s m e hm => exact hkl.trans h

theorem beq_zero_of_above {x : Float} {k : Int} (h : Above k (unpacked x)) : (x == 0) = false := by
  refine Bool.eq_false_iff.2 fun hzero => ?_
  obtain ⟨s, hs⟩ := (beq_zero_iff x).1 hzero
  rw [hs] at h
  exact h

theorem above_of_beq_zero {x : Float} (h : (x == 0) = false) : Above (-1074) (unpacked x) := by
  cases hx : unpacked x with
  | zero s => exact absurd ((beq_zero_iff x).2 ⟨s, hx⟩) (Bool.eq_false_iff.1 h)
  | infinity s | notANumber => trivial
  | finite s m e hm =>
      have := (canonical_unpack hx).least
      change -1074 ≤ m.log2 + e
      omega

theorem above_notANumber (k : Int) : Above k (stored .notANumber) := trivial

theorem above_infinity (k : Int) (s : Sign) : Above k (stored (.infinity s)) := by
  rw [stored_infinity]
  trivial

theorem above_mul {x y : Float} {k l : Int} (hx : Above k (unpacked x)) (hy : Above l (unpacked y))
    (hlow : -1074 ≤ k + l) : Above (k + l) (unpacked (x * y)) := by
  rw [unpacked_mul]
  cases hx' : unpacked x with
  | zero s => rw [hx'] at hx; exact hx.elim
  | notANumber => exact above_notANumber _
  | infinity s =>
      cases hy' : unpacked y with
      | zero t => rw [hy'] at hy; exact hy.elim
      | notANumber => exact above_notANumber _
      | infinity t | finite t n d hn => exact above_infinity _ _
  | finite s m e hm =>
      cases hy' : unpacked y with
      | zero t => rw [hy'] at hy; exact hy.elim
      | notANumber => exact above_notANumber _
      | infinity t => exact above_infinity _ _
      | finite t n d hn =>
          rw [hx'] at hx
          rw [hy'] at hy
          have hk : k ≤ m.log2 + e := hx
          have hl : l ≤ n.log2 + d := hy
          have hlog := log2_add_le hm hn
          -- a factor of fewer than 53 bits has the least exponent
          have hbits := (canonical_unpack hx').bits hm
          have hbits' := (canonical_unpack hy').bits hn
          exact above_stored_round (Nat.mul_pos hm hn) (by omega) hlow (by omega) _ _

theorem above_one : Above 0 (unpacked 1) := by
  change (0 : Int) ≤ (2 ^ 52 : Nat).log2 + -52
  rw [Nat.log2_two_pow]
  decide

theorem above_sub_zero {x : Float} {k : Int} (h : Above k (unpacked x)) :
    Above k (unpacked (x - ((0 : Nat) : Float))) := by
  change Above k (stored (.sub .binary64 (unpacked x) (.zero .positive)))
  cases hx : unpacked x with
  | zero s => rw [hx] at h; exact h.elim
  | notANumber => exact above_notANumber _
  | infinity s => exact above_infinity _ _
  | finite s m e hm =>
      rw [hx] at h
      exact above_stored (canonical_unpack hx) h s hm

theorem above_stored_ofNat {n : Nat} (hn : 0 < n) :
    Above n.log2 (stored (UnpackedFloat.ofNat .binary64 n)) := by
  have hcompare : compare (n : Int) 0 = .gt := compare_gt_iff_gt.2 (Int.natCast_pos.2 hn)
  rw [UnpackedFloat.ofNat, UnpackedFloat.ofInt, UnpackedFloat.normalize, hcompare]
  dsimp only
  rw [UnpackedFloat.round]
  dsimp only [decreaseExponent]
  rw [targetExponent_eq, totalExponent, Int.toNat_natCast]
  have hlog := log2_shiftLeft hn (0 - max ((n.log2 : Int) + 1 + 0 - 53) (-1074)).toNat
  exact above_stored_round (shiftLeft_pos hn _) (by omega) (by omega) (by omega) _ _

theorem above_natCast {n : Nat} (hn : 0 < n) (hlt : n < 2 ^ 64) : Above n.log2 (unpacked (n : Float)) := by
  change Above n.log2 (unpacked (Float.ofScientific n false 0))
  unfold Float.ofScientific
  split
  next h =>
    have hword : n.toUInt64.toNat = n := Nat.mod_eq_of_lt hlt
    have hfloat : Above n.log2 (unpacked n.toUInt64.toFloat) := by
      change Above n.log2 (stored (.ofNat .binary64 n.toUInt64.toNat))
      rw [hword]
      exact above_stored_ofNat hn
    exact (above_mul hfloat above_one (by omega)).mono (by omega)
  next h =>
    have hlog := log2_shiftLeft hn 53
    change Above n.log2 (stored (.ofScientific .binary64 n 0))
    rw [ofScientific_eq hn.ne', mul_one]
    exact above_stored_round (shiftLeft_pos hn _) (by omega) (by omega) (by omega) _ _

theorem above_zero_natCast {n : Nat} (hn : 0 < n) (hlt : n < 2 ^ 64) : Above 0 (unpacked (n : Float)) :=
  (above_natCast hn hlt).mono (Int.natCast_nonneg _)

theorem above_fallingFactor {i : Nat} (hi : 0 < i) (hlt : i < 2 ^ 64) :
    Above 0 (unpacked (Coeffs.fallingFactor i 1 : Float)) := by
  change Above 0 (unpacked (1 * ((i : Float) - ((0 : Nat) : Float))))
  exact above_mul above_one (above_sub_zero (above_zero_natCast hi hlt)) (by decide)

theorem mul_beq_zero_of_above {x y : Float} (hy : Above 0 (unpacked y)) (hfin : Extended.isFinite y) :
    (x * y == 0) = (x == 0) := by
  cases hx : x == 0 with
  | true => exact Overflowing.beq_zero_mul hx hfin
  | false => exact beq_zero_of_above (above_mul (above_of_beq_zero hx) hy (by decide))

end Binary

end PolyRoots
