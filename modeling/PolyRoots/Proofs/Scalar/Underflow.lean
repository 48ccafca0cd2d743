import PolyRoots.Proofs.Scalar.Conversion
import PolyRoots.Proofs.Scalar.Guarded

namespace PolyRoots

namespace Binary

open Float.Model
open Float.Model.UnpackedFloat

variable {f : Float.Model.Format} {m n : Nat} {e d : Int}

section Residue

theorem shiftRight_succ (em : ExtendedMantissa) (k : Nat) : em >>> (k + 1) = (em >>> k).shiftRightOne := rfl

theorem shiftRight_exact (m k : Nat) :
    ExtendedMantissa.ofMantissaAndAccuracy m .exact >>> (k + 1) =
      ⟨m / 2 ^ (k + 1), m / 2 ^ k % 2 != 0, m % 2 ^ k != 0⟩ := by
  induction k with
  | zero =>
    change ExtendedMantissa.shiftRightOne ⟨m, false, false⟩ = _
    simp [ExtendedMantissa.shiftRightOne, Nat.mod_one]
  | succ k ih =>
    have hsticky : (m / 2 ^ k % 2 != 0 || m % 2 ^ k != 0) = (m % 2 ^ (k + 1) != 0) := by
      rw [Nat.mod_pow_succ, Bool.eq_iff_iff]
      have hpow := Nat.two_pow_pos k
      have hbit := Nat.mod_two_eq_zero_or_one (m / 2 ^ k)
      rcases hbit with hbit | hbit <;> simp [hbit]
    rw [shiftRight_succ, ih, ExtendedMantissa.shiftRightOne, hsticky, Nat.div_div_eq_div_mul, ← pow_succ]

theorem rounded_shiftRight {k : Nat} (hm : m < 2 ^ (k + 1)) :
    (ExtendedMantissa.ofMantissaAndAccuracy m .exact >>> (k + 1)).roundedMantissa =
      if m ≤ 2 ^ k then 0 else 1 := by
  rw [shiftRight_exact, Nat.div_eq_of_lt hm]
  rw [pow_succ] at hm
  by_cases hlow : m < 2 ^ k
  · rw [Nat.div_eq_of_lt hlow, Nat.mod_eq_of_lt hlow, if_pos hlow.le]
    cases m <;> rfl
  · have hdiv : m / 2 ^ k = 1 := Nat.div_eq_of_lt_le (by omega) (by omega)
    have hmod : m % 2 ^ k = m - 2 ^ k := by
      rw [Nat.mod_eq_sub_mod (by omega), Nat.mod_eq_of_lt (by omega)]
    rw [hdiv, hmod]
    split
    next hle =>
      rw [Nat.sub_eq_zero_of_le hle]
      rfl
    next hgt =>
      obtain ⟨r, hr⟩ := Nat.exists_eq_succ_of_ne_zero (Nat.sub_ne_zero_of_lt (not_le.1 hgt))
      rw [hr]
      rfl

end Residue

section Round

theorem normalized_zero (f : Float.Model.Format) : Normalized f 0 f.minExponent := by
  rw [normalized_iff, Nat.log2_zero]
  omega

theorem normalized_one (f : Float.Model.Format) : Normalized f 1 f.minExponent := by
  have hlog : Nat.log2 1 = 0 := by decide
  rw [normalized_iff, hlog]
  omega

theorem roundWithAccuracy_below {k : Nat} (he : e + (k + 1 : Nat) = f.minExponent) (hm : m < 2 ^ (k + 1))
    (s : Sign) : roundWithAccuracy f s m e .exact =
      if m ≤ 2 ^ k then .zero s else .finite s 1 f.minExponent Nat.one_pos := by
  have hlog : m.log2 < k + 1 := by
    by_cases hzero : m = 0
    · rw [hzero]
      exact Nat.succ_pos k
    · exact (Nat.log2_lt hzero).2 hm
  have htarget : f.targetExponent (totalExponent m e) = e + (k + 1 : Nat) := by
    rw [targetExponent_totalExponent]
    omega
  have hshift : shiftToTargetExponent f m e .exact =
      (ExtendedMantissa.ofMantissaAndAccuracy m .exact >>> (k + 1), f.minExponent) := by
    rw [shiftToTargetExponent, htarget, shiftToExponent, add_sub_cancel_left, Int.toNat_natCast, he]
  have hrounded := rounded_shiftRight hm
  by_cases hle : m ≤ 2 ^ k
  · rw [if_pos hle] at hrounded ⊢
    simp only [roundWithAccuracy, hshift, hrounded, shiftToTargetExponent_normalized (normalized_zero f)]
    exact dif_pos trivial
  · rw [if_neg hle] at hrounded ⊢
    simp only [roundWithAccuracy, hshift, hrounded, shiftToTargetExponent_normalized (normalized_one f)]
    exact dif_neg Nat.one_ne_zero

/-- A number that is not zero is stored as zero exactly if it is at most half of the least number. -/
theorem stored_roundWithAccuracy_beq_zero (hm : 0 < m)
    (hbits : f.mantissaBitsWithoutImplicit ≤ m.log2 ∨ e ≤ f.minExponent) (s : Sign) :
    (UnpackedFloat.unpack f (UnpackedFloat.pack f (roundWithAccuracy f s m e .exact))).beq
        (.zero .positive) = true ↔ (m : ℚ) * 2 ^ e ≤ 2 ^ (f.minExponent - 1) := by
  by_cases hlow : f.minExponent ≤ m.log2 + e
  · obtain ⟨n, d, hn, hround, hnorm, -⟩ := roundWithAccuracy_eq hm hlow hbits s .exact
    rw [hround]
    refine iff_of_false (Bool.eq_false_iff.1 (onSide_stored_finite hnorm s hn).beq_zero) (not_le.2 ?_)
    calc (2 : ℚ) ^ (f.minExponent - 1) < 2 ^ ((m.log2 : Int) + e) := zpow_lt_zpow_right₀ one_lt_two (by omega)
      _ = (2 ^ m.log2 : Nat) * 2 ^ e := by rw [zpow_add₀ two_ne_zero, zpow_natCast]; push_cast; rfl
      _ ≤ m * 2 ^ e := by gcongr; exact Nat.log2_self_le hm.ne'
  · obtain ⟨k, hk⟩ : ∃ k : Nat, f.minExponent - e - 1 = k := Int.eq_ofNat_of_zero_le (by omega)
    have hlt : m < 2 ^ (k + 1) := by
      rw [← Nat.log2_lt hm.ne']
      omega
    have hexp : f.minExponent - 1 = k + e := by omega
    have hhalf : (m : ℚ) * 2 ^ e ≤ 2 ^ (f.minExponent - 1) ↔ m ≤ 2 ^ k := by
      rw [hexp, zpow_add₀ two_ne_zero, mul_le_mul_iff_left₀ (zpow_pos two_pos e), zpow_natCast]
      exact_mod_cast Iff.rfl
    rw [hhalf, roundWithAccuracy_below (k := k) (by omega) hlt]
    split
    next hle => exact iff_of_true (stored_zero_beq_zero f s) hle
    next hgt =>
      have hside := onSide_stored_finite (normalized_one f) s Nat.one_pos
      exact iff_of_false (Bool.eq_false_iff.1 hside.beq_zero) hgt

end Round

section Product

def number? : UnpackedFloat → Option ℚ
  | .zero _ => some 0
  | .finite s m e _ => some ((s.apply m : Int) * 2 ^ e)
  | .infinity _ | .notANumber => none

/-- The exact product is at most half of the least positive number, `2 ^ (-1074)`. -/
def Underflows (x y : Float) : Prop :=
  ∃ u ∈ number? (unpacked x), ∃ v ∈ number? (unpacked y), |u * v| ≤ 2 ^ (-1075 : Int)

theorem abs_apply (s : Sign) (m : Nat) : |((s.apply m : Int) : ℚ)| = m := by
  cases s <;> simp [Sign.apply]

theorem stored_mul_beq_zero_iff {b c : BitVec 64} {s t : Sign} {hm : 0 < m} {hn : 0 < n}
    (hu : unpack .binary64 b = .finite s m e hm) (hv : unpack .binary64 c = .finite t n d hn) :
    (stored (.mul .binary64 (.finite s m e hm) (.finite t n d hn))).beq (.zero .positive) = true ↔
      |((s.apply m : Int) : ℚ) * 2 ^ e * ((t.apply n : Int) * 2 ^ d)| ≤ 2 ^ (-1075 : Int) := by
  have habs : |((s.apply m : Int) : ℚ) * 2 ^ e * ((t.apply n : Int) * 2 ^ d)| =
      (m * n : Nat) * 2 ^ (e + d) := by
    rw [abs_mul, abs_mul, abs_mul, abs_apply, abs_apply, abs_of_pos (zpow_pos two_pos e),
      abs_of_pos (zpow_pos two_pos d), zpow_add₀ two_ne_zero]
    push_cast
    ring
  have hlog := log2_add_le hm hn
  -- a factor of fewer than 53 bits has the least exponent
  have hbits := (canonical_unpack hu).bits hm
  have hbits' := (canonical_unpack hv).bits hn
  have hplace : 52 ≤ (m * n).log2 ∨ e + d ≤ -1074 := by omega
  rw [habs]
  exact stored_roundWithAccuracy_beq_zero (Nat.mul_pos hm hn) hplace (s * t)

theorem mul_beq_zero_iff {x y : Float} (hx : (x == 0) = false) (hy : (y == 0) = false) :
    x * y == 0 ↔ Underflows x y := by
  have hnan : ¬(stored .notANumber).beq (.zero .positive) = true := nofun
  have hinf (s : Sign) : ¬(stored (.infinity s)).beq (.zero .positive) = true := by
    rw [stored_infinity]
    cases s <;> exact nofun
  have hx0 (s : Sign) (hs : unpacked x = .zero s) : False :=
    Bool.eq_false_iff.1 hx ((beq_zero_iff x).2 ⟨s, hs⟩)
  have hy0 (s : Sign) (hs : unpacked y = .zero s) : False :=
    Bool.eq_false_iff.1 hy ((beq_zero_iff y).2 ⟨s, hs⟩)
  unfold Underflows
  rw [beq_eq, unpacked_mul, unpacked_zero]
  cases hu : unpacked x with
  | zero s => exact (hx0 s hu).elim
  | notANumber => exact iff_of_false hnan nofun
  | infinity s =>
    cases hv : unpacked y with
    | zero t => exact (hy0 t hv).elim
    | notANumber => exact iff_of_false hnan nofun
    | infinity t | finite t n d hn => exact iff_of_false (hinf _) nofun
  | finite s m e hm =>
    cases hv : unpacked y with
    | zero t => exact (hy0 t hv).elim
    | notANumber => exact iff_of_false hnan nofun
    | infinity t => exact iff_of_false (hinf _) (by rintro ⟨_, _, _, hnone, _⟩; cases hnone)
    | finite t n d hn =>
      refine (stored_mul_beq_zero_iff hu hv).trans ?_
      simp only [number?, Option.mem_some_iff, exists_eq_left']

end Product

section Sign

theorem zero_lt_iff (x : Float) : 0 < x ↔ sideOf (unpacked x) = 1 := by
  rw [lt_iff, unpacked_zero]
  cases unpacked x with
  | notANumber | zero s => simp [sideOf, UnpackedFloat.lt, UnpackedFloat.compare]
  | infinity s | finite s m e hm => cases s <;> simp [sideOf, side, UnpackedFloat.lt, UnpackedFloat.compare]

theorem zero_lt_iff_of_side {x : Float} (hnan : (unpacked x).isNaN = false) (h : sideOf (unpacked x) ≠ -1) :
    0 < x ↔ ¬x == 0 := by
  rw [zero_lt_iff, beq_zero_iff]
  revert hnan h
  cases unpacked x with
  | notANumber => exact nofun
  | zero s => exact fun _ _ => iff_of_false nofun fun hs => hs ⟨s, rfl⟩
  | infinity s | finite s m e hm =>
    cases s with
    | positive => exact fun _ _ => iff_of_true rfl nofun
    | negative => exact fun _ hside => absurd rfl hside

theorem sideOf_mul_of_eq {u v : UnpackedFloat} (h : sideOf u = sideOf v) (hu : sideOf u ≠ 0) :
    (UnpackedFloat.mul .binary64 u v).isNaN = false ∧ sideOf (UnpackedFloat.mul .binary64 u v) ≠ -1 := by
  have hside {s t : Sign} (hst : side s = side t) : s * t = .positive := by
    cases s <;> cases t <;> first | rfl | cases hst
  have hone : side .positive ≠ -1 := by decide
  cases u with
  | notANumber | zero s => exact absurd rfl hu
  | infinity s =>
    cases v with
    | notANumber | zero t => exact absurd h hu
    | infinity t | finite t n d hn =>
      rw [UnpackedFloat.mul, hside h]
      exact ⟨rfl, hone⟩
  | finite s m e hm =>
    cases v with
    | notANumber | zero t => exact absurd h hu
    | infinity t =>
      rw [UnpackedFloat.mul, hside h]
      exact ⟨rfl, hone⟩
    | finite t n d hn =>
      rw [UnpackedFloat.mul, hside h]
      exact ⟨isNaN_round _ _ _ _ _, sideOf_round_positive _ _ _⟩

theorem zero_lt_mul_iff {x y : Float} (h : 0 < x ∧ 0 < y ∨ x < 0 ∧ y < 0) : 0 < x * y ↔ ¬Underflows x y := by
  have hside : sideOf (unpacked x) = sideOf (unpacked y) ∧ sideOf (unpacked x) ≠ 0 := by
    rcases h with ⟨hx, hy⟩ | ⟨hx, hy⟩
    · rw [(zero_lt_iff x).1 hx, (zero_lt_iff y).1 hy]
      exact ⟨rfl, nofun⟩
    · rw [(lt_zero_iff x).1 hx, (lt_zero_iff y).1 hy]
      exact ⟨rfl, nofun⟩
  have hne {z : Float} (hz : sideOf (unpacked z) ≠ 0) : (z == 0) = false := by
    refine Bool.eq_false_iff.2 fun hzero => ?_
    obtain ⟨s, hs⟩ := (beq_zero_iff z).1 hzero
    rw [hs] at hz
    exact hz rfl
  obtain ⟨hnan, hsign⟩ := sideOf_mul_of_eq hside.1 hside.2
  rw [← mul_beq_zero_iff (hne hside.2) (hne (hside.1 ▸ hside.2))]
  exact zero_lt_iff_of_side (isNaN_stored hnan) (sideOf_stored_ne hsign)

end Sign

end Binary

end PolyRoots
