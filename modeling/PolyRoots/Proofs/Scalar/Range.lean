import PolyRoots.Coeffs.Calculus
import PolyRoots.Proofs.Scalar.Binary

namespace PolyRoots

namespace Binary

open Float.Model
open Float.Model.UnpackedFloat

theorem mantissa_shiftRight_le (em : ExtendedMantissa) (n : Nat) :
    (em >>> n).mantissa ≤ em.mantissa := by
  induction n with
  | zero => exact Nat.le_refl _
  | succ n ih => exact (Nat.div_le_self _ 2).trans ih

theorem mantissa_ofAccuracy (m : Nat) (a : Accuracy) :
    (ExtendedMantissa.ofMantissaAndAccuracy m a).mantissa = m := by
  cases a with
  | exact => rfl
  | inexact o => cases o <;> rfl

theorem roundedMantissa_le (em : ExtendedMantissa) : em.roundedMantissa ≤ em.mantissa + 1 := by
  unfold ExtendedMantissa.roundedMantissa
  cases em.accuracy with
  | exact => exact Nat.le_succ _
  | inexact o =>
      cases o with
      | lt => exact Nat.le_succ _
      | eq => exact Nat.add_le_add_left (Nat.le_of_lt_succ (Nat.mod_lt _ two_pos)) _
      | gt => exact Nat.le_refl _

theorem targetExponent_eq (t : Int) : Format.binary64.targetExponent t = max (t - 53) (-1074) := rfl

theorem shift_le {m j : Nat} (hm : m < 2 ^ j) (e : Int) (a : Accuracy) :
    (shiftToTargetExponent .binary64 m e a).1.mantissa ≤ m ∧
      (shiftToTargetExponent .binary64 m e a).2 ≤ max e (-1074) + j := by
  have hlog : m.log2 ≤ j := by
    rcases Nat.eq_zero_or_pos m with rfl | hpos
    · exact Nat.zero_le j
    · exact ((Nat.log2_lt hpos.ne').2 hm).le
  constructor
  · exact (mantissa_shiftRight_le _ _).trans_eq (mantissa_ofAccuracy m a)
  · unfold shiftToTargetExponent shiftToExponent totalExponent
    rw [targetExponent_eq]
    dsimp only
    omega

theorem round_le {m j : Nat} (hm : m < 2 ^ j) (e : Int) (s : Sign) (a : Accuracy) :
    (∃ t, roundWithAccuracy .binary64 s m e a = .zero t) ∨
      ∃ t n d hn, roundWithAccuracy .binary64 s m e a = .finite t n d hn ∧
        d ≤ max e (-1074) + 2 * j + 1 := by
  obtain ⟨hmant, hexp⟩ := shift_le hm e a
  have hround := roundedMantissa_le (shiftToTargetExponent .binary64 m e a).1
  have hj : (shiftToTargetExponent .binary64 m e a).1.roundedMantissa < 2 ^ (j + 1) := by
    have := Nat.one_le_two_pow (n := j)
    rw [pow_succ]
    omega
  obtain ⟨_, hexp'⟩ := shift_le hj (shiftToTargetExponent .binary64 m e a).2 .exact
  unfold roundWithAccuracy
  dsimp only
  split
  next => exact .inl ⟨s, rfl⟩
  next hne =>
    refine .inr ⟨s, _, _, Nat.pos_of_ne_zero hne, rfl, ?_⟩
    push_cast at hexp'
    omega

def Bounded (k : Int) : UnpackedFloat → Prop
  | .zero _ => True
  | .finite _ m e _ => m < 2 ^ 53 ∧ e ≤ k
  | .infinity _ | .notANumber => False

theorem unpack_bounds {b : BitVec 64} {s : Sign} {m : Nat} {e : Int} {hm : 0 < m}
    (h : unpack .binary64 b = .finite s m e hm) :
    m < 2 ^ 53 ∧ e ≤ max (((@unpackExponent .binary64 b).toNat : Int) - 1075) (-1074) := by
  have hmant : (@unpackMantissa .binary64 b).toNat < 2 ^ 52 := BitVec.isLt _
  obtain ⟨-, ⟨_, hleading, he⟩ | ⟨_, hnone, he⟩⟩ := unpack_finite h
  · change m = 2 ^ 52 + _ at hleading
    change e = _ + -1074 at he
    omega
  · change e = -1074 at he
    omega

theorem bounded_stored {e k : Int} (he : e ≤ k) (hlow : -1074 ≤ k) (hk : k ≤ 971) (s : Sign) (m : Nat)
    (hm : 0 < m) : Bounded k (stored (.finite s m e hm)) := by
  have hfin := isFinite_stored_finite (he.trans hk) s m hm
  cases hs : stored (.finite s m e hm) with
  | notANumber | infinity t => rw [hs] at hfin; cases hfin
  | zero t => trivial
  | finite t n d hn =>
      rw [stored, pack_finite, if_neg (not_lt.2 (he.trans hk))] at hs
      obtain ⟨hn, hd⟩ := unpack_bounds hs
      refine ⟨hn, hd.trans (max_le ?_ hlow)⟩
      split
      · rw [unpackExponent_packComponents, BitVec.toNat_ofNat]
        change (((e + 1075).toNat % 2048 : Nat) : Int) - 1075 ≤ k
        omega
      · rw [unpackExponent_packComponents, BitVec.toNat_zero, Nat.cast_zero]
        omega

theorem bounded_stored_round {m j : Nat} {e k : Int} (hm : m < 2 ^ j)
    (hk : max e (-1074) + 2 * j + 1 ≤ k) (hmax : k ≤ 971) (s : Sign) (a : Accuracy) :
    Bounded k (stored (roundWithAccuracy .binary64 s m e a)) := by
  rcases round_le hm e s a with ⟨t, ht⟩ | ⟨t, n, d, hn, ht, hd⟩
  · rw [ht, stored_zero]
    trivial
  · rw [ht]
    exact bounded_stored (hd.trans hk) (by omega) hmax t n hn

theorem bounded_mul {x y : Float} {k l : Int} (hx : Bounded k (unpacked x)) (hy : Bounded l (unpacked y))
    (hlow : -1074 ≤ k + l) (hmax : k + l + 213 ≤ 971) : Bounded (k + l + 213) (unpacked (x * y)) := by
  rw [unpacked_mul]
  cases hx' : unpacked x with
  | notANumber | infinity s => rw [hx'] at hx; exact hx.elim
  | zero s =>
      cases hy' : unpacked y with
      | notANumber | infinity t => rw [hy'] at hy; exact hy.elim
      | zero t => rw [UnpackedFloat.mul, stored_zero]; trivial
      | finite t n d hn => rw [UnpackedFloat.mul, stored_zero]; trivial
  | finite s m e hm =>
      cases hy' : unpacked y with
      | notANumber | infinity t => rw [hy'] at hy; exact hy.elim
      | zero t => rw [UnpackedFloat.mul, stored_zero]; trivial
      | finite t n d hn =>
          rw [hx'] at hx
          rw [hy'] at hy
          have hprod : m * n < 2 ^ 106 := (Nat.mul_lt_mul'' hx.1 hy.1).trans_eq (pow_add 2 53 53).symm
          exact bounded_stored_round hprod (by have := hx.2; have := hy.2; push_cast; omega) hmax _ _

theorem Bounded.mono {k l : Int} {u : UnpackedFloat} (h : Bounded k u) (hkl : k ≤ l) : Bounded l u := by
  cases u with
  | notANumber | infinity s => exact h
  | zero s => trivial
  | finite s m e hm => exact ⟨h.1, h.2.trans hkl⟩

theorem isFinite_of_bounded {x : Float} {k : Int} (h : Bounded k (unpacked x)) : Extended.isFinite x := by
  rw [isFinite_eq]
  cases hx : unpacked x with
  | notANumber | infinity s => rw [hx] at h; exact h.elim
  | zero s | finite s m e hm => rfl

theorem bounded_one : Bounded (-52) (unpacked 1) := by
  change Bounded (-52) (.finite .positive (2 ^ 52) (-52) (by decide))
  exact ⟨by decide, le_refl _⟩

theorem bounded_sub_zero {x : Float} {k : Int} (h : Bounded k (unpacked x)) (hlow : -1074 ≤ k)
    (hmax : k ≤ 971) : Bounded k (unpacked (x - ((0 : Nat) : Float))) := by
  change Bounded k (stored (.sub .binary64 (unpacked x) (.zero .positive)))
  cases hx : unpacked x with
  | notANumber | infinity s => rw [hx] at h; exact h.elim
  | zero s => cases s <;> trivial
  | finite s m e hm =>
      rw [hx] at h
      exact bounded_stored h.2 hlow hmax s m hm

theorem bounded_stored_ofNat {n : Nat} (hn : n < 2 ^ 64) :
    Bounded 233 (stored (UnpackedFloat.ofNat .binary64 n)) := by
  rcases Nat.eq_zero_or_pos n with rfl | hpos
  · change Bounded 233 (stored (.zero .positive))
    rw [stored_zero]
    trivial
  · have hcompare : compare (n : Int) 0 = .gt := compare_gt_iff_gt.2 (Int.natCast_pos.2 hpos)
    rw [UnpackedFloat.ofNat, UnpackedFloat.ofInt, UnpackedFloat.normalize, hcompare]
    dsimp only
    rw [UnpackedFloat.round]
    dsimp only [decreaseExponent]
    have hshift :
        (0 - Format.binary64.targetExponent (totalExponent (n : Int).toNat 0)).toNat ≤ 52 := by
      rw [targetExponent_eq, totalExponent]
      omega
    generalize (0 - Format.binary64.targetExponent (totalExponent (n : Int).toNat 0)).toNat = k at *
    have hm : (n : Int).toNat <<< k < 2 ^ 116 := by
      rw [Nat.shiftLeft_eq, Int.toNat_natCast, pow_add 2 64 52]
      exact Nat.mul_lt_mul_of_lt_of_le hn (Nat.pow_le_pow_right two_pos hshift) (Nat.two_pow_pos 52)
    exact bounded_stored_round hm (by omega) (by decide) _ _

theorem ofScientific_eq {n : Nat} (hn : n ≠ 0) : UnpackedFloat.ofScientific .binary64 n 0 =
    roundWithAccuracy .binary64 .positive (n <<< 53 * 1) (-53) .exact := by
  have hsmall : ¬ (0 : Int) > 2 ^ 11 := by decide
  have hlarge : ¬ (0 : Int) < -((2 ^ 11 : Int) + n.log2) := by omega
  rw [UnpackedFloat.ofScientific, dif_neg hn, if_neg hsmall, if_neg hlarge, if_pos (le_refl 0)]
  rfl

theorem bounded_natCast {n : Nat} (hn : n < 2 ^ 64) : Bounded 394 (unpacked (n : Float)) := by
  change Bounded 394 (unpacked (Float.ofScientific n false 0))
  unfold Float.ofScientific
  split
  next h =>
    have hword : n.toUInt64.toNat = n := Nat.mod_eq_of_lt hn
    have hfloat : Bounded 233 (unpacked n.toUInt64.toFloat) := by
      change Bounded 233 (stored (.ofNat .binary64 n.toUInt64.toNat))
      rw [hword]
      exact bounded_stored_ofNat hn
    exact bounded_mul hfloat bounded_one (by decide) (by decide)
  next h =>
    have hpos : n ≠ 0 := by
      rintro rfl
      exact h (by decide)
    have hm : n <<< 53 * 1 < 2 ^ 117 := by
      rw [mul_one, Nat.shiftLeft_eq, pow_add 2 64 53]
      exact Nat.mul_lt_mul_of_pos_right hn (Nat.two_pow_pos 53)
    change Bounded 394 (stored (.ofScientific .binary64 n 0))
    rw [ofScientific_eq hpos]
    exact bounded_stored_round hm (by decide) (by decide) _ _

theorem isFinite_fallingFactor {i : Nat} (hi : i < 2 ^ 64) :
    Extended.isFinite (Coeffs.fallingFactor i 1 : Float) := by
  change Extended.isFinite (1 * ((i : Float) - ((0 : Nat) : Float)))
  have hdiff := bounded_sub_zero (bounded_natCast hi) (by decide) (by decide)
  exact isFinite_of_bounded (bounded_mul bounded_one hdiff (by decide) (by decide))

end Binary

end PolyRoots
