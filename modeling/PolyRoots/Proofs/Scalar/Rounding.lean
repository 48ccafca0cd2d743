import PolyRoots.Proofs.Scalar.Range

namespace PolyRoots

namespace Binary

open Float.Model
open Float.Model.UnpackedFloat

variable {f : Float.Model.Format} {m n : Nat} {e d : Int}

section Shift

theorem mantissa_shiftRight (em : ExtendedMantissa) (n : Nat) :
    (em >>> n).mantissa = em.mantissa / 2 ^ n := by
  induction n with
  | zero => exact (Nat.div_one _).symm
  | succ n ih =>
      have hstep : (em >>> (n + 1)).mantissa = (em >>> n).mantissa / 2 := rfl
      rw [hstep, ih, Nat.div_div_eq_div_mul, pow_succ]

theorem mantissa_le_rounded (em : ExtendedMantissa) : em.mantissa ≤ em.roundedMantissa := by
  unfold ExtendedMantissa.roundedMantissa
  cases em.accuracy with
  | exact => exact le_refl _
  | inexact o =>
      cases o with
      | lt => exact le_refl _
      | eq | gt => exact Nat.le_add_right _ _

theorem log2_rounded_le {em : ExtendedMantissa} (hpos : 0 < em.mantissa) :
    em.roundedMantissa.log2 ≤ em.mantissa.log2 + 1 := by
  rw [← log2_shiftLeft hpos]
  apply log2_mono
  rw [Nat.shiftLeft_eq]
  have := roundedMantissa_le em
  omega

end Shift

section Round

/-- What a shift to its place leaves of a mantissa that does not lie below the range of a format: the
exponent of the leading bit, and no more bits than the format has. -/
theorem shift_eq (f : Float.Model.Format) {m : Nat} {e : Int} (hm : 0 < m) (he : f.minExponent ≤ m.log2 + e)
    (a : Accuracy) :
    0 < (shiftToTargetExponent f m e a).1.mantissa ∧
      (shiftToTargetExponent f m e a).1.mantissa.log2 + (shiftToTargetExponent f m e a).2 = m.log2 + e ∧
      (shiftToTargetExponent f m e a).2 =
        max e (max (m.log2 + e - f.mantissaBitsWithoutImplicit) f.minExponent) := by
  unfold shiftToTargetExponent shiftToExponent
  dsimp only
  rw [targetExponent_totalExponent, mantissa_shiftRight, mantissa_ofAccuracy, log2_div_two_pow]
  refine ⟨?_, ?_, ?_⟩
  · refine Nat.div_pos ?_ (Nat.two_pow_pos _)
    rw [← Nat.le_log2 hm.ne']
    omega
  · omega
  · omega

/-- Rounding a mantissa that has enough bits for its exponent leaves the form of the format and does not lower
the exponent of the leading bit. -/
theorem roundWithAccuracy_eq (hm : 0 < m) (he : f.minExponent ≤ m.log2 + e)
    (hbits : f.mantissaBitsWithoutImplicit ≤ m.log2 ∨ e ≤ f.minExponent) (s : Sign) (a : Accuracy) :
    ∃ n d hn, roundWithAccuracy f s m e a = .finite s n d hn ∧ Normalized f n d ∧
      m.log2 + e ≤ n.log2 + d ∧ n.log2 + d ≤ m.log2 + e + 1 := by
  obtain ⟨hpos, hlog, hexp⟩ := shift_eq f hm he a
  unfold roundWithAccuracy
  generalize shiftToTargetExponent f m e a = first at hpos hlog hexp
  obtain ⟨em, e₁⟩ := first
  have hround := log2_mono (mantissa_le_rounded em)
  have hround' := log2_rounded_le hpos
  dsimp only at hpos hlog hexp hround hround'
  -- the rounded mantissa may have one bit more, for which it is shifted again
  obtain ⟨hpos', hlog', hexp'⟩ :=
    shift_eq f (e := e₁) (hpos.trans_le (mantissa_le_rounded em)) (by omega) .exact
  dsimp only
  rw [dif_neg hpos'.ne']
  refine ⟨_, _, hpos', rfl, ?_, by omega, by omega⟩
  rw [normalized_iff]
  omega

theorem round_eq_finite (hm : 0 < m) (he : f.minExponent ≤ m.log2 + e) (s : Sign) :
    ∃ n d hn, UnpackedFloat.round f s m e = .finite s n d hn ∧ Normalized f n d ∧
      n.log2 + d ≤ m.log2 + e + 1 := by
  unfold UnpackedFloat.round decreaseExponent
  dsimp only
  rw [targetExponent_totalExponent]
  generalize hk : (e - max (m.log2 + e - f.mantissaBitsWithoutImplicit) f.minExponent).toNat = k
  have hlog := log2_shiftLeft hm k
  obtain ⟨n, d, hn, hround, hnorm, _, hle⟩ :=
    roundWithAccuracy_eq (f := f) (e := e - k) (shiftLeft_pos hm k) (by omega) (by omega) s .exact
  exact ⟨n, d, hn, hround, hnorm, by omega⟩

theorem shiftToTargetExponent_normalized (h : Normalized f m e) :
    shiftToTargetExponent f m e .exact = (⟨m, false, false⟩, e) := by
  rw [shiftToTargetExponent, h, shiftToExponent, sub_self]
  exact Prod.ext rfl (add_zero e)

theorem roundWithAccuracy_normalized (hm : 0 < m) (h : Normalized f m e) (s : Sign) :
    roundWithAccuracy f s m e .exact = .finite s m e hm := by
  have hrounded : (ExtendedMantissa.mk m false false).roundedMantissa = m := rfl
  simp only [roundWithAccuracy, shiftToTargetExponent_normalized h, hrounded]
  exact dif_neg hm.ne'

theorem round_exact (hm : 0 < m) (hlog : m.log2 ≤ f.mantissaBitsWithoutImplicit) (he : f.minExponent ≤ e)
    (s : Sign) : ∃ k : Nat, Normalized f (m <<< k) (e - k) ∧
      UnpackedFloat.round f s m e = .finite s (m <<< k) (e - k) (shiftLeft_pos hm k) := by
  have htarget := targetExponent_totalExponent f m e
  obtain ⟨k, hk⟩ : ∃ k : Nat, e - f.targetExponent (totalExponent m e) = k :=
    Int.eq_ofNat_of_zero_le (by omega)
  have hnorm : Normalized f (m <<< k) (e - k) := by
    rw [normalized_iff, log2_shiftLeft hm]
    omega
  refine ⟨k, hnorm, ?_⟩
  rw [UnpackedFloat.round, decreaseExponent, hk]
  exact roundWithAccuracy_normalized _ hnorm s

theorem isFinite_stored_round (hf : 2 ≤ f.exponentBits) (hm : 0 < m) (he : f.minExponent ≤ m.log2 + e)
    (hmax : m.log2 + e + 1 + f.exponentBias + 1 < (2 ^ f.exponentBits : Nat)) (s : Sign) :
    (UnpackedFloat.unpack f (UnpackedFloat.pack f (.round f s m e))).isFinite := by
  obtain ⟨n, d, hn, hround, hnorm, hle⟩ := round_eq_finite hm he s
  have hfour : 2 ^ 2 ≤ 2 ^ f.exponentBits := Nat.pow_le_pow_right two_pos hf
  have hbias := exponentBias_add f
  have hd := normalized_iff.1 hnorm
  have hrange : InRange f d := by
    rw [inRange_iff]
    omega
  rw [hround, unpack_pack hnorm hrange]
  rfl

end Round

end Binary

end PolyRoots
