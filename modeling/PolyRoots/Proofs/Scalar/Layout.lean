import Mathlib

namespace PolyRoots

namespace Binary

open Float.Model
open Float.Model.UnpackedFloat

variable {f : Float.Model.Format} {s t : Sign} {m n : Nat} {e d : Int}

section Shift

theorem log2_mono {m n : Nat} (h : m ≤ n) : m.log2 ≤ n.log2 := by
  rw [Nat.log2_eq_log_two, Nat.log2_eq_log_two]
  exact Nat.log_mono_right h

theorem log2_div_two_pow (m n : Nat) : (m / 2 ^ n).log2 = m.log2 - n := by
  rw [Nat.log2_eq_log_two, Nat.log2_eq_log_two, Nat.log_div_base_pow]

theorem shiftLeft_pos {n : Nat} (hn : 0 < n) (k : Nat) : 0 < n <<< k := by
  rw [Nat.shiftLeft_eq]
  exact Nat.mul_pos hn (Nat.two_pow_pos k)

theorem log2_shiftLeft {n : Nat} (hn : 0 < n) (k : Nat) : (n <<< k).log2 = n.log2 + k := by
  rw [Nat.log2_eq_iff (shiftLeft_pos hn k).ne', Nat.shiftLeft_eq, pow_add, Nat.add_right_comm, pow_add]
  exact ⟨Nat.mul_le_mul_right _ (Nat.log2_self_le hn.ne'),
    Nat.mul_lt_mul_of_pos_right Nat.lt_log2_self (Nat.two_pow_pos k)⟩

theorem shiftLeft_inj {m n : Nat} (k : Nat) : m <<< k = n <<< k ↔ m = n := by
  rw [Nat.shiftLeft_eq, Nat.shiftLeft_eq, Nat.mul_left_inj (Nat.two_pow_pos k).ne']

end Shift

section Form

/-- The exponent is the one by which the format stores numbers of this magnitude. -/
def Normalized (f : Float.Model.Format) (m : Nat) (e : Int) : Prop :=
  f.targetExponent (totalExponent m e) = e

theorem targetExponent_totalExponent (f : Float.Model.Format) (m : Nat) (e : Int) :
    f.targetExponent (totalExponent m e) =
      max (m.log2 + e - f.mantissaBitsWithoutImplicit) f.minExponent := by
  unfold Format.targetExponent Format.mantissaBits totalExponent
  omega

theorem normalized_iff : Normalized f m e ↔
    max (m.log2 + e - f.mantissaBitsWithoutImplicit) f.minExponent = e := by
  rw [Normalized, targetExponent_totalExponent]

theorem Normalized.log2_le (h : Normalized f m e) : m.log2 ≤ f.mantissaBitsWithoutImplicit := by
  have := normalized_iff.1 h
  omega

theorem Normalized.minExponent_le (h : Normalized f m e) : f.minExponent ≤ e := by
  have := normalized_iff.1 h
  omega

theorem Normalized.shiftLeft_eq_iff (h : Normalized f m e) (h' : Normalized f n d) (hm : 0 < m) (hn : 0 < n)
    {j k : Nat} (hexp : e - j = d - k) : m <<< j = n <<< k ↔ m = n ∧ e = d := by
  constructor
  · intro hmant
    have hlog : m.log2 + j = n.log2 + k := by rw [← log2_shiftLeft hm, ← log2_shiftLeft hn, hmant]
    have htotal : totalExponent m e = totalExponent n d := by
      unfold totalExponent
      omega
    have hed : e = d := by rw [← h, ← h', htotal]
    obtain rfl : j = k := by omega
    exact ⟨(shiftLeft_inj j).1 hmant, hed⟩
  · rintro ⟨rfl, rfl⟩
    rw [show j = k by omega]

end Form

section Store

theorem two_pow_exponentBits (f : Float.Model.Format) :
    2 ^ f.exponentBits = 2 * 2 ^ (f.exponentBits - 1) := by
  rw [← pow_succ', Nat.sub_add_cancel f.he]

theorem exponentBias_add (f : Float.Model.Format) :
    (f.exponentBias + f.mantissaBitsWithoutImplicit : Int) = 1 - f.minExponent := by
  have hpos := Nat.two_pow_pos (f.exponentBits - 1)
  unfold Format.exponentBias Format.minExponent Format.mantissaBits
  push_cast [Nat.one_le_two_pow]
  omega

theorem neg_one_toNat (f : Float.Model.Format) : (-1#f.exponentBits).toNat = 2 ^ f.exponentBits - 1 := by
  rw [BitVec.neg_one_eq_allOnes, BitVec.toNat_allOnes]

theorem toNat_leading_bit {w : Nat} (v : BitVec w) : (1#1 ++ v).toNat = 2 ^ w + v.toNat := by
  rw [BitVec.toNat_append, ← Nat.shiftLeft_add_eq_or_of_lt v.isLt, Nat.shiftLeft_eq]
  exact congrArg (· + v.toNat) (Nat.one_mul _)

theorem unpackSign_packComponents (s : Sign) (x : BitVec f.exponentBits)
    (v : BitVec f.mantissaBitsWithoutImplicit) : unpackSign (packComponents f s x v) = s.toBitVec := by
  ext i hi
  obtain rfl : i = 0 := by omega
  simp [unpackSign, packComponents, BitVec.getLsbD_eq_getElem, BitVec.getLsbD_append,
    BitVec.getElem_append]

theorem ofBitVec_toBitVec (s : Sign) : Sign.ofBitVec s.toBitVec = s := by
  cases s <;> rfl

theorem unpack_infinite (f : Float.Model.Format) (s : Sign) :
    UnpackedFloat.unpack f (packedInfinity f s) = .infinity s := by
  cases s <;> simp [UnpackedFloat.unpack, packedInfinity]

/-- An exponent that is stored is neither the one of infinities nor above it. -/
def InRange (f : Float.Model.Format) (e : Int) : Prop :=
  e + f.exponentBias + f.mantissaBitsWithoutImplicit + 1 < (2 ^ f.exponentBits : Nat)

theorem inRange_iff : InRange f e ↔ e + 2 < (2 ^ f.exponentBits : Nat) + f.minExponent := by
  have hbias := exponentBias_add f
  rw [InRange]
  omega

theorem InRange.mono (h : InRange f e) (hle : d ≤ e) : InRange f d := by
  rw [inRange_iff] at h ⊢
  omega

theorem pack_of_not_inRange (h : ¬InRange f e) (s : Sign) (hm : 0 < m) :
    UnpackedFloat.pack f (.finite s m e hm) = packedInfinity f s := by
  rw [InRange] at h
  exact if_pos (by omega)

theorem isFinite_unpack {b : BitVec f.numBits} (h : unpackExponent b ≠ -1#_) :
    (UnpackedFloat.unpack f b).isFinite := by
  simp only [UnpackedFloat.unpack, if_neg h]
  split
  · split <;> rfl
  · rfl

theorem isFinite_unpack_pack (h : InRange f e) (s : Sign) (hm : 0 < m) :
    (UnpackedFloat.unpack f (UnpackedFloat.pack f (.finite s m e hm))).isFinite := by
  have hone {k : Nat} (hk : k + 1 < 2 ^ f.exponentBits) : BitVec.ofNat f.exponentBits k ≠ -1#_ := by
    intro heq
    have htoNat := congrArg BitVec.toNat heq
    rw [neg_one_toNat, BitVec.toNat_ofNat, Nat.mod_eq_of_lt (by omega)] at htoNat
    omega
  have hpow := two_pow_exponentBits f
  have hhalf := Nat.two_pow_pos (f.exponentBits - 1)
  rw [InRange] at h
  unfold UnpackedFloat.pack
  dsimp only
  rw [if_neg (by omega)]
  apply isFinite_unpack
  split <;> rw [unpackExponent_packComponents] <;> exact hone (by omega)

theorem unpack_finite {b : BitVec f.numBits} {hm : 0 < m}
    (h : UnpackedFloat.unpack f b = .finite s m e hm) :
    (unpackExponent b).toNat + 1 < 2 ^ f.exponentBits ∧
      ((0 < (unpackExponent b).toNat ∧ m = 2 ^ f.mantissaBitsWithoutImplicit + (unpackMantissa b).toNat ∧
          e = (unpackExponent b).toNat - 1 + f.minExponent) ∨
        ((unpackExponent b).toNat = 0 ∧ m = (unpackMantissa b).toNat ∧ e = f.minExponent)) := by
  have hbias := exponentBias_add f
  have hlt := (unpackExponent b).isLt
  simp only [UnpackedFloat.unpack] at h
  split at h
  next => split at h <;> cases h
  next htop =>
    have hne : (unpackExponent b).toNat ≠ 2 ^ f.exponentBits - 1 := by
      rw [← neg_one_toNat]
      exact fun heq => htop (BitVec.eq_of_toNat_eq heq)
    split at h
    next hzero =>
      split at h
      next => cases h
      next =>
        injection h with _ hmant he
        rw [hzero, BitVec.toNat_zero] at he ⊢
        exact ⟨by omega, .inr ⟨rfl, hmant.symm, by omega⟩⟩
    next hzero =>
      have hpos : 0 < (unpackExponent b).toNat :=
        Nat.pos_of_ne_zero fun h0 => hzero (BitVec.eq_of_toNat_eq h0)
      injection h with _ hmant he
      rw [toNat_leading_bit] at hmant
      exact ⟨by omega, .inl ⟨hpos, hmant.symm, by omega⟩⟩

theorem normalized_unpack {b : BitVec f.numBits} {hm : 0 < m}
    (h : UnpackedFloat.unpack f b = .finite s m e hm) : Normalized f m e := by
  have hmant := (unpackMantissa b).isLt
  rw [normalized_iff]
  obtain ⟨-, ⟨hpos, hleading, he⟩ | ⟨hzero, hnone, he⟩⟩ := unpack_finite h
  · have hlog : m.log2 = f.mantissaBitsWithoutImplicit := by
      rw [Nat.log2_eq_iff hm.ne', pow_succ]
      omega
    omega
  · have hlog : m.log2 < f.mantissaBitsWithoutImplicit := by
      rw [Nat.log2_lt hm.ne']
      omega
    omega

theorem inRange_unpack (hf : 2 ≤ f.exponentBits) {b : BitVec f.numBits} {hm : 0 < m}
    (h : UnpackedFloat.unpack f b = .finite s m e hm) : InRange f e := by
  have hfour : 2 ^ 2 ≤ 2 ^ f.exponentBits := Nat.pow_le_pow_right two_pos hf
  obtain ⟨hlt, hcases⟩ := unpack_finite h
  rw [inRange_iff]
  omega

theorem unpack_leading {x : BitVec f.exponentBits} (hpos : 0 < x.toNat) (htop : x.toNat + 1 < 2 ^ f.exponentBits)
    (s : Sign) (v : BitVec f.mantissaBitsWithoutImplicit) :
    UnpackedFloat.unpack f (packComponents f s x v) =
      .finite s (1#1 ++ v).toNat (x.toNat - (f.exponentBias + f.mantissaBitsWithoutImplicit)) (by simp) := by
  have hzero : x ≠ 0#_ := fun h => hpos.ne' (by rw [h, BitVec.toNat_zero])
  have hone : x ≠ -1#_ := by
    intro h
    rw [h, neg_one_toNat] at htop
    omega
  simp only [UnpackedFloat.unpack, unpackExponent_packComponents, unpackMantissa_packComponents,
    unpackSign_packComponents, ofBitVec_toBitVec, if_neg hone, if_neg hzero]

theorem unpack_subnormal {v : BitVec f.mantissaBitsWithoutImplicit} (hpos : 0 < v.toNat) (s : Sign) :
    UnpackedFloat.unpack f (packComponents f s 0#_ v) = .finite s v.toNat f.minExponent hpos := by
  have hone : 0#f.exponentBits ≠ -1#_ := by
    intro h
    have htoNat := congrArg BitVec.toNat h
    have hpow := two_pow_exponentBits f
    have hhalf := Nat.two_pow_pos (f.exponentBits - 1)
    rw [neg_one_toNat, BitVec.toNat_zero] at htoNat
    omega
  have hzero : v ≠ 0#_ := fun h => hpos.ne' (by rw [h, BitVec.toNat_zero])
  have hbias := exponentBias_add f
  simp only [UnpackedFloat.unpack, unpackExponent_packComponents, unpackMantissa_packComponents,
    unpackSign_packComponents, ofBitVec_toBitVec, if_neg hone, if_pos, dif_neg hzero]
  congr 1
  rw [BitVec.toNat_zero]
  omega

/-- What is stored of a number in the form of the format is the number itself. -/
theorem unpack_pack (h : Normalized f m e) (hmax : InRange f e) (s : Sign) (hm : 0 < m) :
    UnpackedFloat.unpack f (UnpackedFloat.pack f (.finite s m e hm)) = .finite s m e hm := by
  have hbias := exponentBias_add f
  have hnorm := normalized_iff.1 h
  have hlt : m < 2 ^ (f.mantissaBitsWithoutImplicit + 1) := by
    rw [← Nat.log2_lt hm.ne']
    omega
  rw [inRange_iff] at hmax
  unfold UnpackedFloat.pack Format.mantissaBits
  dsimp only
  rw [if_neg (by omega)]
  split
  next hlog =>
    have hlead : 2 ^ f.mantissaBitsWithoutImplicit ≤ m := by
      rw [← Nat.le_log2 hm.ne']
      omega
    generalize hx : (e + f.exponentBias + f.mantissaBitsWithoutImplicit).toNat = x
    have hexp : (BitVec.ofNat f.exponentBits x).toNat = x := by
      rw [BitVec.toNat_ofNat]
      exact Nat.mod_eq_of_lt (by omega)
    have hmant : (1#1 ++ BitVec.ofNat f.mantissaBitsWithoutImplicit m).toNat = m := by
      rw [toNat_leading_bit, BitVec.toNat_ofNat, Nat.mod_eq_sub_mod hlead, Nat.mod_eq_of_lt]
      · omega
      · rw [pow_succ] at hlt
        omega
    rw [unpack_leading (by omega) (by omega)]
    congr 1
    omega
  next hlog =>
    have hlow : m < 2 ^ f.mantissaBitsWithoutImplicit := by
      rw [← Nat.log2_lt hm.ne']
      omega
    have hmant : (BitVec.ofNat f.mantissaBitsWithoutImplicit m).toNat = m := by
      rw [BitVec.toNat_ofNat]
      exact Nat.mod_eq_of_lt hlow
    rw [unpack_subnormal (by omega)]
    congr 1
    omega

end Store

end Binary

end PolyRoots
