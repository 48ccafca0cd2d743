import PolyRoots.Proofs.Scalar.Conversion

namespace PolyRoots

namespace Binary

open Float.Model
open Float.Model.UnpackedFloat

variable {f : Float.Model.Format} {s t : Sign} {m n : Nat} {e d : Int}

section Difference

variable {b c : BitVec f.numBits}

theorem apply_eq_apply_iff {s t : Sign} {m n : Nat} (hm : 0 < m) :
    s.apply (m : Int) = t.apply (n : Int) ↔ s = t ∧ m = n := by
  cases s <;> cases t <;> simp [Sign.apply] <;> omega

theorem beq_finite_iff {s t : Sign} {m n : Nat} {e d : Int} {hm : 0 < m} {hn : 0 < n} :
    (UnpackedFloat.finite s m e hm).beq (.finite t n d hn) = true ↔ s = t ∧ m = n ∧ e = d := by
  simp [beq_iff_ne_notANumber_and_eq]

theorem sub_zero_zero (f : Float.Model.Format) (s t : Sign) :
    ∃ r, UnpackedFloat.sub f (.zero s) (.zero t) = .zero r := by
  cases s <;> cases t <;> exact ⟨_, rfl⟩

/-- The difference of finite numbers is zero exactly if they are equal: the least exponent is below theirs,
so that a difference which is not zero does not round to zero. -/
theorem stored_sub_beq_zero (hb : (UnpackedFloat.unpack f b).isFinite)
    (hc : (UnpackedFloat.unpack f c).isFinite) :
    (UnpackedFloat.unpack f (UnpackedFloat.pack f
        (.sub f (UnpackedFloat.unpack f b) (UnpackedFloat.unpack f c)))).beq (.zero .positive) =
      (UnpackedFloat.unpack f b).beq (UnpackedFloat.unpack f c) := by
  cases hu : UnpackedFloat.unpack f b with
  | notANumber | infinity s => rw [hu] at hb; cases hb
  | zero s =>
    cases hv : UnpackedFloat.unpack f c with
    | notANumber | infinity t => rw [hv] at hc; cases hc
    | zero t =>
      obtain ⟨r, hr⟩ := sub_zero_zero f s t
      rw [hr]
      exact stored_zero_beq_zero f r
    | finite t n d hn =>
      have hside := onSide_stored_finite (normalized_unpack hv) (-t) hn
      exact hside.beq_zero.trans (by cases t <;> rfl)
  | finite s m e hm =>
    have hnorm := normalized_unpack hu
    cases hv : UnpackedFloat.unpack f c with
    | notANumber | infinity t => rw [hv] at hc; cases hc
    | zero t => exact (onSide_stored_finite hnorm s hm).beq_zero.trans (by cases s <;> rfl)
    | finite t n d hn =>
      have hnorm' := normalized_unpack hv
      have he := hnorm.minExponent_le
      have hd := hnorm'.minExponent_le
      generalize hj : (e - min e d).toNat = j
      generalize hk : (d - min e d).toNat = k
      have hiff : s.apply (m <<< j : Nat) = t.apply (n <<< k : Nat) ↔ s = t ∧ m = n ∧ e = d := by
        rw [apply_eq_apply_iff (shiftLeft_pos hm j), hnorm.shiftLeft_eq_iff hnorm' hm hn (by omega)]
      rw [Bool.eq_iff_iff, beq_finite_iff, ← hiff, ← sub_eq_zero (b := t.apply _)]
      simp only [UnpackedFloat.sub, decreaseExponent, hj, hk]
      exact stored_normalize_beq_zero_iff (by omega) _ .positive

end Difference

section Wider

theorem stored_round_exact (hm : 0 < m) (hlog : m.log2 ≤ f.mantissaBitsWithoutImplicit)
    (he : f.minExponent ≤ e) (hrange : InRange f e) (s : Sign) :
    ∃ k : Nat, Normalized f (m <<< k) (e - k) ∧
      UnpackedFloat.unpack f (UnpackedFloat.pack f (.round f s m e)) =
        .finite s (m <<< k) (e - k) (shiftLeft_pos hm k) := by
  obtain ⟨k, hnorm, hround⟩ := round_exact hm hlog he s
  exact ⟨k, hnorm, by rw [hround, unpack_pack hnorm (hrange.mono (by omega))]⟩

theorem stored_round_beq_iff (hm : 0 < m) (hn : 0 < n) (hlog : m.log2 ≤ f.mantissaBitsWithoutImplicit)
    (hlog' : n.log2 ≤ f.mantissaBitsWithoutImplicit) (he : f.minExponent ≤ e) (hd : f.minExponent ≤ d)
    (hrange : InRange f e) (hrange' : InRange f d) {j k : Nat} (hjk : e - j = d - k) :
    (UnpackedFloat.unpack f (UnpackedFloat.pack f (.round f s m e))).beq
        (UnpackedFloat.unpack f (UnpackedFloat.pack f (.round f t n d))) = true ↔
      s = t ∧ m <<< j = n <<< k := by
  obtain ⟨i, hnorm, hstored⟩ := stored_round_exact hm hlog he hrange s
  obtain ⟨l, hnorm', hstored'⟩ := stored_round_exact hn hlog' hd hrange' t
  -- both mantissas are shifted further, to the least of the exponents
  have hi : i + (l + j) = j + (i + l) := by omega
  have hl : l + (i + k) = k + (i + l) := by omega
  have hshift : m <<< i <<< (l + j) = n <<< l <<< (i + k) ↔ m <<< j = n <<< k := by
    rw [← Nat.shiftLeft_add, ← Nat.shiftLeft_add, hi, hl, Nat.shiftLeft_add m j, Nat.shiftLeft_add n k,
      shiftLeft_inj]
  rw [hstored, hstored', beq_finite_iff, ← hshift]
  refine and_congr_right fun _ => ?_
  exact (hnorm.shiftLeft_eq_iff hnorm' (shiftLeft_pos hm i) (shiftLeft_pos hn l) (by omega)).symm

/-- The numbers of one format are numbers of the other. -/
structure Narrower (f g : Float.Model.Format) : Prop where
  bits : f.mantissaBitsWithoutImplicit ≤ g.mantissaBitsWithoutImplicit
  least : g.minExponent ≤ f.minExponent
  inRange {e : Int} : InRange f e → InRange g e

theorem narrower_binary32 : Narrower .binary32 .binary64 where
  bits := by decide
  least := by decide
  inRange {e} h := by
    rw [inRange_iff] at h
    change e + 2 < 256 + -149 at h
    rw [inRange_binary64_iff]
    omega

variable {g : Float.Model.Format} {b c : BitVec f.numBits}

theorem stored_rounded_zero (g : Float.Model.Format) (s : Sign) :
    UnpackedFloat.unpack g (UnpackedFloat.pack g (Nearest.rounded g (.zero s))) = .zero s :=
  unpack_pack_zero g s

theorem Narrower.stored_rounded (h : Narrower f g) (hf : 2 ≤ f.exponentBits) {hm : 0 < m}
    (hb : UnpackedFloat.unpack f b = .finite s m e hm) :
    ∃ k : Nat, Normalized g (m <<< k) (e - k) ∧
      UnpackedFloat.unpack g (UnpackedFloat.pack g (Nearest.rounded g (UnpackedFloat.unpack f b))) =
        .finite s (m <<< k) (e - k) (shiftLeft_pos hm k) := by
  have hnorm := normalized_unpack hb
  rw [hb]
  exact stored_round_exact hm (hnorm.log2_le.trans h.bits) (h.least.trans hnorm.minExponent_le)
    (h.inRange (inRange_unpack hf hb)) s

theorem Narrower.isFinite_stored_rounded (h : Narrower f g) (hf : 2 ≤ f.exponentBits)
    (hb : (UnpackedFloat.unpack f b).isFinite) :
    (UnpackedFloat.unpack g
      (UnpackedFloat.pack g (Nearest.rounded g (UnpackedFloat.unpack f b)))).isFinite := by
  cases hu : UnpackedFloat.unpack f b with
  | notANumber | infinity s => rw [hu] at hb; cases hb
  | zero s =>
    rw [stored_rounded_zero]
    rfl
  | finite s m e hm =>
    obtain ⟨k, -, hk⟩ := h.stored_rounded hf hu
    rw [hu] at hk
    rw [hk]
    rfl

theorem Narrower.stored_rounded_beq (h : Narrower f g) (hf : 2 ≤ f.exponentBits)
    (hb : (UnpackedFloat.unpack f b).isFinite) (hc : (UnpackedFloat.unpack f c).isFinite) :
    (UnpackedFloat.unpack g (UnpackedFloat.pack g (Nearest.rounded g (UnpackedFloat.unpack f b)))).beq
        (UnpackedFloat.unpack g (UnpackedFloat.pack g (Nearest.rounded g (UnpackedFloat.unpack f c)))) =
      (UnpackedFloat.unpack f b).beq (UnpackedFloat.unpack f c) := by
  cases hu : UnpackedFloat.unpack f b with
  | notANumber | infinity s => rw [hu] at hb; cases hb
  | zero s =>
    rw [stored_rounded_zero]
    cases hv : UnpackedFloat.unpack f c with
    | notANumber | infinity t => rw [hv] at hc; cases hc
    | zero t => rw [stored_rounded_zero]
    | finite t n d hn =>
      obtain ⟨k, -, hk⟩ := h.stored_rounded hf hv
      rw [← hv, hk, hv]
      cases s <;> cases t <;> rfl
  | finite s m e hm =>
    have hm' := normalized_unpack hu
    cases hv : UnpackedFloat.unpack f c with
    | notANumber | infinity t => rw [hv] at hc; cases hc
    | zero t =>
      obtain ⟨k, -, hk⟩ := h.stored_rounded hf hu
      rw [stored_rounded_zero, ← hu, hk, hu]
      cases s <;> cases t <;> rfl
    | finite t n d hn =>
      have hn' := normalized_unpack hv
      have hexp : e - (e - d).toNat = d - (d - e).toNat := by omega
      rw [Bool.eq_iff_iff, beq_finite_iff, ← hm'.shiftLeft_eq_iff hn' hm hn hexp]
      exact stored_round_beq_iff hm hn (hm'.log2_le.trans h.bits) (hn'.log2_le.trans h.bits)
        (h.least.trans hm'.minExponent_le) (h.least.trans hn'.minExponent_le)
        (h.inRange (inRange_unpack hf hu)) (h.inRange (inRange_unpack hf hv)) hexp

end Wider

section Integers

variable {x y : Int}

theorem log2_natAbs_lt {k : Nat} (hx : x ≠ 0) : x.natAbs.log2 < k ↔ x.natAbs < 2 ^ k :=
  Nat.log2_lt (Int.natAbs_ne_zero.2 hx)

theorem stored_ofInt_zero (f : Float.Model.Format) :
    UnpackedFloat.unpack f (UnpackedFloat.pack f (.ofInt f 0)) = .zero .positive :=
  unpack_pack_zero f .positive

theorem isFinite_stored_ofInt (hf : 2 ≤ f.exponentBits) (hmin : f.minExponent ≤ 0) {k : Nat}
    (hx : x.natAbs < 2 ^ k) (hmax : k + f.exponentBias + 1 < 2 ^ f.exponentBits) :
    (UnpackedFloat.unpack f (UnpackedFloat.pack f (.ofInt f x))).isFinite := by
  by_cases hzero : x = 0
  · rw [hzero, stored_ofInt_zero]
    rfl
  · have hlog := (log2_natAbs_lt hzero).2 hx
    rw [UnpackedFloat.ofInt, normalize_of_ne_zero hzero]
    exact isFinite_stored_round hf (Int.natAbs_pos.2 hzero) (by omega) (by omega) _

theorem stored_ofInt_beq_iff (hf : InRange f 0) (hmin : f.minExponent ≤ 0) (hx : x.natAbs < 2 ^ f.mantissaBits)
    (hy : y.natAbs < 2 ^ f.mantissaBits) :
    (UnpackedFloat.unpack f (UnpackedFloat.pack f (.ofInt f x))).beq
      (UnpackedFloat.unpack f (UnpackedFloat.pack f (.ofInt f y))) = true ↔ x = y := by
  by_cases hx0 : x = 0
  · rw [hx0, stored_ofInt_zero]
    by_cases hy0 : y = 0
    · rw [hy0, stored_ofInt_zero]
      exact iff_of_true rfl rfl
    · have hside := onSide_stored_normalize hy0 hmin .positive
      exact iff_of_false (Bool.eq_false_iff.1 (hside.zero_beq _)) (Ne.symm hy0)
  · by_cases hy0 : y = 0
    · rw [hy0, stored_ofInt_zero]
      exact stored_normalize_beq_zero_iff hmin x .positive
    · have hlog := (log2_natAbs_lt hx0).2 hx
      have hlog' := (log2_natAbs_lt hy0).2 hy
      unfold Format.mantissaBits at hlog hlog'
      rw [UnpackedFloat.ofInt, UnpackedFloat.ofInt, normalize_of_ne_zero hx0, normalize_of_ne_zero hy0,
        stored_round_beq_iff (Int.natAbs_pos.2 hx0) (Int.natAbs_pos.2 hy0) (by omega) (by omega) hmin hmin
          hf hf (j := 0) (k := 0) rfl]
      change _ ∧ x.natAbs = y.natAbs ↔ _
      constructor
      · rintro ⟨hsign, habs⟩
        split at hsign <;> split at hsign <;> first | omega | cases hsign
      · rintro rfl
        exact ⟨rfl, rfl⟩

end Integers

end Binary

namespace Precision

open Float.Model

variable {p q : Precision}

theorem beq_eq (x y : p.Elem) : (x == y) = (unpacked x).beq (unpacked y) := by
  cases p <;> rfl

theorem beq_comm (x y : p.Elem) : (x == y) = (y == x) := by
  rw [beq_eq, beq_eq, Bool.eq_iff_iff, UnpackedFloat.beq_iff_ne_notANumber_and_eq,
    UnpackedFloat.beq_iff_ne_notANumber_and_eq, eq_comm (a := unpacked x)]
  tauto

theorem unpacked_sub (x y : p.Elem) :
    unpacked (x - y) = p.stored (.sub p.layout (unpacked x) (unpacked y)) := by
  cases p <;> rfl

theorem isFinite_eq (x : p.Elem) : Extended.isFinite x = (unpacked x).isFinite := by
  have hcases : Extended.isFinite x = !((unpacked x).isNaN || (unpacked x).isInf) := by cases p <;> rfl
  rw [hcases]
  cases unpacked x <;> rfl

theorem two_le_exponentBits (p : Precision) : 2 ≤ p.layout.exponentBits := by
  cases p <;> decide

theorem sub_beq_zero {x y : p.Elem} (hx : Extended.isFinite x) (hy : Extended.isFinite y) :
    (x - y == 0) = (x == y) := by
  rw [isFinite_eq] at hx hy
  rw [beq_zero_eq, unpacked_sub, beq_eq]
  exact Binary.stored_sub_beq_zero hx hy

theorem isFinite_convert (h : p.join q = q) {x : p.Elem} (hx : Extended.isFinite x) :
    Extended.isFinite (p.convert q x) := by
  cases p with
  | double =>
    cases q with
    | single => cases h
    | double => exact hx
  | single =>
    cases q with
    | single => exact hx
    | double =>
      rw [isFinite_eq] at hx ⊢
      exact Binary.narrower_binary32.isFinite_stored_rounded single.two_le_exponentBits hx

theorem convert_beq_convert (h : p.join q = q) {x y : p.Elem} (hx : Extended.isFinite x)
    (hy : Extended.isFinite y) : (p.convert q x == p.convert q y) = (x == y) := by
  cases p with
  | double =>
    cases q with
    | single => cases h
    | double => rfl
  | single =>
    cases q with
    | single => rfl
    | double =>
      rw [isFinite_eq] at hx hy
      rw [beq_eq, beq_eq]
      exact Binary.narrower_binary32.stored_rounded_beq single.two_le_exponentBits hx hy

end Precision

namespace Format

open Float.Model

variable {f g : Format}

def isFinite : (f : Format) → f.Elem → Bool
  | flag, _ | int64, _ => true
  | real _, x => Extended.isFinite x

/-- Conversion to the format they meet in loses nothing: floating-point numbers have room for the mantissa of
an integer. -/
def Fits : (f g : Format) → f.Elem → Prop
  | int64, real p, n => n.toInt.natAbs < 2 ^ p.layout.mantissaBits
  | _, _, _ => True

theorem natAbs_toInt_lt (n : Int64) : n.toInt.natAbs < 2 ^ 64 := by
  have := n.le_toInt
  have := n.toInt_lt
  omega

theorem isFinite_convert_int64 (p : Precision) (n : Int64) :
    (real p).isFinite (int64.convert (real p) n) := by
  change Extended.isFinite (int64.convert (real p) n) = true
  rw [Precision.isFinite_eq, unpacked_int64]
  apply Binary.isFinite_stored_ofInt p.two_le_exponentBits p.minExponent_le_zero (natAbs_toInt_lt n)
  cases p <;> decide

theorem convert_int64_beq {p : Precision} {m n : Int64} (hm : int64.Fits (real p) m)
    (hn : int64.Fits (real p) n) :
    ((int64.convert (real p) m : p.Elem) == int64.convert (real p) n) = (m == n) := by
  have hrange : Binary.InRange p.layout 0 := by
    unfold Binary.InRange
    cases p <;> decide
  rw [Precision.beq_eq, unpacked_int64, unpacked_int64, Bool.eq_iff_iff, beq_iff_eq, ← Int64.toInt_inj]
  exact Binary.stored_ofInt_beq_iff hrange p.minExponent_le_zero hm hn

theorem isFinite_convert (h : f.join g = g) (hf : f ≠ .flag) {x : f.Elem} (hx : f.isFinite x) :
    g.isFinite (f.convert g x) := by
  cases f with
  | flag => exact absurd rfl hf
  | int64 =>
    cases g with
    | flag => cases h
    | int64 => rfl
    | real p => exact isFinite_convert_int64 p x
  | real p =>
    cases g with
    | flag | int64 => cases h
    | real q => exact Precision.isFinite_convert (by injection h) hx

theorem convert_beq_convert (h : f.join g = g) (hf : f ≠ .flag) {x y : f.Elem} (hx : f.isFinite x)
    (hy : f.isFinite y) (hx' : f.Fits g x) (hy' : f.Fits g y) :
    (f.convert g x == f.convert g y) = (x == y) := by
  cases f with
  | flag => exact absurd rfl hf
  | int64 =>
    cases g with
    | flag => cases h
    | int64 => rfl
    | real p => exact convert_int64_beq hx' hy'
  | real p =>
    cases g with
    | flag | int64 => cases h
    | real q => exact Precision.convert_beq_convert (by injection h) hx hy

theorem beq_comm (hf : f ≠ .flag) (x y : f.Elem) : (x == y) = (y == x) := by
  cases f with
  | flag => exact absurd rfl hf
  | int64 => exact Bool.beq_comm
  | real p => exact Precision.beq_comm x y

theorem sub_beq_zero (hf : f ≠ .flag) {x y : f.Elem} (hx : f.isFinite x) (hy : f.isFinite y) :
    (x - y == 0) = (x == y) := by
  cases f with
  | flag => exact absurd rfl hf
  | int64 =>
    rw [Bool.eq_iff_iff, beq_iff_eq, beq_iff_eq]
    exact Int64.sub_eq_iff_eq_add.trans (by rw [Int64.zero_add])
  | real p => exact Precision.sub_beq_zero hx hy

end Format

end PolyRoots
