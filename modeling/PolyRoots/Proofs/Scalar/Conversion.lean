import PolyRoots.Proofs.Scalar.Magnitude
import PolyRoots.Scalar.Format

namespace PolyRoots

namespace Binary

open Float.Model
open Float.Model.UnpackedFloat

/-- The numbers on one side of zero, the infinity among them. -/
def OnSide (s : Sign) : UnpackedFloat → Prop
  | .infinity t | .finite t _ _ _ => t = s
  | .zero _ | .notANumber => False

theorem OnSide.beq_zero {s : Sign} {u : UnpackedFloat} (h : OnSide s u) :
    u.beq (.zero .positive) = false := by
  rcases u with (_ | _) | _ | _ | ⟨_ | _, _, _, _⟩ <;> first | rfl | exact h.elim

theorem OnSide.zero_beq {s : Sign} {u : UnpackedFloat} (h : OnSide s u) (t : Sign) :
    (UnpackedFloat.zero t).beq u = false := by
  rcases u with (_ | _) | _ | _ | ⟨_ | _, _, _, _⟩ <;> first | rfl | exact h.elim

theorem OnSide.zero_lt {s : Sign} {u : UnpackedFloat} (h : OnSide s u) :
    (UnpackedFloat.zero .positive).lt u = (s == .positive) := by
  rcases u with (_ | _) | _ | _ | ⟨_ | _, _, _, _⟩ <;> cases h <;> rfl

theorem OnSide.le_zero {s : Sign} {u : UnpackedFloat} (h : OnSide s u) :
    u.le (.zero .positive) = (s == .negative) := by
  rcases u with (_ | _) | _ | _ | ⟨_ | _, _, _, _⟩ <;> cases h <;> rfl

section Stored

variable {f : Float.Model.Format} {m : Nat} {e : Int}

theorem onSide_stored_finite (h : Normalized f m e) (s : Sign) (hm : 0 < m) :
    OnSide s (UnpackedFloat.unpack f (UnpackedFloat.pack f (.finite s m e hm))) := by
  by_cases hrange : InRange f e
  · rw [unpack_pack h hrange]
    rfl
  · rw [pack_of_not_inRange hrange, unpack_infinite]
    rfl

theorem onSide_stored_round (hm : 0 < m) (he : f.minExponent ≤ m.log2 + e) (s : Sign) :
    OnSide s (UnpackedFloat.unpack f (UnpackedFloat.pack f (.round f s m e))) := by
  obtain ⟨n, d, hn, hround, hnorm, -⟩ := round_eq_finite hm he s
  rw [hround]
  exact onSide_stored_finite hnorm s hn

theorem normalize_of_ne_zero {z : Int} (hz : z ≠ 0) (e : Int) (s : Sign) :
    UnpackedFloat.normalize f z e s =
      .round f (if 0 < z then .positive else .negative) z.natAbs e := by
  unfold UnpackedFloat.normalize
  rcases lt_trichotomy z 0 with hlt | rfl | hgt
  · have habs : (-z).toNat = z.natAbs := by omega
    rw [compare_lt_iff_lt.2 hlt, if_neg hlt.not_gt, ← habs]
  · exact absurd rfl hz
  · have habs : z.toNat = z.natAbs := by omega
    rw [compare_gt_iff_gt.2 hgt, if_pos hgt, ← habs]

theorem onSide_stored_normalize {z : Int} (hz : z ≠ 0) (he : f.minExponent ≤ e) (s : Sign) :
    OnSide (if 0 < z then .positive else .negative)
      (UnpackedFloat.unpack f (UnpackedFloat.pack f (.normalize f z e s))) := by
  rw [normalize_of_ne_zero hz]
  exact onSide_stored_round (Int.natAbs_pos.2 hz) (by omega) _

theorem unpack_pack_zero (f : Float.Model.Format) (s : Sign) :
    UnpackedFloat.unpack f (UnpackedFloat.pack f (.zero s)) = .zero s := unpack_packedZero

theorem stored_zero_beq_zero (f : Float.Model.Format) (s : Sign) :
    (UnpackedFloat.unpack f (UnpackedFloat.pack f (.zero s))).beq (.zero .positive) = true := by
  rw [unpack_pack_zero]
  cases s <;> rfl

theorem stored_normalize_beq_zero_iff (he : f.minExponent ≤ e) (z : Int) (s : Sign) :
    (UnpackedFloat.unpack f (UnpackedFloat.pack f (.normalize f z e s))).beq (.zero .positive) = true ↔
      z = 0 := by
  by_cases hz : z = 0
  · rw [hz]
    exact iff_of_true (stored_zero_beq_zero f s) rfl
  · exact iff_of_false (Bool.eq_false_iff.1 (onSide_stored_normalize hz he s).beq_zero) hz

end Stored

end Binary

namespace Precision

open Float.Model (UnpackedFloat)
open Float.Model.UnpackedFloat (Sign)
open Binary (OnSide)

variable {p q : Precision} {s : Sign}

def layout : Precision → Float.Model.Format
  | single => .binary32
  | double => .binary64

def bits : {p : Precision} → p.Elem → BitVec p.layout.numBits
  | single, x => x.toModel.toBits.toBitVec
  | double, x => x.toModel.toBits.toBitVec

def unpacked (x : p.Elem) : UnpackedFloat := .unpack p.layout (bits x)

def stored (p : Precision) (u : UnpackedFloat) : UnpackedFloat :=
  UnpackedFloat.unpack p.layout (UnpackedFloat.pack p.layout u)

theorem minExponent_le_zero (p : Precision) : p.layout.minExponent ≤ 0 := by
  cases p <;> decide

theorem isNaN_eq (x : p.Elem) : Extended.isNaN x = (unpacked x).isNaN := by
  cases p <;> rfl

theorem beq_zero_eq (x : p.Elem) : (x == 0) = (unpacked x).beq (.zero .positive) := by
  cases p <;> rfl

theorem beq_zero_of_onSide {x : p.Elem} (h : OnSide s (unpacked x)) : (x == 0) = false :=
  (beq_zero_eq x).trans h.beq_zero

theorem unpacked_widen (x : single.Elem) :
    unpacked (single.convert double x) = double.stored (Nearest.rounded double.layout (unpacked x)) := rfl

theorem convert_beq_zero (h : p.join q = q) (x : p.Elem) : (p.convert q x == 0) = (x == 0) := by
  cases p with
  | double =>
    cases q with
    | single => cases h
    | double => rfl
  | single =>
    cases q with
    | single => rfl
    | double =>
      have hconv := unpacked_widen x
      cases hx : unpacked x with
      | notANumber => rw [beq_zero_eq, beq_zero_eq, hconv, hx]; rfl
      | infinity s => rw [beq_zero_eq, beq_zero_eq, hconv, hx]; cases s <;> rfl
      | zero s => rw [beq_zero_eq, beq_zero_eq, hconv, hx]; cases s <;> rfl
      | finite s m e hm =>
        have he : single.layout.minExponent ≤ e := (Binary.normalized_unpack hx).minExponent_le
        have hmin : double.layout.minExponent ≤ single.layout.minExponent := by decide
        have hside : OnSide s (unpacked x) := hx ▸ rfl
        rw [beq_zero_of_onSide hside]
        apply beq_zero_of_onSide (s := s)
        rw [hconv, hx]
        exact Binary.onSide_stored_round hm (by omega) s

end Precision

namespace Format

open Float.Model (UnpackedFloat)

theorem unpacked_int64 (p : Precision) (n : Int64) :
    Precision.unpacked (int64.convert (real p) n) = p.stored (.ofInt p.layout n.toInt) := by
  cases p <;> rfl

theorem onSide_int64 (p : Precision) {n : Int64} (hn : n.toInt ≠ 0) :
    Binary.OnSide (if 0 < n.toInt then .positive else .negative)
      (Precision.unpacked (int64.convert (real p) n)) :=
  (unpacked_int64 p n).symm ▸ Binary.onSide_stored_normalize hn p.minExponent_le_zero .positive

theorem convert_int64_beq_zero (p : Precision) (n : Int64) :
    (int64.convert (real p) n == 0) = (n == 0) := by
  by_cases hn : n = 0
  · rw [hn]
    cases p <;> rfl
  · rw [beq_false_of_ne hn]
    exact Precision.beq_zero_of_onSide (onSide_int64 p fun h => hn (Int64.toInt_inj.1 h))

theorem convert_beq_zero {f : Format} {p : Precision} (hflag : f ≠ .flag)
    (h : f.join (.real p) = .real p) (x : f.Elem) : (f.convert (.real p) x == 0) = (x == 0) := by
  cases f with
  | flag => exact absurd rfl hflag
  | int64 => exact convert_int64_beq_zero p x
  | real q => exact Precision.convert_beq_zero (by injection h) x

theorem convert_flag_beq_zero (g : Format) (x : Flag) : (flag.convert g x == 0) = (x == 0) := by
  obtain ⟨b⟩ := x
  rcases g with _ | _ | _ | _ <;> cases b <;> rfl

/-- No number becomes zero in a format that it meets. -/
theorem convert_beq_zero_of_join {f g : Format} (h : f.join g = g) (x : f.Elem) :
    (f.convert g x == 0) = (x == 0) := by
  cases f with
  | flag => exact convert_flag_beq_zero g x
  | int64 =>
    cases g with
    | flag => cases h
    | int64 => rfl
    | real p => exact convert_int64_beq_zero p x
  | real q =>
    cases g with
    | flag => cases h
    | int64 => cases h
    | real p => exact Precision.convert_beq_zero (by injection h) x

/-- The nonzero scalars whose magnitude does not compare as positive. -/
def unmeasured : (f : Format) → f.Elem → Bool
  | flag, _ => false
  | int64, x => x == Int64.minValue
  | real _, x => Extended.isNaN x

theorem exceeds_real (p : Precision) (x : p.Elem) :
    (real p).exceeds 0 x = (x != 0 && !Extended.isNaN x) := by
  have habs : (real p).exceeds 0 x =
      (UnpackedFloat.zero .positive).lt (p.stored (Precision.unpacked x).abs) := by
    rw [Bool.eq_iff_iff]
    cases p <;> exact decide_eq_true_iff.trans decide_eq_true_iff
  rw [habs, bne, Precision.beq_zero_eq, Precision.isNaN_eq]
  cases hu : Precision.unpacked x with
  | notANumber => cases p <;> rfl
  | infinity s => cases p <;> cases s <;> rfl
  | zero s => cases p <;> cases s <;> rfl
  | finite s m e hm =>
    have hside : Binary.OnSide .positive (p.stored (UnpackedFloat.finite s m e hm).abs) :=
      Binary.onSide_stored_finite (Binary.normalized_unpack hu) .positive hm
    rw [hside.zero_lt]
    cases s <;> rfl

theorem onSide_abs (p : Precision) {n : Int64} (hzero : n ≠ 0) (hmin : n ≠ Int64.minValue) :
    Binary.OnSide .positive (Precision.unpacked (p := p) (int64.convert (real p) n.abs)) := by
  have habs : n.abs.toInt = n.toInt.natAbs :=
    BitVec.toInt_abs_eq_natAbs_of_ne_intMin fun h => hmin (Int64.toBitVec_inj.1 h)
  have hne : n.toInt ≠ 0 := fun h => hzero (Int64.toInt_inj.1 h)
  have hpos : 0 < n.abs.toInt := by omega
  have hside := onSide_int64 p hpos.ne'
  rwa [if_pos hpos] at hside

theorem exceeds_int64 (n : Int64) : int64.exceeds 0 n = (n != 0 && n != Int64.minValue) := by
  by_cases hzero : n = 0
  · rw [hzero]
    rfl
  by_cases hmin : n = Int64.minValue
  · rw [hmin]
    decide +kernel
  have hside := onSide_abs .single hzero hmin
  have hlt : int64.exceeds 0 n = true := decide_eq_true_iff.2 (decide_eq_true_iff.2 hside.zero_lt)
  rw [hlt, bne, beq_false_of_ne hzero, bne, beq_false_of_ne hmin]
  rfl

theorem within_int64 (n : Int64) : int64.within 0 n = (n == 0 || n == Int64.minValue) := by
  by_cases hzero : n = 0
  · rw [hzero]
    rfl
  by_cases hmin : n = Int64.minValue
  · rw [hmin]
    decide +kernel
  have hside := onSide_abs .single hzero hmin
  have hle : int64.within 0 n = false := by
    rw [Bool.eq_false_iff]
    intro h
    cases hside.le_zero.symm.trans (decide_eq_true_iff.1 (decide_eq_true_iff.1 h))
  rw [hle, beq_false_of_ne hzero, beq_false_of_ne hmin]
  rfl

/-- Against the tolerance zero exactly the scalars that are not zero and have a magnitude count. -/
theorem exceeds_zero {f : Format} (hflag : f ≠ .flag) (x : f.Elem) :
    f.exceeds 0 x = (x != 0 && !f.unmeasured x) := by
  cases f with
  | flag => exact absurd rfl hflag
  | int64 => exact exceeds_int64 x
  | real p => exact exceeds_real p x

end Format

end PolyRoots
