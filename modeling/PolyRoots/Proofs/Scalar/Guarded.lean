import PolyRoots.Proofs.Scalar.Embedding
import PolyRoots.Proofs.Scalar.Magnitude

universe u

namespace PolyRoots

inductive Guarded (α : Type u) where
  | value (x : α)
  | refused

namespace Guarded

variable {α : Type u}

def lift (f : α → α) : Guarded α → Guarded α
  | value x => value (f x)
  | refused => refused

def lift₂ (f : α → α → α) : Guarded α → Guarded α → Guarded α
  | value x, value y => value (f x y)
  | _, _ => refused

def lift₂If (test : α → α → Bool) (f : α → α → α) : Guarded α → Guarded α → Guarded α
  | value x, value y => if test x y then value (f x y) else refused
  | _, _ => refused

def compare (test : α → α → Bool) : Guarded α → Guarded α → Bool
  | value x, value y => test x y
  | _, _ => false

instance instZero [Zero α] : Zero (Guarded α) := ⟨value 0⟩

instance instOne [One α] : One (Guarded α) := ⟨value 1⟩

instance instNatCast [NatCast α] : NatCast (Guarded α) := ⟨fun n => value n⟩

instance instNeg [Neg α] : Neg (Guarded α) := ⟨lift (- ·)⟩

instance instAdd [Add α] : Add (Guarded α) := ⟨lift₂ (· + ·)⟩

instance instSub [Sub α] : Sub (Guarded α) := ⟨lift₂ (· - ·)⟩

instance instMul [Mul α] : Mul (Guarded α) := ⟨lift₂ (· * ·)⟩

instance instDiv [Zero α] [Div α] [BEq α] : Div (Guarded α) := ⟨lift₂If (fun _ y => y != 0) (· / ·)⟩

instance instBEq [BEq α] : BEq (Guarded α) := ⟨compare (· == ·)⟩

instance instLT [LT α] [DecidableLT α] : LT (Guarded α) :=
  ⟨fun x y => compare (fun x y => decide (x < y)) x y = true⟩

instance instDecidableLT [LT α] [DecidableLT α] : DecidableLT (Guarded α) := fun x y =>
  inferInstanceAs (Decidable (compare (fun x y => decide (x < y)) x y = true))

instance instLE [LE α] [DecidableLE α] : LE (Guarded α) :=
  ⟨fun x y => compare (fun x y => decide (x ≤ y)) x y = true⟩

instance instDecidableLE [LE α] [DecidableLE α] : DecidableLE (Guarded α) := fun x y =>
  inferInstanceAs (Decidable (compare (fun x y => decide (x ≤ y)) x y = true))

/-- Square roots of negative numbers are refused, and so are powers of them and negative powers of zero. -/
instance instElementary [Zero α] [BEq α] [LT α] [DecidableLT α] [Elementary α] : Elementary (Guarded α) where
  sqrt
    | value x => if x < 0 then refused else value (Elementary.sqrt x)
    | refused => refused
  pow := lift₂If (fun x e => !(decide (x < 0) || x == 0 && decide (e < 0))) Elementary.pow
  atan2 := lift₂ Elementary.atan2
  cos := lift Elementary.cos
  sin := lift Elementary.sin
  pi := value Elementary.pi

instance instExtended [Extended α] : Extended (Guarded α) where
  isNaN
    | value x => Extended.isNaN x
    | refused => false
  isInf
    | value x => Extended.isInf x
    | refused => false
  nan := value Extended.nan
  infinity := value Extended.infinity
  sign := lift Extended.sign

@[simp]
theorem value_lt [LT α] [DecidableLT α] {x y : α} : value x < value y ↔ x < y := decide_eq_true_iff

@[simp]
theorem value_le [LE α] [DecidableLE α] {x y : α} : value x ≤ value y ↔ x ≤ y := decide_eq_true_iff

section Embedding

variable [Zero α] [One α] [Add α] [Sub α] [Neg α] [Mul α] [Div α] [NatCast α] [BEq α] [LT α] [DecidableLT α]

theorem embedding_value : Embedding (value : α → Guarded α) where
  zero := rfl
  one := rfl
  natCast _ := rfl
  neg _ := rfl
  add _ _ := rfl
  sub _ _ := rfl
  mul _ _ := rfl
  div _ _ hy := (if_pos (congrArg not hy)).symm
  beq _ _ := rfl
  lt _ _ := value_lt

theorem elementaryEmbedding_value [LE α] [DecidableLE α] [Elementary α] :
    ElementaryEmbedding (value : α → Guarded α) where
  toEmbedding := embedding_value
  le _ _ := value_le
  sqrt hx := (if_neg hx).symm
  pow hx he := (if_pos (by simp [hx, he])).symm
  atan2 _ _ := rfl
  cos _ := rfl
  sin _ := rfl

end Embedding

end Guarded

namespace Binary

open Float.Model
open Float.Model.UnpackedFloat

def sideOf : UnpackedFloat → SignType
  | .infinity s | .finite s _ _ _ => side s
  | .notANumber | .zero _ => 0

theorem lt_zero_iff (x : Float) : x < 0 ↔ sideOf (unpacked x) = -1 := by
  rw [lt_iff, unpacked_zero]
  cases unpacked x with
  | notANumber | zero s => simp [sideOf, UnpackedFloat.lt, UnpackedFloat.compare]
  | infinity s | finite s m e hm => cases s <;> simp [sideOf, side, UnpackedFloat.lt, UnpackedFloat.compare]

theorem not_lt_zero_of_le {x : Float} (h : 0 ≤ x) : ¬x < 0 := by
  change decide ((unpacked 0).le (unpacked x) = true) = true at h
  rw [unpacked_zero, decide_eq_true_iff] at h
  rw [lt_zero_iff]
  revert h
  cases unpacked x with
  | notANumber | zero s => exact fun _ => nofun
  | infinity s | finite s m e hm =>
      cases s with
      | positive => exact fun _ => nofun
      | negative => exact nofun

theorem zero_le_of_side {x : Float} (h : sideOf (unpacked x) = 1) : 0 ≤ x := by
  change decide ((unpacked 0).le (unpacked x) = true) = true
  rw [unpacked_zero, decide_eq_true_iff]
  revert h
  cases unpacked x with
  | notANumber | zero s => exact nofun
  | infinity s | finite s m e hm =>
      cases s with
      | positive => exact fun _ => rfl
      | negative => exact nofun

theorem sideOf_unpack (s : Sign) (e : BitVec 11) (m : BitVec 52) :
    sideOf (unpack .binary64 (packComponents .binary64 s e m)) = side s ∨
      sideOf (unpack .binary64 (packComponents .binary64 s e m)) = 0 := by
  simp only [UnpackedFloat.unpack, unpackExponent_packComponents, unpackMantissa_packComponents,
    unpackSign_packComponents, ofBitVec_toBitVec]
  split_ifs
  · exact .inl rfl
  · exact .inr rfl
  · exact .inr rfl
  · exact .inl rfl
  · exact .inl rfl

theorem sideOf_stored (u : UnpackedFloat) : sideOf (stored u) = sideOf u ∨ sideOf (stored u) = 0 := by
  cases u with
  | notANumber => exact .inl rfl
  | infinity s => rw [stored_infinity]; exact .inl rfl
  | zero s => rw [stored_zero]; exact .inl rfl
  | finite s m e hm =>
      by_cases he : 971 < e
      · rw [stored_finite_of_large he]
        exact .inl rfl
      · rw [stored, pack_finite, if_neg he]
        split <;> exact sideOf_unpack s _ _

theorem sideOf_neg (u : UnpackedFloat) : sideOf u.neg = -sideOf u := by
  cases u with
  | notANumber | zero s => rfl
  | infinity s | finite s m e hm => cases s <;> rfl

theorem unpacked_neg (x : Float) : unpacked (-x) = stored (unpacked x).neg := rfl

theorem side_of_neg_lt_zero {x : Float} (h : -x < 0) : sideOf (unpacked x) = 1 := by
  rw [lt_zero_iff, unpacked_neg] at h
  have hneg := sideOf_stored (unpacked x).neg
  rw [h, sideOf_neg] at hneg
  revert hneg
  cases sideOf (unpacked x) <;> decide

theorem not_neg_lt_zero_of_lt {x : Float} (h : x < 0) : ¬-x < 0 := by
  rw [lt_zero_iff] at h
  intro hneg
  rw [side_of_neg_lt_zero hneg] at h
  exact absurd h (by decide)

theorem not_neg_lt_zero_of_not_le {x : Float} (h : ¬0 ≤ x) : ¬-x < 0 := fun hneg =>
  h (zero_le_of_side (side_of_neg_lt_zero hneg))

theorem sideOf_round_positive (m : Nat) (e : Int) (a : Accuracy) :
    sideOf (roundWithAccuracy .binary64 .positive m e a) ≠ -1 := by
  unfold roundWithAccuracy
  dsimp only
  split <;> exact nofun

theorem sideOf_mul_self (u : UnpackedFloat) : sideOf (UnpackedFloat.mul .binary64 u u) ≠ -1 := by
  cases u with
  | notANumber | zero s => exact nofun
  | infinity s => cases s <;> exact nofun
  | finite s m e hm => cases s <;> exact sideOf_round_positive _ _ _

theorem sideOf_normalize {m : Int} (hm : 0 < m) (e : Int) (s : Sign) :
    sideOf (UnpackedFloat.normalize .binary64 m e s) ≠ -1 := by
  rw [UnpackedFloat.normalize, compare_gt_iff_gt.2 hm]
  exact sideOf_round_positive _ _ _

theorem decreased_pos {m : Nat} (hm : 0 < m) (e t : Int) : 0 < (decreaseExponent m e t).1 :=
  shiftLeft_pos hm _

theorem sideOf_add {u v : UnpackedFloat} (hu : sideOf u ≠ -1) (hv : sideOf v ≠ -1) :
    sideOf (UnpackedFloat.add .binary64 u v) ≠ -1 := by
  cases u with
  | notANumber => exact nofun
  | zero s =>
      cases v with
      | notANumber => exact nofun
      | zero t => cases s <;> cases t <;> exact nofun
      | infinity t | finite t n d hn => exact hv
  | infinity s =>
      cases v with
      | notANumber => exact nofun
      | infinity t =>
          cases s with
          | negative => exact absurd rfl hu
          | positive => cases t <;> exact nofun
      | zero t | finite t n d hn => exact hu
  | finite s m e hm =>
      cases v with
      | notANumber => exact nofun
      | infinity t => exact hv
      | zero t => exact hu
      | finite t n d hn =>
          cases s with
          | negative => exact absurd rfl hu
          | positive =>
              cases t with
              | negative => exact absurd rfl hv
              | positive =>
                  refine sideOf_normalize (Int.add_pos ?_ ?_) _ _
                  · exact Int.natCast_pos.2 (decreased_pos hm _ _)
                  · exact Int.natCast_pos.2 (decreased_pos hn _ _)

theorem sideOf_stored_ne {u : UnpackedFloat} (hu : sideOf u ≠ -1) : sideOf (stored u) ≠ -1 := by
  rcases sideOf_stored u with h | h <;> rw [h]
  · exact hu
  · exact nofun

theorem not_sum_of_squares_lt_zero (x y : Float) : ¬x * x + y * y < 0 := by
  have hsq (x : Float) : sideOf (unpacked (x * x)) ≠ -1 := sideOf_stored_ne (sideOf_mul_self _)
  rw [lt_zero_iff, unpacked_add]
  exact sideOf_stored_ne (sideOf_add (hsq x) (hsq y))

theorem natCast_mul_beq_zero {n : Nat} (hn : 0 < n) (hlt : n < 2 ^ 64) {x : Float} (hx : (x == 0) = false) :
    ((n : Float) * x == 0) = false :=
  beq_zero_of_above (above_mul (above_zero_natCast hn hlt) (above_of_beq_zero hx) (by decide))

instance instSignedFloat : Signed Float where
  two_beq_zero := rfl
  three_beq_zero := rfl
  not_three_lt_zero := by decide
  not_third_lt_zero := by decide
  not_half_third_lt_zero := by decide
  three_mul_beq_zero := natCast_mul_beq_zero (by decide) (by decide)
  four_mul_beq_zero := natCast_mul_beq_zero (by decide) (by decide)
  not_lt_zero_of_le := not_lt_zero_of_le
  not_neg_lt_zero_of_lt := not_neg_lt_zero_of_lt
  not_neg_lt_zero_of_not_le := not_neg_lt_zero_of_not_le
  not_sum_of_squares_lt_zero := not_sum_of_squares_lt_zero

end Binary

end PolyRoots
