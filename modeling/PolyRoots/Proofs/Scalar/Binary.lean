import PolyRoots.Proofs.Scalar.Layout
import PolyRoots.Proofs.Scalar.Overflow
import PolyRoots.Scalar.Native

namespace PolyRoots

namespace Binary

open Float.Model
open Float.Model.UnpackedFloat

/-- What is read back of a result that was stored in 64 bits. -/
def stored (u : UnpackedFloat) : UnpackedFloat := unpack .binary64 (pack .binary64 u)

def unpacked (x : Float) : UnpackedFloat := x.toModel.unpack

theorem unpacked_add (x y : Float) :
    unpacked (x + y) = stored (.add .binary64 (unpacked x) (unpacked y)) := rfl

theorem unpacked_mul (x y : Float) :
    unpacked (x * y) = stored (.mul .binary64 (unpacked x) (unpacked y)) := rfl

@[simp]
theorem stored_infinity (s : Sign) : stored (.infinity s) = .infinity s := by
  cases s <;> rfl

@[simp]
theorem stored_zero (s : Sign) : stored (.zero s) = .zero s := by
  cases s <;> rfl

theorem exponentBias_eq : Format.binary64.exponentBias = 1023 := by decide

theorem inRange_binary64_iff {e : Int} : InRange .binary64 e ↔ e ≤ 971 := by
  rw [inRange_iff]
  change e + 2 < 2048 + -1074 ↔ e ≤ 971
  omega

theorem exponent_le_of_unpack {b : BitVec 64} {s : Sign} {m : Nat} {e : Int} {hm : 0 < m}
    (h : unpack .binary64 b = .finite s m e hm) : e ≤ 971 :=
  inRange_binary64_iff.1 (inRange_unpack (by decide) h)

theorem pack_finite (s : Sign) (m : Nat) (e : Int) (hm : 0 < m) :
    pack .binary64 (.finite s m e hm) =
      if 971 < e then packedInfinity .binary64 s
      else if m.log2 + 1 = 53 then
        packComponents .binary64 s (BitVec.ofNat 11 (e + 1075).toNat) (BitVec.ofNat 52 m)
      else packComponents .binary64 s 0#11 (BitVec.ofNat 52 m) := by
  have hcap : 2 ^ 11 ≤ (e + 1075).toNat + 1 ↔ 971 < e := by omega
  have hsum : e + 1023 + 52 = e + 1075 := add_assoc e 1023 52
  simp only [UnpackedFloat.pack, exponentBias_eq, Nat.cast_ofNat, hsum, hcap]
  rfl

theorem stored_finite_of_large {e : Int} (he : 971 < e) (s : Sign) (m : Nat) (hm : 0 < m) :
    stored (.finite s m e hm) = .infinity s := by
  rw [stored, pack_of_not_inRange (mt inRange_binary64_iff.1 (not_le.2 he))]
  exact stored_infinity s

theorem isFinite_stored_finite {e : Int} (he : e ≤ 971) (s : Sign) (m : Nat) (hm : 0 < m) :
    (stored (.finite s m e hm)).isFinite :=
  isFinite_unpack_pack (inRange_binary64_iff.2 he) s hm

theorem unpacked_zero : unpacked 0 = .zero .positive := rfl

theorem lt_iff (x y : Float) : x < y ↔ (unpacked x).lt (unpacked y) := by
  change (decide ((unpacked x).lt (unpacked y) = true)) = true ↔ _
  exact decide_eq_true_iff

theorem beq_eq (x y : Float) : (x == y) = (unpacked x).beq (unpacked y) := rfl

theorem isFinite_eq (x : Float) : Extended.isFinite x = (unpacked x).isFinite := by
  change (!((unpacked x).isNaN || (unpacked x).isInf)) = _
  cases unpacked x <;> rfl

def side : Sign → SignType
  | .positive => 1
  | .negative => -1

theorem direction_eq (x : Float) : direction x =
    match unpacked x with
    | .infinity s | .finite s _ _ _ => side s
    | .notANumber | .zero _ => 0 := by
  simp only [direction, lt_iff, unpacked_zero]
  cases unpacked x with
  | notANumber | zero s => rfl
  | infinity s | finite s m e hm => cases s <;> rfl

theorem beq_zero_iff (x : Float) : x == 0 ↔ ∃ s, unpacked x = .zero s := by
  rw [beq_eq, unpacked_zero]
  cases unpacked x with
  | notANumber => simp [UnpackedFloat.beq, UnpackedFloat.compare]
  | zero s => simp [UnpackedFloat.beq, UnpackedFloat.compare]
  | infinity s | finite s m e hm => cases s <;> simp [UnpackedFloat.beq, UnpackedFloat.compare]

theorem isInf_iff (x : Float) : Extended.isInf x ↔ ∃ s, unpacked x = .infinity s := by
  change (unpacked x).isInf ↔ _
  cases unpacked x <;> simp [UnpackedFloat.isInf]

theorem isFinite_iff (x : Float) : Extended.isFinite x ↔
    (∃ s, unpacked x = .zero s) ∨ ∃ s m e hm, unpacked x = .finite s m e hm ∧ e ≤ 971 := by
  rw [isFinite_eq]
  have hle (s m e hm) (h : unpacked x = .finite s m e hm) : e ≤ 971 := exponent_le_of_unpack h
  cases hx : unpacked x with
  | notANumber | infinity s | zero s => simp [UnpackedFloat.isFinite]
  | finite s m e hm => simpa [UnpackedFloat.isFinite] using ⟨hm, hle s m e hm hx⟩

theorem ofModel_infinity (s : Sign) : Float.ofModel (.pack (.infinity s)) = infiniteTo (side s) := by
  cases s <;> rfl

theorem side_mul (s t : Sign) : side (s * t) = side s * side t := by
  cases s <;> cases t <;> rfl

theorem isNaN_stored {u : UnpackedFloat} (hu : u.isNaN = false) : (stored u).isNaN = false := by
  cases u with
  | notANumber => cases hu
  | infinity s => exact congrArg _ (stored_infinity s)
  | zero s => exact congrArg _ (stored_zero s)
  | finite s m e hm =>
      by_cases he : 971 < e
      · exact congrArg _ (stored_finite_of_large he s m hm)
      · have := isFinite_stored_finite (not_lt.1 he) s m hm
        revert this
        cases stored (.finite s m e hm) <;> simp [UnpackedFloat.isFinite, UnpackedFloat.isNaN]

theorem isNaN_round (f : Format) (s : Sign) (m : Nat) (e : Int) (a : Accuracy) :
    (roundWithAccuracy f s m e a).isNaN = false := by
  unfold roundWithAccuracy
  dsimp only
  split <;> rfl

theorem isNaN_normalize (f : Format) (m e : Int) (s : Sign) :
    (UnpackedFloat.normalize f m e s).isNaN = false := by
  unfold UnpackedFloat.normalize
  split
  · exact isNaN_round _ _ _ _ _
  · rfl
  · exact isNaN_round _ _ _ _ _

theorem compare_swap (u v : UnpackedFloat) :
    UnpackedFloat.compare v u = (UnpackedFloat.compare u v).map Ordering.swap := by
  have hsign (s t : Sign) : compare t s = (compare s t).swap := by cases s <;> cases t <;> rfl
  have hfinite (e d : Int) (m n : Nat) : (compare d e).then (compare n m) =
      ((compare e d).then (compare m n)).swap := by
    rw [Ordering.swap_then, Int.compare_swap, Nat.compare_swap]
  cases u with
  | notANumber => cases v <;> rfl
  | infinity s =>
    cases v with
    | infinity t => exact congrArg some (hsign s t)
    | notANumber | zero t | finite t n d hn => cases s <;> rfl
  | zero s =>
    cases v with
    | infinity t | finite t n d hn => cases t <;> rfl
    | notANumber | zero t => rfl
  | finite s m e hm =>
    cases v with
    | notANumber => rfl
    | zero t => cases s <;> rfl
    | infinity t => cases t <;> rfl
    | finite t n d hn =>
      cases s with
      | positive =>
        cases t with
        | positive => exact congrArg some (hfinite e d m n)
        | negative => rfl
      | negative =>
        cases t with
        | positive => rfl
        | negative => exact congrArg (fun o => some o.swap) (hfinite e d m n)

instance instStrictComparisonFloat : StrictComparison Float where
  asymm {a b} h hba := by
    rw [lt_iff, UnpackedFloat.lt, beq_iff_eq] at h hba
    rw [compare_swap, h] at hba
    cases hba
  beq_left {a b} h := by
    rw [lt_iff, UnpackedFloat.lt, beq_iff_eq] at h
    rw [beq_eq, UnpackedFloat.beq, h]
    rfl
  beq_right {a b} h := by
    rw [lt_iff, UnpackedFloat.lt, beq_iff_eq] at h
    rw [beq_eq, UnpackedFloat.beq, compare_swap, h]
    rfl
  beq_self {a b} h := by
    rw [Float.beq_self_iff]
    rintro rfl
    rw [lt_iff] at h
    change (unpacked a).lt .notANumber = true at h
    revert h
    cases unpacked a <;> exact nofun

instance instOverflowingFloat : Overflowing Float where
  zero_beq_zero := rfl
  isFinite_of_beq_zero h := (isFinite_iff _).2 (.inl ((beq_zero_iff _).1 h))
  direction_eq_zero {x} hnan h := by
    rw [direction_eq] at h
    rw [beq_zero_iff]
    replace hnan : (unpacked x).isNaN = false := hnan
    revert hnan h
    cases unpacked x with
    | notANumber => exact nofun
    | zero s => exact fun _ _ => ⟨s, rfl⟩
    | infinity s | finite s m e hm => cases s <;> exact nofun
  direction_ne_zero {x} h := by
    obtain ⟨s, hs⟩ := (isInf_iff x).1 h
    rw [direction_eq, hs]
    cases s <;> exact nofun
  isNaN_of_isInf {x} h := by
    obtain ⟨s, hs⟩ := (isInf_iff x).1 h
    exact congrArg UnpackedFloat.isNaN hs
  isInf_infiniteTo {s} hs := by
    cases s with
    | zero => exact absurd rfl hs
    | pos | neg => rfl
  direction_infiniteTo s := by cases s <;> rfl
  isFinite_sign {x} _ := by
    change Extended.isFinite (if 0 < x then 1 else if x < 0 then -1 else (0 : Float))
    split
    · rfl
    · split <;> rfl
  direction_sign {x} _ := by
    change direction (if 0 < x then 1 else if x < 0 then -1 else (0 : Float)) = if _ then _ else _
    split
    · rfl
    · split <;> rfl
  isNaN_add {x y} hx hy := by
    refine isNaN_stored (u := .add .binary64 (unpacked x) (unpacked y)) ?_
    rcases (isFinite_iff x).1 hx with ⟨s, hs⟩ | ⟨s, m, e, hm, hs, _⟩ <;>
      rcases (isFinite_iff y).1 hy with ⟨t, ht⟩ | ⟨t, n, d, hn, ht, _⟩ <;> rw [hs, ht]
    · cases s <;> cases t <;> rfl
    · rfl
    · rfl
    · exact isNaN_normalize _ _ _ _
  isNaN_mul {x y} hx hy := by
    refine isNaN_stored (u := .mul .binary64 (unpacked x) (unpacked y)) ?_
    rcases (isFinite_iff x).1 hx with ⟨s, hs⟩ | ⟨s, m, e, hm, hs, _⟩ <;>
      rcases (isFinite_iff y).1 hy with ⟨t, ht⟩ | ⟨t, n, d, hn, ht, _⟩ <;> rw [hs, ht]
    · rfl
    · rfl
    · rfl
    · exact isNaN_round _ _ _ _ _
  isFinite_zero_add {x y} hx hy := by
    obtain ⟨s, hs⟩ := (beq_zero_iff x).1 hx
    rw [isFinite_eq, unpacked_add, hs]
    rcases (isFinite_iff y).1 hy with ⟨t, ht⟩ | ⟨t, n, d, hn, ht, hd⟩ <;> rw [ht]
    · cases s <;> cases t <;> rfl
    · exact isFinite_stored_finite hd t n hn
  mul_beq_zero {x y} hx hy := by
    obtain ⟨t, ht⟩ := (beq_zero_iff y).1 hy
    rw [beq_zero_iff, unpacked_mul, ht]
    rcases (isFinite_iff x).1 hx with ⟨s, hs⟩ | ⟨s, m, e, hm, hs, _⟩ <;>
      exact ⟨s * t, by rw [hs]; exact stored_zero _⟩
  beq_zero_mul {x y} hx hy := by
    obtain ⟨s, hs⟩ := (beq_zero_iff x).1 hx
    rw [beq_zero_iff, unpacked_mul, hs]
    rcases (isFinite_iff y).1 hy with ⟨t, ht⟩ | ⟨t, n, d, hn, ht, _⟩ <;>
      exact ⟨s * t, by rw [ht]; exact stored_zero _⟩
  infinite_add {x y} hx hy := by
    obtain ⟨s, hs⟩ := (isInf_iff x).1 hx
    rw [direction_eq, hs, ← ofModel_infinity]
    change Float.ofModel (.pack (.add .binary64 (unpacked x) (unpacked y))) = _
    rcases (isFinite_iff y).1 hy with ⟨t, ht⟩ | ⟨t, n, d, hn, ht, _⟩ <;> rw [hs, ht] <;> rfl
  infinite_mul {x y} hx hy hne := by
    obtain ⟨s, hs⟩ := (isInf_iff x).1 hx
    rcases (isFinite_iff y).1 hy with ⟨t, ht⟩ | ⟨t, n, d, hn, ht, _⟩
    · exact absurd (by rw [direction_eq, ht]) hne
    · rw [direction_eq, direction_eq, hs, ht, ← side_mul, ← ofModel_infinity]
      change Float.ofModel (.pack (.mul .binary64 (unpacked x) (unpacked y))) = _
      rw [hs, ht]
      rfl
  finite_mul {x y} hx hne hy := by
    obtain ⟨t, ht⟩ := (isInf_iff y).1 hy
    rcases (isFinite_iff x).1 hx with ⟨s, hs⟩ | ⟨s, m, e, hm, hs, _⟩
    · exact absurd (by rw [direction_eq, hs]) hne
    · rw [direction_eq, direction_eq, hs, ht, ← side_mul, ← ofModel_infinity]
      change Float.ofModel (.pack (.mul .binary64 (unpacked x) (unpacked y))) = _
      rw [hs, ht]
      rfl

end Binary

end PolyRoots
