import Mathlib.Algebra.Ring.Int.Defs
import PolyRoots.Scalar.Classes

universe u v

namespace PolyRoots

class Extended.Exact (α : Type u) [Extended α] : Prop where
  isNaN_eq_false : ∀ x : α, isNaN x = false
  isInf_eq_false : ∀ x : α, isInf x = false

instance instExtendedInt : Extended ℤ where
  isNaN _ := false
  isInf _ := false
  nan := 0
  infinity := 0
  sign := Int.sign

instance instExactInt : Extended.Exact ℤ where
  isNaN_eq_false _ := rfl
  isInf_eq_false _ := rfl

/-- The elements of a ring as ordinary scalars: neither undefined nor infinite, with the operations of
the ring. -/
structure Ordinary {R : Type u} {α : Type v} [CommRing R] [Zero α] [One α] [Add α] [Sub α] [Mul α]
    [NatCast α] [BEq α] [Extended α] (φ : R → α) : Prop where
  zero : φ 0 = 0
  one : φ 1 = 1
  add (x y : R) : φ (x + y) = φ x + φ y
  sub (x y : R) : φ (x - y) = φ x - φ y
  mul (x y : R) : φ (x * y) = φ x * φ y
  natCast (n : Nat) : φ n = n
  beq_zero (x : R) : φ x == 0 ↔ x = 0
  isNaN_eq_false (x : R) : Extended.isNaN (φ x) = false
  isInf_eq_false (x : R) : Extended.isInf (φ x) = false

theorem Ordinary.id (R : Type u) [CommRing R] [BEq R] [LawfulBEq R] [Extended R] [Extended.Exact R] :
    Ordinary (id : R → R) where
  zero := rfl
  one := rfl
  add _ _ := rfl
  sub _ _ := rfl
  mul _ _ := rfl
  natCast _ := rfl
  beq_zero _ := beq_iff_eq
  isNaN_eq_false := Extended.Exact.isNaN_eq_false
  isInf_eq_false := Extended.Exact.isInf_eq_false

/-- A strict comparison that holds excludes all others. Floating-point numbers, undefined ones
included, satisfy this as well as every linear order. -/
class StrictComparison (α : Type u) [LT α] [BEq α] : Prop where
  asymm {a b : α} : a < b → ¬ b < a
  beq_left {a b : α} : a < b → (a == b) = false
  beq_right {a b : α} : a < b → (b == a) = false
  beq_self {a b : α} : a < b → (b == b) = true

end PolyRoots
