import Mathlib.Algebra.Order.Field.Basic
import PolyRoots.Proofs.Scalar.Embedding
import PolyRoots.Proofs.Scalar.Exact

universe u

namespace PolyRoots

inductive Line (K : Type u) where
  | negInf
  | finite (x : K)
  | posInf
  | undefined
  deriving DecidableEq

namespace Line

variable {K : Type u} [Field K] [LinearOrder K]

def infinite (s : K) : Line K := if 0 < s then posInf else if s < 0 then negInf else undefined

def neg : Line K → Line K
  | negInf => posInf
  | finite x => finite (-x)
  | posInf => negInf
  | undefined => undefined

def add : Line K → Line K → Line K
  | finite x, finite y => finite (x + y)
  | finite _, y => y
  | x, finite _ => x
  | posInf, posInf => posInf
  | negInf, negInf => negInf
  | _, _ => undefined

def mul : Line K → Line K → Line K
  | finite x, finite y => finite (x * y)
  | posInf, finite y | finite y, posInf => infinite y
  | negInf, finite y | finite y, negInf => infinite (-y)
  | posInf, posInf | negInf, negInf => posInf
  | posInf, negInf | negInf, posInf => negInf
  | _, _ => undefined

def div : Line K → Line K → Line K
  | finite x, finite y => if y = 0 then infinite x else finite (x / y)
  | finite _, posInf | finite _, negInf => finite 0
  | posInf, finite y => if y = 0 then posInf else infinite y
  | negInf, finite y => if y = 0 then negInf else infinite (-y)
  | _, _ => undefined

def less : Line K → Line K → Bool
  | negInf, finite _ | negInf, posInf | finite _, posInf => true
  | finite x, finite y => x < y
  | _, _ => false

def lessEq : Line K → Line K → Bool
  | undefined, _ | _, undefined => false
  | negInf, _ | _, posInf => true
  | finite x, finite y => x ≤ y
  | _, _ => false

def equal : Line K → Line K → Bool
  | negInf, negInf | posInf, posInf => true
  | finite x, finite y => x == y
  | _, _ => false

instance instZero : Zero (Line K) := ⟨finite 0⟩

instance instOne : One (Line K) := ⟨finite 1⟩

instance instNatCast : NatCast (Line K) := ⟨fun n => finite n⟩

instance instNeg : Neg (Line K) := ⟨neg⟩

instance instAdd : Add (Line K) := ⟨add⟩

instance instSub : Sub (Line K) := ⟨fun x y => add x (neg y)⟩

instance instMul : Mul (Line K) := ⟨mul⟩

instance instDiv : Div (Line K) := ⟨div⟩

instance instLT : LT (Line K) := ⟨fun x y => less x y = true⟩

instance instDecidableLT : DecidableLT (Line K) := fun x y => inferInstanceAs (Decidable (less x y = true))

instance instLE : LE (Line K) := ⟨fun x y => lessEq x y = true⟩

instance instDecidableLE : DecidableLE (Line K) := fun x y => inferInstanceAs (Decidable (lessEq x y = true))

instance instBEq : BEq (Line K) := ⟨equal⟩

def lift (f : K → K) : Line K → Line K
  | finite x => finite (f x)
  | _ => undefined

def lift₂ (f : K → K → K) : Line K → Line K → Line K
  | finite x, finite y => finite (f x y)
  | _, _ => undefined

instance instElementary [Elementary K] : Elementary (Line K) where
  sqrt := lift Elementary.sqrt
  pow := lift₂ Elementary.pow
  atan2 := lift₂ Elementary.atan2
  cos := lift Elementary.cos
  sin := lift Elementary.sin
  pi := finite Elementary.pi

instance instExtended : Extended (Line K) where
  isNaN x := x matches undefined
  isInf x := x matches negInf | posInf
  nan := undefined
  infinity := posInf
  sign
    | negInf => finite (-1)
    | finite x => finite (if 0 < x then 1 else if x < 0 then -1 else 0)
    | posInf => finite 1
    | undefined => undefined

section Finite

variable (x y : K)

omit [LinearOrder K] in
theorem finite_neg : -finite x = finite (-x) := rfl

omit [LinearOrder K] in
@[simp]
theorem finite_sub : finite x - finite y = finite (x - y) :=
  congrArg finite (sub_eq_add_neg x y).symm

@[simp]
theorem finite_mul : finite x * finite y = finite (x * y) := rfl

theorem finite_div (hy : y ≠ 0) : finite x / finite y = finite (x / y) := if_neg hy

omit [Field K] in
@[simp]
theorem finite_lt_finite : finite x < finite y ↔ x < y := decide_eq_true_iff

omit [Field K] in
theorem finite_beq_finite : (finite x == finite y) = (x == y) := rfl

theorem finite_beq_zero : (finite x == 0) = (x == 0) := rfl

theorem ordinary_finite : Ordinary (finite : K → Line K) where
  zero := rfl
  one := rfl
  add _ _ := rfl
  sub x y := (finite_sub x y).symm
  mul _ _ := rfl
  natCast _ := rfl
  beq_zero x := by rw [finite_beq_zero, beq_iff_eq]
  isNaN_eq_false _ := rfl
  isInf_eq_false _ := rfl

theorem embedding_finite : Embedding (finite : K → Line K) where
  zero := rfl
  one := rfl
  natCast _ := rfl
  neg _ := rfl
  add _ _ := rfl
  sub x y := (finite_sub x y).symm
  mul _ _ := rfl
  div x _ hy := (finite_div x _ (beq_eq_false_iff_ne.1 hy)).symm
  beq _ _ := rfl
  lt := finite_lt_finite

theorem elementaryEmbedding_finite [Elementary K] : ElementaryEmbedding (finite : K → Line K) where
  toEmbedding := embedding_finite
  le _ _ := decide_eq_true_iff
  sqrt _ := rfl
  pow _ _ := rfl
  atan2 _ _ := rfl
  cos _ := rfl
  sin _ := rfl

end Finite

omit [Field K] in
theorem not_less_symm {x y : Line K} (h : less x y = true) : less y x = false := by
  cases x <;> cases y <;> simp_all [less, le_of_lt]

omit [Field K] in
theorem not_equal_of_less {x y : Line K} (h : less x y = true) : equal x y = false := by
  cases x <;> cases y <;> simp_all [less, equal, ne_of_lt]

omit [Field K] in
theorem equal_symm (x y : Line K) : equal x y = equal y x := by
  cases x <;> cases y <;> simp [equal, BEq.comm]

omit [Field K] in
theorem equal_self_of_less {x y : Line K} (h : less x y = true) : equal y y = true := by
  cases x <;> cases y <;> simp_all [less, equal]

instance instStrictComparison : StrictComparison (Line K) where
  asymm h := Bool.eq_false_iff.1 (not_less_symm h)
  beq_left := not_equal_of_less
  beq_right h := (equal_symm _ _).trans (not_equal_of_less h)
  beq_self := equal_self_of_less

end Line

end PolyRoots
