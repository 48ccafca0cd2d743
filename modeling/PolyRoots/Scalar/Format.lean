import PolyRoots.Scalar.Flag
import PolyRoots.Scalar.Nearest

namespace PolyRoots

inductive Precision where
  | single
  | double
  deriving DecidableEq, Inhabited

namespace Precision

@[reducible]
def Elem : Precision → Type
  | single => Float32
  | double => Float

def join : Precision → Precision → Precision
  | single, p => p
  | double, _ => double

theorem join_comm (p q : Precision) : p.join q = q.join p := by
  cases p <;> cases q <;> rfl

theorem join_assoc (p q r : Precision) : (p.join q).join r = p.join (q.join r) := by
  cases p <;> rfl

def convert : (p q : Precision) → p.Elem → q.Elem
  | single, single, x => x
  | single, double, x => Nearest.widen x
  | double, single, x => Nearest.narrow x
  | double, double, x => x

def ofFloat : (p : Precision) → Float → p.Elem
  | single, x => Nearest.narrow x
  | double, x => x

def toFloat : (p : Precision) → p.Elem → Float
  | single, x => Nearest.widen x
  | double, x => x

variable {p : Precision}

instance instZero : Zero p.Elem :=
  match p with
  | single => inferInstanceAs (Zero Float32)
  | double => inferInstanceAs (Zero Float)

instance instOne : One p.Elem :=
  match p with
  | single => inferInstanceAs (One Float32)
  | double => inferInstanceAs (One Float)

instance instAdd : Add p.Elem :=
  match p with
  | single => inferInstanceAs (Add Float32)
  | double => inferInstanceAs (Add Float)

instance instSub : Sub p.Elem :=
  match p with
  | single => inferInstanceAs (Sub Float32)
  | double => inferInstanceAs (Sub Float)

instance instMul : Mul p.Elem :=
  match p with
  | single => inferInstanceAs (Mul Float32)
  | double => inferInstanceAs (Mul Float)

instance instDiv : Div p.Elem :=
  match p with
  | single => inferInstanceAs (Div Float32)
  | double => inferInstanceAs (Div Float)

instance instNeg : Neg p.Elem :=
  match p with
  | single => inferInstanceAs (Neg Float32)
  | double => inferInstanceAs (Neg Float)

instance instNatCast : NatCast p.Elem :=
  match p with
  | single => inferInstanceAs (NatCast Float32)
  | double => inferInstanceAs (NatCast Float)

instance instBEq : BEq p.Elem :=
  match p with
  | single => inferInstanceAs (BEq Float32)
  | double => inferInstanceAs (BEq Float)

instance instLT : LT p.Elem :=
  match p with
  | single => inferInstanceAs (LT Float32)
  | double => inferInstanceAs (LT Float)

instance instDecidableLT : DecidableLT p.Elem :=
  match p with
  | single => inferInstanceAs (DecidableLT Float32)
  | double => inferInstanceAs (DecidableLT Float)

instance instExtended : Extended p.Elem :=
  match p with
  | single => inferInstanceAs (Extended Float32)
  | double => inferInstanceAs (Extended Float)

instance instElementary : Elementary p.Elem :=
  match p with
  | single => inferInstanceAs (Elementary Float32)
  | double => inferInstanceAs (Elementary Float)

instance instInhabited : Inhabited p.Elem := ⟨0⟩

end Precision

inductive Format where
  | flag
  | int64
  | real (p : Precision)
  deriving DecidableEq, Inhabited

namespace Format

@[reducible]
def Elem : Format → Type
  | flag => Flag
  | int64 => Int64
  | real p => p.Elem

/-- The format in which two formats meet: floating point before integers before truth values, then
the wider one. -/
def join : Format → Format → Format
  | flag, f => f
  | f, flag => f
  | int64, f => f
  | f, int64 => f
  | real p, real q => real (p.join q)

theorem join_self (f : Format) : f.join f = f := by
  rcases f with _ | _ | _ | _ <;> rfl

theorem join_join_left (f g : Format) : f.join (f.join g) = f.join g := by
  rcases f with _ | _ | _ | _ <;> rcases g with _ | _ | _ | _ <;> rfl

theorem join_join_right (f g : Format) : g.join (f.join g) = f.join g := by
  rcases f with _ | _ | _ | _ <;> rcases g with _ | _ | _ | _ <;> rfl

theorem join_double (f : Format) : f.join (real .double) = real .double := by
  rcases f with _ | _ | _ | _ <;> rfl

theorem join_comm (f g : Format) : f.join g = g.join f := by
  rcases f with _ | _ | _ | _ <;> rcases g with _ | _ | _ | _ <;> rfl

theorem join_ne_flag {f : Format} (g : Format) (hf : f ≠ .flag) : f.join g ≠ .flag := by
  rcases f with _ | _ | _ | _ <;> rcases g with _ | _ | _ | _ <;> first | exact absurd rfl hf | exact nofun

theorem join_eq_int64_iff {f g : Format} (hf : f ≠ .flag) (hg : g ≠ .flag) :
    f.join g = .int64 ↔ f = .int64 ∧ g = .int64 := by
  rcases f with _ | _ | _ | _ <;> rcases g with _ | _ | _ | _ <;>
    first | exact absurd rfl hf | exact absurd rfl hg | decide

def kind : Format → Nat
  | flag => 0
  | int64 => 1
  | real _ => 2

def quotients : Format → Precision
  | flag | int64 => .single
  | real p => p

/-- Conversion. Towards integers the fraction is dropped, and what has no integer counterpart goes
to the least integer. -/
def convert : (f g : Format) → f.Elem → g.Elem
  | flag, flag, x => x
  | flag, int64, x => x.toNumber
  | flag, real _, x => x.toNumber
  | int64, flag, x => .ofNumber x
  | real _, flag, x => .ofNumber x
  | int64, int64, x => x
  | int64, real .single, x => Nearest.single x
  | int64, real .double, x => Nearest.double x
  | real p, int64, x => truncate (p.toFloat x)
  | real p, real q, x => p.convert q x
where
  truncate (x : Float) : Int64 :=
    if -9223372036854775808.0 ≤ x && x < 9223372036854775808.0 then x.toModel.toInt64 else Int64.minValue

theorem convert_self (f : Format) (x : f.Elem) : f.convert f x = x := by
  rcases f with _ | _ | _ | _ <;> rfl

/-- The stored form of a number. Only integers refuse some: what is undefined or out of range. -/
def ofFloat? : (f : Format) → Float → Option f.Elem
  | flag, x => some (.ofNumber x)
  | int64, x =>
    if -9223372036854775808.0 ≤ x && x < 9223372036854775808.0 then some x.toModel.toInt64 else none
  | real p, x => some (p.ofFloat x)

variable {f : Format}

instance instZero : Zero f.Elem :=
  match f with
  | flag => inferInstanceAs (Zero Flag)
  | int64 => inferInstanceAs (Zero Int64)
  | real p => inferInstanceAs (Zero p.Elem)

instance instOne : One f.Elem :=
  match f with
  | flag => inferInstanceAs (One Flag)
  | int64 => inferInstanceAs (One Int64)
  | real p => inferInstanceAs (One p.Elem)

instance instAdd : Add f.Elem :=
  match f with
  | flag => inferInstanceAs (Add Flag)
  | int64 => inferInstanceAs (Add Int64)
  | real p => inferInstanceAs (Add p.Elem)

instance instSub : Sub f.Elem :=
  match f with
  | flag => inferInstanceAs (Sub Flag)
  | int64 => inferInstanceAs (Sub Int64)
  | real p => inferInstanceAs (Sub p.Elem)

instance instMul : Mul f.Elem :=
  match f with
  | flag => inferInstanceAs (Mul Flag)
  | int64 => inferInstanceAs (Mul Int64)
  | real p => inferInstanceAs (Mul p.Elem)

instance instNeg : Neg f.Elem :=
  match f with
  | flag => inferInstanceAs (Neg Flag)
  | int64 => inferInstanceAs (Neg Int64)
  | real p => inferInstanceAs (Neg p.Elem)

instance instNatCast : NatCast f.Elem :=
  match f with
  | flag => inferInstanceAs (NatCast Flag)
  | int64 => inferInstanceAs (NatCast Int64)
  | real p => inferInstanceAs (NatCast p.Elem)

instance instBEq : BEq f.Elem :=
  match f with
  | flag => inferInstanceAs (BEq Flag)
  | int64 => inferInstanceAs (BEq Int64)
  | real p => inferInstanceAs (BEq p.Elem)

instance instInhabited : Inhabited f.Elem := ⟨0⟩

def raise : (f : Format) → f.Elem → Nat → f.Elem
  | flag, x, n => if n = 0 then 1 else x
  | int64, x, n => x ^ n
  | real .single, x, n => Float32.pow x (Float32.ofNat n)
  | real .double, x, n => Float.pow x (Float.ofNat n)

/-- The order against a tolerance. All but 64-bit numbers are compared as 32-bit numbers. The
magnitude of the least integer wraps to itself. -/
def within (tol : Float) : (f : Format) → f.Elem → Bool
  | flag, x => (x.toNumber : Float32) ≤ Nearest.narrow tol
  | int64, x => Nearest.single x.abs ≤ Nearest.narrow tol
  | real .single, x => x.abs ≤ Nearest.narrow tol
  | real .double, x => x.abs ≤ tol

@[inherit_doc within]
def exceeds (tol : Float) : (f : Format) → f.Elem → Bool
  | flag, x => Nearest.narrow tol < (x.toNumber : Float32)
  | int64, x => Nearest.narrow tol < Nearest.single x.abs
  | real .single, x => Nearest.narrow tol < x.abs
  | real .double, x => tol < x.abs

end Format

end PolyRoots
