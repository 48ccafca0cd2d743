import PolyRoots.Scalar.Classes

universe u v

namespace PolyRoots

@[ext]
structure Cplx (α : Type u) where
  re : α
  im : α

namespace Cplx

variable {α : Type u} {β : Type v}

def ofReal [Zero α] (x : α) : Cplx α := ⟨x, 0⟩

def map (f : α → β) (z : Cplx α) : Cplx β := ⟨f z.re, f z.im⟩

instance instAdd [Add α] : Add (Cplx α) := ⟨fun z w => ⟨z.re + w.re, z.im + w.im⟩⟩

instance instSub [Sub α] : Sub (Cplx α) := ⟨fun z w => ⟨z.re - w.re, z.im - w.im⟩⟩

instance instMul [Add α] [Sub α] [Mul α] : Mul (Cplx α) :=
  ⟨fun z w => ⟨z.re * w.re - z.im * w.im, z.re * w.im + z.im * w.re⟩⟩

instance instNeg [Neg α] : Neg (Cplx α) := ⟨fun z => ⟨-z.re, -z.im⟩⟩

def normSq [Add α] [Mul α] (z : Cplx α) : α := z.re * z.re + z.im * z.im

def divBy [Add α] [Sub α] [Mul α] [Div α] (z w : Cplx α) (d : α) : Cplx α :=
  ⟨(z.re * w.re + z.im * w.im) / d, (z.im * w.re - z.re * w.im) / d⟩

instance instDiv [Add α] [Sub α] [Mul α] [Div α] : Div (Cplx α) :=
  ⟨fun z w => divBy z w w.normSq⟩

def divReal [Div α] (z : Cplx α) (x : α) : Cplx α := ⟨z.re / x, z.im / x⟩

def abs [Add α] [Mul α] [Elementary α] (z : Cplx α) : α := Elementary.sqrt z.normSq

instance instBEq [BEq α] : BEq (Cplx α) := ⟨fun z w => z.re == w.re && z.im == w.im⟩

def isNaN [Extended α] (z : Cplx α) : Bool := Extended.isNaN z.re || Extended.isNaN z.im

def isReal [Zero α] [BEq α] (z : Cplx α) : Bool := z.im == 0

/-- The value of a polynomial with real coefficients, by Horner's rule. The leading coefficient
starts the sum, so a constant does not depend on `z`. -/
def evaluate [Zero α] [Add α] [Sub α] [Mul α] (z : Cplx α) : List α → Cplx α
  | [] => ofReal 0
  | [a] => ofReal a
  | a :: p => evaluate z p * z + ofReal a

end Cplx

end PolyRoots
