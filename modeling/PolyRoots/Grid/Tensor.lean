import PolyRoots.Grid.Batch
import PolyRoots.Scalar.Format

namespace PolyRoots

structure Tensor where
  format : Format
  cells : Batch format.Elem

namespace Tensor

def shape (t : Tensor) : Shape := t.cells.shape

def cast (t : Tensor) (f : Format) : Batch f.Elem := t.cells.map (t.format.convert f)

def ofReal {p : Precision} (b : Batch p.Elem) : Tensor := ⟨.real p, b⟩

def ofMask (b : Batch Bool) : Tensor := ⟨.flag, b.map Flag.mk⟩

def ofFloats (l : List Float) : Tensor := ⟨.real .double, .ofList l⟩

end Tensor

end PolyRoots
