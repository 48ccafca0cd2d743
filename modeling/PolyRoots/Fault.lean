namespace PolyRoots

inductive Equation where
  | quadratic
  | cubic
  | quartic
  deriving DecidableEq

inductive SingleOnly where
  | degree
  | leadingCoefficient
  | divmod
  | realRoots
  deriving DecidableEq

inductive Fault where
  | noCoefficients
  | scalarCoefficients
  | emptyCoefficients
  /-- A batch where one polynomial is required; the shape of its coefficients is
  innermost first. -/
  | batched (operation : SingleOnly) (shape : List Nat)
  | repeatedNodes
  | zeroDivisor
  | zeroLeading (equation : Equation)
  | undefinedEnd (a b : Float)
  | negativeOrder (n : Int)
  | negativeExponent (n : Int)
  | wordRange
  | negativeRealExponent (x : Float)
  | negativeDegree (n : Int)
  | lengthRange
  | tooLarge
  | rootDegree (n : Int)
  /-- Interpolation data with more or fewer than one axis; the shapes are innermost first. -/
  | notOneAxis (nodes values : List Nat)
  | noNodes
  | unequalCounts (nodes values : Nat)
  | shapes
  | integerRange
  | noUndefined
  | flagDifference
  | flagCount
  /-- Results of a kind with fractions, be they whole or not, to be stored in place among
  numbers of an earlier kind. -/
  | fractionalDigits
  | notOneNumber
  | ragged
  | tooDeep
  | tooManyAxes
  | notNumeric
  | wrongKind
  | notFunction
  | noEntry
  | zeroDenominator
  | badReference

def storableLength : Nat := 1099511627776

/-- The number of axes up to which a batch can be searched, or summed along an axis. -/
def searchableAxes : Nat := 64

def fitted {α : Type} (o : Option α) : Except Fault α :=
  match o with
  | some a => .ok a
  | none => .error .shapes

end PolyRoots
