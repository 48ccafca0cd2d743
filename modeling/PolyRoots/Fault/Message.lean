import PolyRoots.Decimal.Shortest
import PolyRoots.Fault

namespace PolyRoots

def shapeText (s : List Nat) : String :=
  match s.reverse with
  | [] => "()"
  | [n] => "(" ++ toString n ++ ",)"
  | dims => "(" ++ String.intercalate ", " (dims.map toString) ++ ")"

def intervalText (a b : Float) : String :=
  "[" ++ Decimal.shortest a ++ ", " ++ Decimal.shortest b ++ "]"

def Equation.name : Equation → String
  | quadratic => "quadratic"
  | cubic => "cubic"
  | quartic => "quartic"

def SingleOnly.name : SingleOnly → String
  | degree => "polynomial_degree"
  | leadingCoefficient => "polynomial_leading_coefficient"
  | divmod => "polynomial_divmod"
  | realRoots => "polynomial_real_roots"

def unsettledText (a b : Float) (maxiter : Int) : String :=
  "safeguarded_newton did not settle within " ++ toString maxiter ++ " iterations on " ++
    intervalText a b

def Fault.message? : Fault → Option String
  | noCoefficients => some "Polynomial coefficients must not be None"
  | scalarCoefficients => some "Polynomial coefficients must have at least one dimension"
  | emptyCoefficients => some "Polynomial must have at least one coefficient"
  | batched operation shape => some <|
    operation.name ++ " requires a single polynomial with 1-D coefficients, got shape " ++
      shapeText shape
  | repeatedNodes => some "Interpolation nodes must be distinct"
  | zeroDivisor => some "Cannot divide by zero polynomial"
  | zeroLeading equation => some <|
    "Leading coefficient of a " ++ equation.name ++ " must be non-zero"
  | undefinedEnd a b => some <|
    "safeguarded_newton endpoints must not be NaN, got " ++ intervalText a b
  | negativeOrder n => some <| "Derivative order must be non-negative, got " ++ toString n
  | negativeExponent n => some <| "Exponent must be non-negative, got " ++ toString n
  | negativeRealExponent x => some <|
    "Exponent must be non-negative, got " ++ Decimal.shortest x
  | negativeDegree n => some <| "Monomial degree must be non-negative, got " ++ toString n
  | rootDegree n => some <| "Root degree must be at least 1, got " ++ toString n
  | notOneAxis nodes values => some <|
    "Interpolation nodes and values must be 1-D, got shapes " ++ shapeText nodes ++ " and " ++
      shapeText values
  | noNodes => some "At least one interpolation point is required"
  | unequalCounts nodes values => some <|
    "Got " ++ toString nodes ++ " nodes but " ++ toString values ++ " values"
  | wordRange | lengthRange | tooLarge | shapes | integerRange | noUndefined | flagDifference
  | flagCount | fractionalDigits | notOneNumber | ragged | tooDeep | tooManyAxes | notNumeric
  | wrongKind | notFunction | noEntry | zeroDenominator | badReference => none

end PolyRoots
