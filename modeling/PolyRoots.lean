import PolyRoots.Proofs.Cplx.Batching
import PolyRoots.Proofs.Cplx.Division
import PolyRoots.Proofs.Cplx.Powers
import PolyRoots.Proofs.Cplx.RootOrder
import PolyRoots.Proofs.Poly.ComplexPoints
import PolyRoots.Proofs.Poly.DivisionFaults
import PolyRoots.Proofs.Poly.Equality
import PolyRoots.Proofs.Poly.Integration
import PolyRoots.Proofs.Poly.Interpolation
import PolyRoots.Proofs.Poly.PowerLaws
import PolyRoots.Proofs.Poly.RootProducts
import PolyRoots.Proofs.Poly.Trimming
import PolyRoots.Proofs.Request.Acceptance
import PolyRoots.Proofs.Request.Precision
import PolyRoots.Proofs.Solve.Bracket
import PolyRoots.Proofs.Solve.CubicComplex
import PolyRoots.Proofs.Solve.CubicOrder
import PolyRoots.Proofs.Solve.Descent
import PolyRoots.Proofs.Solve.Domain
import PolyRoots.Proofs.Solve.Invariance
import PolyRoots.Proofs.Solve.QuadraticReal
import PolyRoots.Proofs.Solve.QuarticReal
import PolyRoots.Proofs.Solve.SameSign
import PolyRoots.Proofs.Solve.Trailing
