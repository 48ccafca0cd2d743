import PolyRoots.Scalar.Classes

universe u

namespace PolyRoots

namespace Solve

variable {α : Type u}

/-- The outcome of a search, with the points at which the function and its slope were asked for. A
search is unsettled if its steps ran out. -/
structure Search (α : Type u) where
  root : Option α
  evals : List α
  slopes : List α
  settled : Bool

namespace Search

def early (root : Option α) (evals : List α) : Search α := ⟨root, evals, [], true⟩

def after (evals slopes : List α) (s : Search α) : Search α :=
  { s with evals := evals ++ s.evals, slopes := slopes ++ s.slopes }

end Search

section Steps

variable [Zero α] [Sub α] [Neg α] [Div α] [BEq α] [LT α] [DecidableLT α]

/-- At most the given number of Newton steps from `x`, where the function has the value `y`. -/
def newtonSteps (f df : α → α) : Nat → α → α → Search α
  | 0, x, _ => ⟨some x, [], [], false⟩
  | n + 1, x, y =>
    let slope := df x
    if slope == 0 then ⟨some x, [], [x], true⟩
    else
      let x' := x - y / slope
      let y' := f x'
      if magnitude y' < magnitude y then (newtonSteps f df n x' y').after [x'] [x]
      else ⟨some x, [x'], [x], true⟩

end Steps

variable [Zero α] [One α] [Add α] [Sub α] [Neg α] [Mul α] [Div α] [NatCast α] [BEq α] [LT α]
  [DecidableLT α] [Extended α]

/-- The start of a search: the middle of the interval, or a point near the finite end. -/
def seed (a b : α) : α :=
  if a == -Extended.infinity then (if b < 1 then b else 1) - 1
  else if b == Extended.infinity then (if -1 < a then a else -1) + 1
  else (a + b) / 2

/-- Searches `[a, b]` for a zero of `f`, whose slope is `df`. A zero at an end is found at once;
without a change of sign there is nothing to find. -/
def search (f df : α → α) (a b : α) (maxiter : Nat) : Search α :=
  if b < a then .early none []
  else if f a == 0 then .early (some a) [a]
  else if a == b then .early none [a]
  else if f b == 0 then .early (some b) [a, b]
  else if 0 < f a * f b then .early none [a, b]
  else
    let x := seed a b
    (newtonSteps f df maxiter x (f x)).after [a, b, x] []

def defaultSteps : Nat := 200

end Solve

end PolyRoots
