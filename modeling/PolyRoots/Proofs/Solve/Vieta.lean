import Mathlib.Algebra.Field.Defs
import Mathlib.Data.Fin.Basic
import Mathlib.Data.List.Nodup
import Mathlib.Tactic.LinearCombination
import PolyRoots.Grid.Row
import PolyRoots.Scalar.Classes

universe u

namespace PolyRoots

namespace Row

variable {α β γ : Type u} {n : Nat}

theorem get_mem (r : Row n α) (k : Fin n) : r.get k ∈ r.toList := List.get_mem _ _

theorem get_injective (r : Row n α) (h : r.toList.Nodup) : Function.Injective r.get :=
  (List.nodup_iff_injective_get.1 h).comp (Fin.cast_injective _)

theorem map_map (f : α → β) (g : β → γ) (r : Row n α) : (r.map f).map g = r.map fun a => g (f a) := by
  apply Row.ext
  intro k
  rw [get_map, get_map, get_map]

end Row

namespace Solve

variable {F : Type u} [Field F]

structure Vieta₂ (a b c : F) (r : Row 2 F) : Prop where
  sum : a * (r.get 0 + r.get 1) = -b
  product : a * (r.get 0 * r.get 1) = c

structure Vieta₃ (a b c d : F) (r : Row 3 F) : Prop where
  sum : a * (r.get 0 + r.get 1 + r.get 2) = -b
  pairs : a * (r.get 0 * r.get 1 + r.get 0 * r.get 2 + r.get 1 * r.get 2) = c
  product : a * (r.get 0 * r.get 1 * r.get 2) = -d

structure Vieta₄ (a b c d e : F) (r : Row 4 F) : Prop where
  sum : a * (r.get 0 + r.get 1 + r.get 2 + r.get 3) = -b
  pairs : a * (r.get 0 * r.get 1 + r.get 0 * r.get 2 + r.get 0 * r.get 3 + r.get 1 * r.get 2 +
    r.get 1 * r.get 3 + r.get 2 * r.get 3) = c
  triples : a * (r.get 0 * r.get 1 * r.get 2 + r.get 0 * r.get 1 * r.get 3 +
    r.get 0 * r.get 2 * r.get 3 + r.get 1 * r.get 2 * r.get 3) = -d
  product : a * (r.get 0 * r.get 1 * r.get 2 * r.get 3) = e

theorem Vieta₂.factor {a b c : F} {r : Row 2 F} (h : Vieta₂ a b c r) (x : F) :
    a * (x - r.get 0) * (x - r.get 1) = a * x ^ 2 + b * x + c := by
  linear_combination -x * h.sum + h.product

theorem Vieta₃.factor {a b c d : F} {r : Row 3 F} (h : Vieta₃ a b c d r) (x : F) :
    a * (x - r.get 0) * (x - r.get 1) * (x - r.get 2) = a * x ^ 3 + b * x ^ 2 + c * x + d := by
  linear_combination -x ^ 2 * h.sum + x * h.pairs - h.product

theorem Vieta₄.factor {a b c d e : F} {r : Row 4 F} (h : Vieta₄ a b c d e r) (x : F) :
    a * (x - r.get 0) * (x - r.get 1) * (x - r.get 2) * (x - r.get 3) =
      a * x ^ 4 + b * x ^ 3 + c * x ^ 2 + d * x + e := by
  linear_combination -x ^ 3 * h.sum + x ^ 2 * h.pairs - x * h.triples + h.product

end Solve

end PolyRoots
