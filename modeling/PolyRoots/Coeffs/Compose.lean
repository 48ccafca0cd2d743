import PolyRoots.Coeffs.Basic

universe u v w

namespace PolyRoots

namespace Coeffs

variable {α : Type u} {β : Type v} {γ : Type w}

def composeLoop [Zero β] [Add β] [Mul β] [Zero γ] [Add γ] (term : α → List β → List γ)
    (u : List β) : List α → List β → List γ → List γ
  | [], _, acc => acc
  | c :: p, power, acc => composeLoop term u p (mul power u) (add acc (term c power))

def composeWith [Zero β] [Add β] [Mul β] [Zero γ] [Add γ] (start : α → γ)
    (term : α → List β → List γ) (p : List α) (u : List β) : List γ :=
  match p with
  | [] => []
  | c :: p => composeLoop term u p u [start c]

def compose [Zero α] [Add α] [Mul α] (p u : List α) : List α := composeWith id scale p u

def composeLength (n m : Nat) : Nat := if n = 0 then 0 else (n - 1) * (m - 1) + 1

theorem length_composeLoop [Zero β] [Add β] [Mul β] [Zero γ] [Add γ]
    {term : α → List β → List γ} (hterm : ∀ c l, (term c l).length = l.length) (u : List β)
    (k : Nat) (p : List α) (power : List β) (acc : List γ)
    (hpower : power.length = if u.length = 0 then 0 else (k + 1) * (u.length - 1) + 1)
    (hacc : acc.length = k * (u.length - 1) + 1) :
    (composeLoop term u p power acc).length = (k + p.length) * (u.length - 1) + 1 := by
  induction p generalizing k power acc with
  | nil => simpa [composeLoop] using hacc
  | cons c p ih =>
    unfold composeLoop
    rw [ih (k + 1)]
    · simp only [List.length_cons]
      congr 2
      omega
    · rw [length_mul, hpower]
      split
      · simp_all
      · rw [Nat.add_mul (k + 1) 1]
        omega
    · rw [length_add, hterm, hpower, hacc]
      split
      · rename_i h
        simp [h]
      · rw [Nat.add_mul k 1]
        omega

theorem length_composeWith [Zero β] [Add β] [Mul β] [Zero γ] [Add γ] (start : α → γ)
    {term : α → List β → List γ} (hterm : ∀ c l, (term c l).length = l.length) (p : List α)
    (u : List β) : (composeWith start term p u).length = composeLength p.length u.length := by
  cases p with
  | nil => rfl
  | cons c p =>
    simp only [composeWith, composeLength, List.length_cons]
    rw [length_composeLoop hterm u 0]
    · simp
    · split
      · assumption
      · omega
    · simp

end Coeffs

end PolyRoots
