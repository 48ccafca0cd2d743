import PolyRoots.Scalar.Classes

universe u v

namespace PolyRoots

namespace Coeffs

variable {α : Type u} {β : Type v}

def lastIndex? (keep : α → Bool) : List α → Option Nat
  | [] => none
  | c :: p =>
    match lastIndex? keep p with
    | some i => some (i + 1)
    | none => if keep c then some 0 else none

/-- The position of the last non-zero coefficient; the zero polynomial has degree zero. -/
def degree [Zero α] [BEq α] (p : List α) : Nat := (lastIndex? (· != 0) p).getD 0

def leading? [Zero α] [BEq α] (p : List α) : Option α := p[degree p]?

/-- Entry by entry. The shorter list is continued by zeros, and `f` acts on these as well. -/
def padZip [Zero α] (f : α → α → α) : List α → List α → List α
  | [], q => q.map (f 0)
  | a :: p, [] => f a 0 :: p.map (f · 0)
  | a :: p, b :: q => f a b :: padZip f p q

def add [Zero α] [Add α] : List α → List α → List α := padZip (· + ·)

def sub [Zero α] [Sub α] : List α → List α → List α := padZip (· - ·)

def neg [Neg α] (p : List α) : List α := p.map (- ·)

def scale [Mul α] (c : α) (p : List α) : List α := p.map (· * c)

def addFront [Add α] : List α → List α → List α
  | [], _ => []
  | a :: acc, [] => a :: acc
  | a :: acc, b :: row => (a + b) :: addFront acc row

/-- Adds the product of two lists to an accumulator: one row per coefficient of the first list, each
row one place further on. -/
def mulAdd [Add α] [Mul α] (q : List α) : List α → List α → List α
  | [], acc => acc
  | a :: p, acc =>
    match addFront acc (q.map (a * ·)) with
    | [] => []
    | c :: acc => c :: mulAdd q p acc

def mul [Zero α] [Add α] [Mul α] (p q : List α) : List α :=
  mulAdd q p (List.replicate (p.length + q.length - 1) 0)

def mul? [Zero α] [Add α] [Mul α] (p : Option (List α)) (q : List α) : List α :=
  match p with
  | none => q
  | some p => mul p q

def powLoop [Zero α] [Add α] [Mul α] (acc : Option (List α)) (base : List α) (n : Nat) : List α :=
  if n < 2 then mul? acc base
  else powLoop (if n % 2 = 1 then some (mul? acc base) else acc) (mul base base) (n / 2)
termination_by n

def pow [Zero α] [One α] [Add α] [Mul α] (p : List α) (n : Nat) : List α :=
  if n = 0 then [1] else powLoop none p n

def powLength (w n : Nat) : Nat := if n = 0 then 1 else n * w - (n - 1)

theorem lastIndex?_lt {keep : α → Bool} {p : List α} {i : Nat} (h : lastIndex? keep p = some i) :
    i < p.length := by
  induction p generalizing i with
  | nil => cases h
  | cons c p ih =>
    unfold lastIndex? at h
    split at h
    · rename_i j hj
      cases h
      have := ih hj
      simp
      omega
    · split at h <;> cases h
      simp

theorem degree_le_length [Zero α] [BEq α] (p : List α) : degree p ≤ p.length - 1 := by
  unfold degree
  cases h : lastIndex? (· != 0) p with
  | none => simp
  | some i =>
    have := lastIndex?_lt h
    simp
    omega

theorem degree_lt_length_of_pos [Zero α] [BEq α] {p : List α} (h : 0 < degree p) :
    degree p < p.length := by
  have := degree_le_length p
  omega

@[simp]
theorem length_padZip [Zero α] (f : α → α → α) (p q : List α) :
    (padZip f p q).length = max p.length q.length := by
  induction p generalizing q with
  | nil => simp [padZip]
  | cons a p ih => cases q <;> simp [padZip, ih]

@[simp]
theorem length_add [Zero α] [Add α] (p q : List α) :
    (add p q).length = max p.length q.length := length_padZip _ p q

@[simp]
theorem length_sub [Zero α] [Sub α] (p q : List α) :
    (sub p q).length = max p.length q.length := length_padZip _ p q

@[simp]
theorem length_neg [Neg α] (p : List α) : (neg p).length = p.length := List.length_map _

@[simp]
theorem length_scale [Mul α] (c : α) (p : List α) : (scale c p).length = p.length :=
  List.length_map _

@[simp]
theorem length_addFront [Add α] (acc row : List α) : (addFront acc row).length = acc.length := by
  induction acc generalizing row with
  | nil => rfl
  | cons a acc ih => cases row <;> simp [addFront, ih]

@[simp]
theorem length_mulAdd [Add α] [Mul α] (q p acc : List α) :
    (mulAdd q p acc).length = acc.length := by
  induction p generalizing acc with
  | nil => rfl
  | cons a p ih =>
    have h := length_addFront acc (q.map (a * ·))
    unfold mulAdd
    split <;> simp_all

@[simp]
theorem length_mul [Zero α] [Add α] [Mul α] (p q : List α) :
    (mul p q).length = p.length + q.length - 1 := by
  simp [mul]

def surplus (p : Option (List α)) : Nat := (p.map fun l => l.length - 1).getD 0

theorem powLoop_eq_nil [Zero α] [Add α] [Mul α] {acc : Option (List α)} (n : Nat)
    (h : ∀ r ∈ acc, r = []) : powLoop acc ([] : List α) n = [] := by
  have hmul {acc : Option (List α)} (h : ∀ r ∈ acc, r = []) : mul? acc ([] : List α) = [] := by
    cases acc with
    | none => rfl
    | some r => rw [h r rfl]; rfl
  induction n using Nat.strongRecOn generalizing acc with
  | ind n ih =>
    unfold powLoop
    split
    · exact hmul h
    · refine ih (n / 2) (by omega) ?_
      split
      · simp [hmul h]
      · exact h

theorem length_powLoop [Zero α] [Add α] [Mul α] {acc : Option (List α)} {base : List α} {n : Nat}
    (hn : 0 < n) (hbase : 0 < base.length) (hacc : ∀ r ∈ acc, 0 < r.length) :
    (powLoop acc base n).length = surplus acc + n * (base.length - 1) + 1 := by
  have hmul {acc : Option (List α)} {base : List α} (hbase : 0 < base.length)
      (hacc : ∀ r ∈ acc, 0 < r.length) :
      (mul? acc base).length = surplus acc + (base.length - 1) + 1 := by
    cases acc with
    | none => simp [mul?, surplus]; omega
    | some r =>
      have := hacc r rfl
      simp [mul?, surplus]
      omega
  induction n using Nat.strongRecOn generalizing acc base with
  | ind n ih =>
    unfold powLoop
    split
    · have : n = 1 := by omega
      subst this
      rw [hmul hbase hacc]
      omega
    · have hsq : (mul base base).length - 1 = 2 * (base.length - 1) := by simp; omega
      have hdouble : n / 2 * (2 * (base.length - 1)) = 2 * (n / 2) * (base.length - 1) := by
        rw [Nat.mul_comm 2 (n / 2), Nat.mul_assoc]
      rw [ih (n / 2) (by omega) (by omega) (by simp; omega), hsq, hdouble]
      · split
        · rename_i hodd
          have : n = 2 * (n / 2) + 1 := by omega
          have hrhs : n * (base.length - 1) =
              2 * (n / 2) * (base.length - 1) + (base.length - 1) := by
            conv => lhs; rw [this, Nat.add_mul, Nat.one_mul]
          simp only [surplus, Option.map_some, Option.getD_some, hmul hbase hacc]
          omega
        · rename_i heven
          have : n = 2 * (n / 2) := by omega
          rw [← this]
      · intro r hr
        split at hr
        · cases hr
          rw [hmul hbase hacc]
          omega
        · exact hacc r hr

theorem length_pow [Zero α] [One α] [Add α] [Mul α] (p : List α) (n : Nat) :
    (pow p n).length = powLength p.length n := by
  unfold pow powLength
  split
  · rfl
  · rename_i hn
    cases p with
    | nil => simp [powLoop_eq_nil]
    | cons a p =>
      rw [length_powLoop (by omega) (by simp) (by simp)]
      simp only [surplus, List.length_cons, Option.map_none, Option.getD_none, Nat.mul_add,
        Nat.add_sub_cancel]
      omega

end Coeffs

end PolyRoots
