import PolyRoots.Poly.Division
import PolyRoots.Proofs.Coeffs.Trailing
import PolyRoots.Proofs.Poly.RowCompose
import PolyRoots.Proofs.Scalar.Conversion

universe u v w

namespace PolyRoots

namespace Batch

variable {α α' : Type u} {β β' : Type v} {γ : Type w}

theorem zipWith?_map {f : α → β → γ} {f' : α' → β' → γ} {g : α → α'} {k : β → β'}
    (h : ∀ x y, f' (g x) (k y) = f x y) (a : Batch α) (b : Batch β) :
    zipWith? f' (a.map g) (b.map k) = zipWith? f a b := by
  cases hj : a.shape.join b.shape with
  | none =>
      have hnone {α β : Type _} (f : α → β → γ) (a : Batch α) (b : Batch β)
          (hj : a.shape.join b.shape = none) : zipWith? f a b = none := by
        rw [← Option.not_isSome_iff_eq_none, zipWith?_isSome_iff, hj]
        exact Bool.false_ne_true
      rw [hnone f a b hj, hnone f' (a.map g) (b.map k) hj]
  | some s =>
      rw [zipWith?_of_join f a b hj, zipWith?_of_join f' (a.map g) (b.map k) hj]
      refine congrArg (fun c => some (Batch.mk s c)) (Grid.ext fun i => ?_)
      rw [Grid.get_ofFn, Grid.get_ofFn, ← h]
      exact congrArg₂ f' (get_map g a _) (get_map k b _)

theorem zipWith?_single_congr {f : α → β → γ} {a a' : α} (h : ∀ y, f a y = f a' y) (b : Batch β) :
    zipWith? f (.single a) b = zipWith? f (.single a') b := by
  have hjoin (a : α) : (single a).shape.join b.shape = some b.shape := by
    cases hb : b.shape <;> rfl
  rw [zipWith?_of_join f _ b (hjoin a), zipWith?_of_join f _ b (hjoin a')]
  refine congrArg (fun c => some (Batch.mk b.shape c)) (Grid.ext fun i => ?_)
  rw [Grid.get_ofFn, Grid.get_ofFn]
  exact h _

end Batch

namespace Poly

def inFormat (p : Poly) (f : Format) : Poly := ⟨f, p.cast f⟩

/-- An operation on two polynomials gives what it gives for both of them in their common format. -/
def Coherent {α : Type} (op : Poly → Poly → Except Fault α) (p q : Poly) : Prop :=
  op (p.inFormat (p.format.join q.format)) (q.inFormat (p.format.join q.format)) = op p q

theorem cast_inFormat (p : Poly) (f : Format) : (p.inFormat f).cast f = p.cast f :=
  cast_self (p.inFormat f)

theorem combine_coherent
    (op : {f : Format} → PolyBatch f.Elem → PolyBatch f.Elem → Option (PolyBatch f.Elem))
    (p q : Poly) : Coherent (combine op) p q := by
  have hformat (f g : Format) (hg : g = f) :
      (fitted (op ((p.inFormat f).cast g) ((q.inFormat f).cast g)) >>= fun b => pure (Poly.mk g b)) =
        fitted (op (p.cast f) (q.cast f)) >>= fun b => pure ⟨f, b⟩ := by
    subst hg
    rw [cast_inFormat, cast_inFormat]
  exact hformat _ _ (Format.join_self _)

theorem add_coherent (p q : Poly) : Coherent add p q := combine_coherent _ p q

theorem sub_coherent (p q : Poly) : Coherent sub p q := by
  have hformat (f g : Format) (hg : g = f) : needsNumbers g .flagDifference = needsNumbers f .flagDifference :=
    congrArg (needsNumbers · _) hg
  exact congrArg₂ (fun check r => check >>= fun _ => r) (hformat _ _ (Format.join_self _))
    (combine_coherent PolyBatch.sub? p q)

theorem mul_coherent (p q : Poly) : Coherent mul p q := by
  have hwidth : p.body.width + q.body.width = (p.inFormat (p.format.join q.format)).body.width +
      (q.inFormat (p.format.join q.format)).body.width := rfl
  rw [Coherent, mul, mul, ← hwidth]
  split
  · rfl
  · exact combine_coherent _ p q

section Division

theorem single_inFormat (operation : SingleOnly) (p : Poly) (f : Format) :
    (p.inFormat f).single operation = (p.single operation).map (List.map (p.format.convert f)) := by
  obtain ⟨g, w, s, rows⟩ := p
  cases s <;> rfl

theorem degree_map_convert {f g : Format} (h : f.join g = g) (l : List f.Elem) :
    Coeffs.degree (l.map (f.convert g)) = Coeffs.degree l :=
  Coeffs.degree_map (Format.convert_beq_zero_of_join h) l

/-- Conversion to the common format keeps the degrees, so it makes no difference that they are taken
before it. -/
theorem divMod_coherent (p q : Poly) : Coherent divMod p q := by
  have hformat (f g : Format) (hg : g = f) (m n : Nat) (a b : List f.Elem) :
      divModIn g m n (a.map (f.convert g)) (b.map (f.convert g)) = divModIn f m n a b := by
    subst hg
    rw [map_convert_self, map_convert_self]
  rw [Coherent, divMod, divMod, single_inFormat, single_inFormat]
  cases p.single .divmod with
  | error e => rfl
  | ok a =>
      cases q.single .divmod with
      | error e => rfl
      | ok b =>
          have hp := degree_map_convert (Format.join_join_left p.format q.format) a
          have hq := degree_map_convert (Format.join_join_right p.format q.format) b
          refine (hformat _ _ (Format.join_self _) _ _ _ _).trans ?_
          exact congrArg₂ (divModIn _ · · _ _) hp hq

end Division

section Composition

def RowCoherent (p u : Poly) (h : Format) : Prop :=
  ∀ (l : Row p.body.width p.format.Elem) (t : Row u.body.width u.format.Elem),
    Coeffs.composeWith (h.convert h) (composeTerm p.body.rows.hasAxes h h h)
        (l.toList.map (p.format.convert h)) (t.toList.map (u.format.convert h)) =
      Coeffs.composeWith (p.format.convert h) (composeTerm p.body.rows.hasAxes p.format u.format h)
        l.toList t.toList

theorem composed_coherent {p u : Poly} {h : Format} (hrow : RowCoherent p u h) :
    composed h (p.inFormat h) (u.inFormat h) = composed h p u := by
  have hbody : PolyBatch.lift₂? (Coeffs.composeWith (h.convert h) (composeTerm p.body.rows.hasAxes h h h))
      (Coeffs.length_composeWith _ (length_composeTerm _ _ _ _)) (p.cast h) (u.cast h) =
        PolyBatch.lift₂? (Coeffs.composeWith (p.format.convert h)
          (composeTerm p.body.rows.hasAxes p.format u.format h))
          (Coeffs.length_composeWith _ (length_composeTerm _ _ _ _)) p.body u.body :=
    congrArg (Option.map _) (Batch.zipWith?_map (fun l t => Subtype.ext (hrow l t)) _ _)
  exact congrArg (fun b => fitted b >>= fun b => pure (Poly.mk h b)) hbody

theorem inFormat_self {p : Poly} {f : Format} (h : p.format = f) : p.inFormat f = p := by
  subst h
  exact congrArg (Poly.mk p.format) (cast_self p)

theorem compose_coherent {p u : Poly} (hrow : RowCoherent p u (p.format.join u.format))
    (hconst : p.body.width = 1 → p.format = p.format.join u.format) : Coherent compose p u := by
  generalize hf : p.format.join u.format = f at hrow hconst
  have hjoin : (p.inFormat f).format.join (u.inFormat f).format = f := Format.join_self f
  have hempty : (p.inFormat f).body.isEmpty = p.body.isEmpty := rfl
  have hwidth : (p.inFormat f).body.width = p.body.width := rfl
  have hwidth' : (u.inFormat f).body.width = u.body.width := rfl
  rw [Coherent, hf, compose_eq, compose_eq, hf, hjoin, hempty, hwidth, hwidth', composed_coherent hrow]
  by_cases hone : p.body.width = 1
  · rw [inFormat_self (hconst hone)]
  · rw [if_neg hone, if_neg hone]

theorem composeLoop_map {α β β' γ : Type} [Zero α] [Add α] [Mul α] [Zero γ] [Add γ]
    {term : β → List α → List γ} {term' : β' → List α → List γ} {f : β → β'}
    (h : ∀ c power, term' (f c) power = term c power) (u : List α) (l : List β) (power : List α)
    (acc : List γ) :
    Coeffs.composeLoop term' u (l.map f) power acc = Coeffs.composeLoop term u l power acc := by
  induction l generalizing power acc with
  | nil => rfl
  | cons c l ih => rw [List.map_cons, Coeffs.composeLoop, h, ih, Coeffs.composeLoop]

theorem rowCoherent_of_inner {p u : Poly} {h : Format} (hu : u.format = h) : RowCoherent p u h := by
  subst hu
  intro l t
  have hterm (c : p.format.Elem) (power : List u.format.Elem) :
      composeTerm p.body.rows.hasAxes u.format u.format u.format (p.format.convert u.format c) power =
        composeTerm p.body.rows.hasAxes p.format u.format u.format c power := by
    simp only [composeTerm, Format.convert_self]
  rw [map_convert_self]
  cases l.toList with
  | nil => rfl
  | cons c l =>
      rw [List.map_cons, Coeffs.composeWith, composeLoop_map hterm, Format.convert_self,
        Coeffs.composeWith]

theorem rowCoherent_of_constant {p u : Poly} {h : Format} (hwidth : p.body.width ≤ 1) :
    RowCoherent p u h := by
  intro l t
  have hlength : l.toList.length ≤ 1 := l.length_toList.symm ▸ hwidth
  match l.toList, hlength with
  | [], _ => rfl
  | [c], _ => exact congrArg (fun c => [c]) (Format.convert_self h _)

/-- With two coefficients no power of the inner polynomial is multiplied, so a batch of such polynomials
multiplies in the common format only. -/
theorem rowCoherent_of_linear {p u : Poly} {h : Format} (hbatch : p.body.rows.hasAxes = true)
    (hwidth : p.body.width = 2) : RowCoherent p u h := by
  intro l t
  have hterm (c : p.format.Elem) :
      composeTerm true h h h (p.format.convert h c) (t.toList.map (u.format.convert h)) =
        composeTerm true p.format u.format h c t.toList := by
    simp only [composeTerm, Format.convert_self, map_convert_self, if_pos]
  have hlength : l.toList.length = 2 := l.length_toList.trans hwidth
  rw [hbatch]
  match l.toList, hlength with
  | [c, d], _ =>
      simp only [List.map_cons, List.map_nil, Coeffs.composeWith, Coeffs.composeLoop, hterm,
        Format.convert_self]

/-- The compositions that are taken in the common format throughout. -/
structure Composable (p u : Poly) : Prop where
  inner : u.format = p.format.join u.format ∨ p.body.width ≤ 1 ∨
    p.body.rows.hasAxes = true ∧ p.body.width = 2
  constant : p.body.width = 1 → p.format = p.format.join u.format

theorem Composable.rowCoherent {p u : Poly} (h : Composable p u) :
    RowCoherent p u (p.format.join u.format) := by
  obtain hinner | hconst | ⟨hbatch, hlinear⟩ := h.inner
  · exact rowCoherent_of_inner hinner
  · exact rowCoherent_of_constant hconst
  · exact rowCoherent_of_linear hbatch hlinear

theorem composeWith_single_congr {f g h : Format} {l l' : List f.Elem} (hhead : l.head? = l'.head?)
    (htail : l.tail.map (f.convert g) = l'.tail.map (f.convert g)) (t : List g.Elem) :
    Coeffs.composeWith (f.convert h) (composeTerm false f g h) l t =
      Coeffs.composeWith (f.convert h) (composeTerm false f g h) l' t := by
  have hterm (c : f.Elem) (power : List g.Elem) :
      composeTerm false g g h (f.convert g c) power = composeTerm false f g h c power := by
    simp only [composeTerm, Format.convert_self, Bool.false_eq_true, if_false]
  cases l with
  | nil => rw [List.head?_eq_none_iff.1 hhead.symm]
  | cons c l =>
      obtain ⟨l', rfl⟩ := List.head?_eq_some_iff.1 hhead.symm
      rw [List.tail_cons, List.tail_cons] at htail
      rw [Coeffs.composeWith, Coeffs.composeWith, ← composeLoop_map hterm, htail, composeLoop_map hterm]

theorem compose_single_congr {f : Format} {w : Nat} {r r' : Row w f.Elem} (u : Poly)
    (hhead : r.toList.head? = r'.toList.head?)
    (htail : r.toList.tail.map (f.convert u.format) = r'.toList.tail.map (f.convert u.format)) :
    compose ⟨f, w, .single r⟩ u = compose ⟨f, w, .single r'⟩ u := by
  let solve := Row.lift₂ (m := w) (n := u.body.width) _ (Coeffs.length_composeWith (f.convert (f.join u.format))
    (length_composeTerm false f u.format (f.join u.format)))
  have hbody : Batch.zipWith? solve (.single r) u.body.rows = Batch.zipWith? solve (.single r') u.body.rows :=
    Batch.zipWith?_single_congr
      (fun t => Subtype.ext (composeWith_single_congr hhead htail t.toList)) u.body.rows
  have hcomposed : composed (f.join u.format) ⟨f, w, .single r⟩ u =
      composed (f.join u.format) ⟨f, w, .single r'⟩ u :=
    congrArg (fun b => fitted (Option.map (PolyBatch.mk (Coeffs.composeLength w u.body.width)) b) >>= fun b =>
      pure (Poly.mk (f.join u.format) b)) hbody
  by_cases hw : w = 1
  · -- a constant is returned as it is
    subst hw
    obtain ⟨c, hc⟩ := List.length_eq_one_iff.1 r.length_toList
    obtain ⟨c', hc'⟩ := List.length_eq_one_iff.1 r'.length_toList
    rw [hc, hc'] at hhead
    have heq : r = r' := Subtype.ext (hc.trans ((Option.some.inj hhead).symm ▸ hc'.symm))
    rw [heq]
  · rw [compose_eq, compose_eq, hcomposed, if_neg hw, if_neg hw]
    rfl

end Composition

/-- Sums, differences, products and quotients may be taken after converting both operands to their common
format, and so may compositions that are computed in that format throughout. -/
theorem promotion_coherent (p q : Poly) : Coherent add p q ∧ Coherent sub p q ∧ Coherent mul p q ∧
    Coherent divMod p q ∧ (Composable p q → Coherent compose p q) :=
  ⟨add_coherent p q, sub_coherent p q, mul_coherent p q, divMod_coherent p q,
    fun h => compose_coherent h.rowCoherent h.constant⟩

theorem promotion_coherent_integers :
    Composable (ofList .int64 [1, 2, 3]) (ofList (.real .double) [0.5, 1]) ∧
      Coherent compose (ofList .int64 [1, 2, 3]) (ofList (.real .double) [0.5, 1]) := by
  have h : Composable (ofList .int64 [1, 2, 3]) (ofList (.real .double) [0.5, 1]) :=
    ⟨.inl rfl, fun h => absurd h (by decide)⟩
  exact ⟨h, (promotion_coherent _ _).2.2.2.2 h⟩

/-- A coefficient is cut to an integer by the powers it goes with, and a constant keeps its own format. -/
theorem compose_incoherent :
    let p := ofList (.real .double) [0.5, 0.5]
    let u := ofList .int64 [0, 1]
    compose p u = .ok (ofList (.real .double) [0.5, 0]) ∧ ¬Coherent compose p u ∧
      ¬Coherent compose (ofList .int64 [3]) (ofList (.real .double) [0.5, 1]) := by
  intro p u
  have hzero : (Format.real .double).convert .int64 (0.5 : Float) = (Format.real .double).convert .int64 (0 : Float) := by
    decide +kernel
  have hcut : compose p u = compose (ofList (.real .double) [0.5, 0]) u :=
    compose_single_congr u rfl (congrArg (fun c => [c]) hzero)
  have hvalue : Coeffs.composeWith id (composeTerm false (.real .double) .int64 (.real .double)) [0.5, 0] [0, 1] =
      ([0.5, 0] : List Float) := by
    decide +kernel
  have hcomposed : compose p u = .ok (ofList (.real .double) [0.5, 0]) := by
    refine hcut.trans ((compose_ofList Nat.le.refl (List.cons_ne_nil 0 [1])).trans ?_)
    exact congrArg (fun l => Except.ok (ofList (.real .double) l)) hvalue
  refine ⟨hcomposed, fun h => ?_, fun h => ?_⟩
  · -- in the common format the degree stays
    let t : List Float := [0, 1].map (Format.int64.convert (.real .double))
    have hdegree : Coeffs.degree (Coeffs.composeWith id
        (composeTerm false (.real .double) (.real .double) (.real .double)) [0.5, 0.5] t) = 1 := by
      decide +kernel
    have hcommon : compose p (ofList (.real .double) t) = _ :=
      compose_ofList (f := .real .double) (g := .real .double) Nat.le.refl (List.cons_ne_nil _ _)
    have hsame := congrArg (· >>= Poly.degree) (hcommon.symm.trans (h.trans hcomposed))
    have hdegrees := (congrArg Except.ok hdegree).symm.trans hsame
    cases hdegrees
  · have hformat := congrArg (Except.map Poly.format) h
    exact absurd (Except.ok.inj hformat) (by decide)

end Poly

end PolyRoots
