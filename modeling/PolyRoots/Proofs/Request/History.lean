import Mathlib.Data.List.Induction
import PolyRoots.Proofs.Fault
import PolyRoots.Request.Script

namespace PolyRoots

abbrev Past := Nat → Except Fault Value

namespace History

/-- Some step of the script has the result `v`. -/
def Yields (h : History) (v : Value) : Prop := ∃ r, .ok r ∈ h ∧ r.value = v

theorem yields_of_value {h : History} {step : Nat} {v : Value} (hv : h.value step = .ok v) : h.Yields v := by
  unfold value at hv
  split at hv
  next r hr =>
    cases hv
    exact ⟨r, List.mem_of_getElem? hr, rfl⟩
  next => cases hv

theorem runScript_concat (ops : List Operation) (op : Operation) :
    runScript (ops ++ [op]) = runScript ops ++ [(runScript ops).next op] := by
  simp [runScript]

theorem next_eq_ok_iff {h : History} {op : Operation} {v : Value} :
    (∃ r, h.next op = .ok r ∧ r.value = v) ↔ op.run h.value = .ok v := by
  unfold next
  cases op.run h.value with
  | error e => exact ⟨nofun, nofun⟩
  | ok w =>
      constructor
      · rintro ⟨_, ⟨⟩, rfl⟩
        rfl
      · rintro ⟨⟩
        exact ⟨_, rfl, rfl⟩

theorem yields_concat {ops : List Operation} {op : Operation} {v : Value} :
    (runScript (ops ++ [op])).Yields v ↔
      (runScript ops).Yields v ∨ op.run (runScript ops).value = .ok v := by
  rw [← next_eq_ok_iff, runScript_concat]
  simp only [Yields, List.mem_append, List.mem_singleton, or_and_right, exists_or, eq_comm]

/-- If an operation on values with the property `P` has a result with this property unless it `Breaks` it,
then all results of a script have it unless some step breaks it. -/
theorem forall_yields_iff {P : Value → Prop} {Breaks : Past → Operation → Prop}
    (hstep : ∀ past op, (∀ i, Gives (past i) P) → (Gives (op.run past) P ↔ ¬ Breaks past op))
    (ops : List Operation) :
    (∀ v, (runScript ops).Yields v → P v) ↔
      ∀ before op, before ++ [op] <+: ops → ¬ Breaks (runScript before).value op := by
  induction ops using List.reverseRecOn with
  | nil =>
      refine iff_of_true ?_ ?_
      · rintro v ⟨r, hr, _⟩
        cases hr
      · intro before op h
        simp at h
  | append_singleton ops last ih =>
      have hvalues : (∀ v, (runScript (ops ++ [last])).Yields v → P v) ↔
          (∀ v, (runScript ops).Yields v → P v) ∧ Gives (last.run (runScript ops).value) P := by
        simp only [yields_concat, or_imp, forall_and]
        rfl
      -- a step before the last one stands in the shorter script, after the same steps
      have hsteps : (∀ before op, before ++ [op] <+: ops ++ [last] →
            ¬ Breaks (runScript before).value op) ↔
          (∀ before op, before ++ [op] <+: ops → ¬ Breaks (runScript before).value op) ∧
            ¬ Breaks (runScript ops).value last := by
        constructor
        · intro h
          exact ⟨fun before op hp => h before op (hp.trans (List.prefix_append _ _)),
            h ops last (List.prefix_refl _)⟩
        · rintro ⟨h, hlast⟩ before op hp
          rcases List.prefix_concat_iff.1 hp with heq | hp
          · obtain ⟨rfl, hop⟩ := List.append_inj' heq rfl
            cases hop
            exact hlast
          · exact h before op hp
      rw [hvalues, hsteps, ← ih]
      refine and_congr_right fun hpast => ?_
      exact hstep _ last fun i v hv => hpast v (yields_of_value hv)

end History

end PolyRoots
