import PolyRoots.Fault

universe u

namespace PolyRoots

/-- Every result of a computation that may fail has the property `P`. -/
def Gives {α : Type u} (x : Except Fault α) (P : α → Prop) : Prop := ∀ a, x = .ok a → P a

namespace Gives

variable {α β : Type u} {x : Except Fault α} {P : α → Prop} {Q : β → Prop}

theorem of_eq (x : Except Fault α) : Gives x (x = .ok ·) := fun _ h => h

theorem ok {a : α} (h : P a) : Gives (.ok a) P := by
  rintro _ ⟨⟩
  exact h

theorem error (e : Fault) : Gives (.error e) P := nofun

theorem bind_iff {f : α → Except Fault β} :
    Gives (x >>= f) Q ↔ ∀ a, x = .ok a → Gives (f a) Q := by
  cases x with
  | error e => exact ⟨fun _ => nofun, fun _ => nofun⟩
  | ok a =>
      constructor
      · rintro h _ ⟨⟩
        exact h
      · exact fun h => h a rfl

theorem bind {f : α → Except Fault β} (hx : Gives x P) (hf : ∀ a, P a → Gives (f a) Q) :
    Gives (x >>= f) Q :=
  bind_iff.2 fun a ha => hf a (hx a ha)

theorem andThen {f : α → Except Fault β} (hf : ∀ a, Gives (f a) Q) : Gives (x >>= f) Q :=
  (of_eq x).bind fun a _ => hf a

theorem map {f : α → β} (hx : Gives x P) (hf : ∀ a, P a → Q (f a)) :
    Gives (x >>= fun a => pure (f a)) Q :=
  hx.bind fun a ha => ok (hf a ha)

theorem ofForm {f : α → β} (hf : ∀ a, Q (f a)) : Gives (x >>= fun a => pure (f a)) Q :=
  andThen fun a => ok (hf a)

theorem ite {c : Prop} [Decidable c] {y : Except Fault α} (hx : c → Gives x P) (hy : ¬ c → Gives y P) :
    Gives (if c then x else y) P := by
  split
  next h => exact hx h
  next h => exact hy h

theorem guarded {c : Prop} [Decidable c] {e : Fault} (h : ¬ c → Gives x P) :
    Gives (if c then .error e else x) P :=
  ite (fun _ => error e) h

theorem fitted {α β : Type} {o : Option α} {f : α → β} {Q : β → Prop} (h : ∀ a, o = some a → Q (f a)) :
    Gives (PolyRoots.fitted o >>= fun a => pure (f a)) Q := by
  cases o with
  | none => exact error _
  | some a => exact ok (h a rfl)

/-- If a computation is one of some special ones, whose results have a property unless they break it, then
its result has the property unless it breaks it so. -/
theorem iff_not_exists {ι κ : Type} {Special Breaks : ι → κ → Prop} {f : ι → κ → Except Fault α}
    (hx : ∀ i k, Special i k → x = f i k) (hf : ∀ i k, Special i k → (Gives (f i k) P ↔ ¬ Breaks i k))
    (hrest : (∀ i k, ¬ Special i k) → Gives x P) :
    Gives x P ↔ ¬ ∃ i k, Special i k ∧ Breaks i k := by
  constructor
  · rintro h ⟨i, k, hs, hb⟩
    exact (hf i k hs).1 (hx i k hs ▸ h) hb
  · intro h
    by_cases hs : ∃ i k, Special i k
    · obtain ⟨i, k, hs⟩ := hs
      rw [hx i k hs]
      exact (hf i k hs).2 fun hb => h ⟨i, k, hs, hb⟩
    · exact hrest fun i k hk => hs ⟨i, k, hk⟩

end Gives

end PolyRoots
