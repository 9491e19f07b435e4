import NgxCpp.Foundation.Exec

/-! Where a program throws. What a caller of it sees of an exception is whether one gets
out: one rule for each way to put programs together, exact where the parts are. -/

namespace Foundation

variable {ε σ τ α β : Type}

def Outcome.Thrown : Outcome ε σ α → Prop
  | raised _ _ => True
  | _ => False

instance : (o : Outcome ε σ α) → Decidable o.Thrown
  | .ok _ _ => inferInstanceAs (Decidable False)
  | .raised _ _ => inferInstanceAs (Decidable True)
  | .undefined => inferInstanceAs (Decidable False)
  | .exhausted => inferInstanceAs (Decidable False)

namespace Outcome

@[simp] theorem thrown_ok (a : α) (s : σ) : ¬ (ok a s : Outcome ε σ α).Thrown := id

@[simp] theorem thrown_raised (e : ε) (s : σ) : (raised e s : Outcome ε σ α).Thrown := trivial

@[simp] theorem thrown_undefined : ¬ (undefined : Outcome ε σ α).Thrown := id

@[simp] theorem thrown_exhausted : ¬ (exhausted : Outcome ε σ α).Thrown := id

end Outcome

namespace Exec

def Throws (x : Exec ε σ α) (s : σ) : Prop := (x s).Thrown

instance (x : Exec ε σ α) (s : σ) : Decidable (x.Throws s) :=
  inferInstanceAs (Decidable (x s).Thrown)

def NoThrow (x : Exec ε σ α) : Prop := ∀ s, ¬ x.Throws s

section Throws

variable {x y : Exec ε σ α} {f : α → Exec ε σ β} {s t : σ}

theorem throws_bind : (x >>= f).Throws s ↔
    x.Throws s ∨ ∃ a t, x s = .ok a t ∧ (f a).Throws t := by
  unfold Throws
  rw [bind_apply]
  cases x s <;> simp [and_assoc]

theorem throws_bind_ok {a : α} (first : x s = .ok a t) :
    (x >>= f).Throws s ↔ (f a).Throws t := by
  rw [Throws, bind_ok _ first, Throws]

theorem throws_bind_noThrow (rest : ∀ a, NoThrow (f a)) : (x >>= f).Throws s ↔ x.Throws s := by
  rw [throws_bind]
  exact or_iff_left fun ⟨a, t, _, thrown⟩ => rest a t thrown

theorem throws_zoom {get : τ → σ} {put : σ → τ → τ} {t : τ} :
    (zoom get put x).Throws t ↔ x.Throws (get t) := by
  unfold Throws zoom
  cases x (get t) <;> simp

theorem throws_catching {handler : ε → Exec ε σ α} : (catching x handler).Throws s ↔
    ∃ e t, x s = .raised e t ∧ (handler e).Throws t := by
  unfold Throws catching
  cases x s <;> simp [and_assoc]

end Throws

namespace NoThrow

variable {x y : Exec ε σ α} {f : α → Exec ε σ β}

theorem pure (a : α) : NoThrow (Pure.pure a : Exec ε σ α) := fun _ thrown => thrown

theorem gets (g : σ → α) : NoThrow (Exec.gets g : Exec ε σ α) := fun _ thrown => thrown

theorem modify (g : σ → σ) : NoThrow (Exec.modify g : Exec ε σ Unit) := fun _ thrown => thrown

theorem deref (g : σ → Option α) : NoThrow (Exec.deref g : Exec ε σ α) := by
  intro s thrown
  unfold Throws Exec.deref at thrown
  cases found : g s <;> rw [found] at thrown <;> exact thrown

theorem undefined : NoThrow (Exec.undefined : Exec ε σ α) := fun _ thrown => thrown

theorem exhausted : NoThrow (Exec.exhausted : Exec ε σ α) := fun _ thrown => thrown

theorem bind (first : NoThrow x) (rest : ∀ a, NoThrow (f a)) : NoThrow (x >>= f) :=
  fun s thrown => first s ((throws_bind_noThrow rest).mp thrown)

theorem ite {c : Prop} [Decidable c] (yes : NoThrow x) (no : NoThrow y) :
    NoThrow (if c then x else y) := by
  split
  · exact yes
  · exact no

theorem catching {handler : ε → Exec ε σ α} (handled : ∀ e, NoThrow (handler e)) :
    NoThrow (Exec.catching x handler) := by
  intro s thrown
  obtain ⟨e, t, -, escaped⟩ := throws_catching.mp thrown
  exact handled e t escaped

theorem zoom {get : τ → σ} {put : σ → τ → τ} (inner : NoThrow x) :
    NoThrow (Exec.zoom get put x) :=
  fun _ thrown => inner _ (throws_zoom.mp thrown)

end NoThrow

end Exec

end Foundation
