import NgxCpp.Foundation.Exec

/-! The invariants of a program: what holds of the state it starts in and of the
state it leaves behind, whether it returns or throws. One rule for each way to
put programs together. -/

namespace Foundation.Exec

variable {ε σ α β : Type}

def Keeps (Inv : σ → Prop) (x : Exec ε σ α) : Prop :=
  ∀ s, Inv s → ∀ t, (x s).state? = some t → Inv t

namespace Keeps

variable {Inv : σ → Prop} {x y : Exec ε σ α} {f : α → Exec ε σ β}

theorem pure (a : α) : Keeps Inv (Pure.pure a : Exec ε σ α) := by
  intro s holds t left
  obtain rfl := Option.some.inj left
  exact holds

theorem raise (e : ε) : Keeps Inv (Exec.raise e : Exec ε σ α) := by
  intro s holds t left
  obtain rfl := Option.some.inj left
  exact holds

theorem gets (g : σ → α) : Keeps Inv (Exec.gets g : Exec ε σ α) := by
  intro s holds t left
  obtain rfl := Option.some.inj left
  exact holds

theorem modify {g : σ → σ} (kept : ∀ s, Inv s → Inv (g s)) :
    Keeps Inv (Exec.modify g : Exec ε σ Unit) := by
  intro s holds t left
  obtain rfl := Option.some.inj left
  exact kept s holds

theorem deref (g : σ → Option α) : Keeps Inv (Exec.deref g : Exec ε σ α) := by
  intro s holds t left
  unfold Exec.deref at left
  cases found : g s with
  | none => simp [found, Outcome.state?] at left
  | some a =>
    rw [found] at left
    obtain rfl := Option.some.inj left
    exact holds

theorem bind (first : Keeps Inv x) (rest : ∀ a, Keeps Inv (f a)) : Keeps Inv (x >>= f) := by
  intro s holds t left
  rw [bind_apply] at left
  have mid := first s holds
  cases ran : x s with
  | ok a u =>
    rw [ran] at left mid
    exact rest a u (mid u rfl) t left
  | raised e u =>
    rw [ran] at left mid
    exact mid t left
  | undefined => simp [ran, Outcome.state?] at left
  | exhausted => simp [ran, Outcome.state?] at left

theorem catching {handler : ε → Exec ε σ α} (body : Keeps Inv x)
    (handled : ∀ e, Keeps Inv (handler e)) : Keeps Inv (Exec.catching x handler) := by
  intro s holds t left
  unfold Exec.catching at left
  have mid := body s holds
  cases ran : x s with
  | raised e u =>
    rw [ran] at left mid
    exact handled e u (mid u rfl) t left
  | ok a u =>
    rw [ran] at left mid
    exact mid t left
  | undefined => simp [ran, Outcome.state?] at left
  | exhausted => simp [ran, Outcome.state?] at left

theorem ite {c : Prop} [Decidable c] (yes : Keeps Inv x) (no : Keeps Inv y) :
    Keeps Inv (if c then x else y) := by
  split
  · exact yes
  · exact no

theorem each {f : α → Exec ε σ Unit} (kept : ∀ a, Keeps Inv (f a)) (as : List α) :
    Keeps Inv (Exec.each f as) := by
  induction as with
  | nil => exact pure ()
  | cons a as ih => exact bind (kept a) fun _ => ih

theorem zoom {τ : Type} {get : σ → τ} {put : τ → σ → σ} (x : Exec ε τ α)
    (kept : ∀ s t, Inv s → Inv (put t s)) : Keeps Inv (Exec.zoom get put x) := by
  intro s holds t left
  unfold Exec.zoom at left
  cases ran : x (get s) with
  | ok a u =>
    rw [ran] at left
    obtain rfl := Option.some.inj left
    exact kept s u holds
  | raised e u =>
    rw [ran] at left
    obtain rfl := Option.some.inj left
    exact kept s u holds
  | undefined => simp [ran, Outcome.state?] at left
  | exhausted => simp [ran, Outcome.state?] at left

/-- A component with an invariant of its own, which the rest of the state agrees with. -/
theorem zoom_of {τ : Type} {get : σ → τ} {put : τ → σ → σ} {part : τ → Prop} {x : Exec ε τ α}
    (inner : Keeps part x) (seen : ∀ s, Inv s → part (get s))
    (kept : ∀ s t, Inv s → part t → Inv (put t s)) : Keeps Inv (Exec.zoom get put x) := by
  intro s holds t left
  unfold Exec.zoom at left
  have mid := inner (get s) (seen s holds)
  cases ran : x (get s) with
  | ok a u =>
    rw [ran] at left mid
    obtain rfl := Option.some.inj left
    exact kept s u holds (mid u rfl)
  | raised e u =>
    rw [ran] at left mid
    obtain rfl := Option.some.inj left
    exact kept s u holds (mid u rfl)
  | undefined => simp [ran, Outcome.state?] at left
  | exhausted => simp [ran, Outcome.state?] at left

/-- The state after a program, where a program without one changes nothing. -/
theorem getD (kept : Keeps Inv x) {s : σ} (holds : Inv s) : Inv ((x s).state?.getD s) := by
  cases left : (x s).state? with
  | none => exact holds
  | some t => exact kept s holds t left

end Keeps

end Foundation.Exec
