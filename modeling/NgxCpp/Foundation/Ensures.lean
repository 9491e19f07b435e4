import NgxCpp.Foundation.Throws

/-! Pre- and postconditions of programs: what holds when one returns, of its value and of
the state it leaves, and what holds when it throws. A program that meets undefined
behaviour ensures anything, but it does not end. One rule for each way to put programs
together. -/

namespace Foundation.Exec

variable {ε σ τ α β : Type}

def Leads (stuck : Prop) (x : Exec ε σ α) (s : σ) (P : α → σ → Prop) (E : ε → σ → Prop) : Prop :=
  match x s with
  | .ok a t => P a t
  | .raised e t => E e t
  | _ => stuck

abbrev Ensures (x : Exec ε σ α) (s : σ) (P : α → σ → Prop) (E : ε → σ → Prop) : Prop :=
  Leads True x s P E

abbrev Ends (x : Exec ε σ α) (s : σ) (P : α → σ → Prop) (E : ε → σ → Prop) : Prop :=
  Leads False x s P E

namespace Leads

variable {stuck : Prop} {x : Exec ε σ α} {f : α → Exec ε σ β} {s t : σ} {a : α} {e : ε}
  {P : α → σ → Prop} {Q : β → σ → Prop} {E : ε → σ → Prop}

theorem ok (leads : Leads stuck x s P E) (returned : x s = .ok a t) : P a t := by
  rwa [Leads, returned] at leads

theorem raised (leads : Leads stuck x s P E) (threw : x s = .raised e t) : E e t := by
  rwa [Leads, threw] at leads

theorem of_ok (returned : x s = .ok a t) (holds : P a t) : Leads stuck x s P E := by
  rwa [Leads, returned]

theorem of_raised (threw : x s = .raised e t) (holds : E e t) : Leads stuck x s P E := by
  rwa [Leads, threw]

theorem of_undefined (ran : x s = .undefined) (holds : stuck) : Leads stuck x s P E := by
  rwa [Leads, ran]

theorem pure (holds : P a s) : Leads stuck (Pure.pure a : Exec ε σ α) s P E := holds

theorem raise (holds : E e s) : Leads stuck (Exec.raise e : Exec ε σ α) s P E := holds

theorem modify {g : σ → σ} {P : Unit → σ → Prop} (holds : P () (g s)) :
    Leads stuck (Exec.modify g : Exec ε σ Unit) s P E := holds

theorem bind (first : Leads stuck x s P E) (rest : ∀ a t, P a t → Leads stuck (f a) t Q E) :
    Leads stuck (x >>= f) s Q E := by
  rw [Leads] at first ⊢
  rw [bind_apply]
  cases ran : x s with
  | ok a t =>
    rw [ran] at first
    exact rest a t first
  | raised e t =>
    rw [ran] at first
    exact first
  | undefined =>
    rw [ran] at first
    exact first
  | exhausted =>
    rw [ran] at first
    exact first

theorem bind_ok (returned : x s = .ok a t) (rest : Leads stuck (f a) t Q E) :
    Leads stuck (x >>= f) s Q E := by
  rwa [Leads, Exec.bind_ok f returned]

theorem mono {Q : α → σ → Prop} {F : ε → σ → Prop} (leads : Leads stuck x s P E)
    (weaker : ∀ a t, P a t → Q a t) (weaker' : ∀ e t, E e t → F e t) :
    Leads stuck x s Q F := by
  rw [Leads] at leads ⊢
  cases ran : x s with
  | ok a t =>
    rw [ran] at leads
    exact weaker a t leads
  | raised e t =>
    rw [ran] at leads
    exact weaker' e t leads
  | undefined =>
    rw [ran] at leads
    exact leads
  | exhausted =>
    rw [ran] at leads
    exact leads

theorem imp {Q : α → σ → Prop} (leads : Leads stuck x s P E)
    (weaker : ∀ a t, P a t → Q a t) : Leads stuck x s Q E :=
  leads.mono weaker fun _ _ holds => holds

theorem forget (leads : Leads stuck x s P E) : Leads stuck x s P fun _ _ => True :=
  leads.mono (fun _ _ holds => holds) fun _ _ _ => trivial

theorem with_ok {Q : α → σ → Prop} (leads : Leads stuck x s P E)
    (known : ∀ a t, x s = .ok a t → Q a t) : Leads stuck x s Q E := by
  rw [Leads] at leads ⊢
  cases ran : x s with
  | ok a t => exact known a t ran
  | raised e t =>
    rw [ran] at leads
    exact leads
  | undefined =>
    rw [ran] at leads
    exact leads
  | exhausted =>
    rw [ran] at leads
    exact leads

theorem catching {handler : ε → Exec ε σ α} {F : ε → σ → Prop} (body : Leads stuck x s P F)
    (handled : ∀ e t, F e t → Leads stuck (handler e) t P E) :
    Leads stuck (Exec.catching x handler) s P E := by
  rw [Leads] at body ⊢
  unfold Exec.catching
  cases ran : x s with
  | ok a t =>
    rw [ran] at body
    exact body
  | raised e t =>
    rw [ran] at body
    exact handled e t body
  | undefined =>
    rw [ran] at body
    exact body
  | exhausted =>
    rw [ran] at body
    exact body

theorem zoom {get : τ → σ} {put : σ → τ → τ} {t : τ} {P : α → τ → Prop} {E : ε → τ → Prop}
    (inner : Leads stuck x (get t) (fun a s => P a (put s t)) fun e s => E e (put s t)) :
    Leads stuck (Exec.zoom get put x) t P E := by
  rw [Leads] at inner ⊢
  unfold Exec.zoom
  cases ran : x (get t) with
  | ok a s =>
    rw [ran] at inner
    exact inner
  | raised e s =>
    rw [ran] at inner
    exact inner
  | undefined =>
    rw [ran] at inner
    exact inner
  | exhausted =>
    rw [ran] at inner
    exact inner

theorem each {g : α → Exec ε σ Unit} {Inv : σ → Prop} (as : List α)
    (body : ∀ a ∈ as, ∀ s, Inv s → Leads stuck (g a) s (fun _ => Inv) E) (holds : Inv s) :
    Leads stuck (Exec.each g as) s (fun _ => Inv) E := by
  induction as generalizing s with
  | nil => exact holds
  | cons a as ih =>
    refine bind (body a (List.mem_cons_self ..) s holds) fun _ t kept => ?_
    exact ih (fun b member => body b (List.mem_cons_of_mem _ member)) kept

end Leads

theorem Ends.returns {x : Exec ε σ α} {s : σ} {P : α → σ → Prop}
    (ends : Ends x s P fun _ _ => False) : ∃ a t, x s = .ok a t ∧ P a t := by
  rw [Ends, Leads] at ends
  cases ran : x s with
  | ok a t =>
    rw [ran] at ends
    exact ⟨a, t, rfl, ends⟩
  | _ =>
    rw [ran] at ends
    exact ends.elim

/-- A program that ends returns exactly when it does not throw. -/
theorem Ends.returns_iff {x : Exec ε σ α} {s : σ} {P : α → σ → Prop} {E : ε → σ → Prop}
    (ends : Ends x s P E) : (∃ a t, x s = .ok a t ∧ P a t) ↔ ¬ Throws x s := by
  rw [Ends, Leads] at ends
  unfold Throws
  cases ran : x s with
  | ok a t =>
    rw [ran] at ends
    exact iff_of_true ⟨a, t, rfl, ends⟩ (Outcome.thrown_ok a t)
  | raised e t => exact iff_of_false (by simp) fun quiet => quiet (Outcome.thrown_raised e t)
  | undefined =>
    rw [ran] at ends
    exact ends.elim
  | exhausted =>
    rw [ran] at ends
    exact ends.elim

end Foundation.Exec
