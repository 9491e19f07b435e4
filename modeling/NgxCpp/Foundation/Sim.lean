import NgxCpp.Foundation.Exec

/-! Two programs on related states: they end in the same way, with related values and in
related states. One rule for each way to put programs together. -/

namespace Foundation

variable {ε σ τ σ' τ' α β α' β' : Type}

inductive Outcome.Rel (R : σ → τ → Prop) (Q : α → β → Prop) :
    Outcome ε σ α → Outcome ε τ β → Prop where
  | ok {a : α} {b : β} {s : σ} {t : τ} : Q a b → R s t → Outcome.Rel R Q (.ok a s) (.ok b t)
  | raised {e : ε} {s : σ} {t : τ} : R s t → Outcome.Rel R Q (.raised e s) (.raised e t)
  | undefined : Outcome.Rel R Q .undefined .undefined
  | exhausted : Outcome.Rel R Q .exhausted .exhausted

theorem Outcome.Rel.imp {R R' : σ → τ → Prop} {Q : α → β → Prop} {x : Outcome ε σ α}
    {y : Outcome ε τ β} (weaker : ∀ s t, R s t → R' s t) (related : Outcome.Rel R Q x y) :
    Outcome.Rel R' Q x y := by
  cases related with
  | ok values states => exact .ok values (weaker _ _ states)
  | raised states => exact .raised (weaker _ _ states)
  | undefined => exact .undefined
  | exhausted => exact .exhausted

namespace Exec

def Sim (R : σ → τ → Prop) (Q : α → β → Prop) (x : Exec ε σ α) (y : Exec ε τ β) : Prop :=
  ∀ s t, R s t → Outcome.Rel R Q (x s) (y t)

namespace Sim

variable {R : σ → τ → Prop} {Q : α → β → Prop} {Q' : α' → β' → Prop} {x : Exec ε σ α}
  {y : Exec ε τ β} {f : α → Exec ε σ α'} {g : β → Exec ε τ β'}

theorem refl (x : Exec ε σ α) : Sim (· = ·) (· = ·) x x := by
  rintro s _ rfl
  cases x s with
  | ok a t => exact .ok rfl rfl
  | raised e t => exact .raised rfl
  | undefined => exact .undefined
  | exhausted => exact .exhausted

theorem pure {a : α} {b : β} (related : Q a b) :
    Sim R Q (Pure.pure a : Exec ε σ α) (Pure.pure b : Exec ε τ β) :=
  fun _ _ states => .ok related states

theorem raise (e : ε) : Sim R Q (Exec.raise e : Exec ε σ α) (Exec.raise e : Exec ε τ β) :=
  fun _ _ states => .raised states

theorem exhausted : Sim R Q (Exec.exhausted : Exec ε σ α) (Exec.exhausted : Exec ε τ β) :=
  fun _ _ _ => .exhausted

theorem gets {p : σ → α} {q : τ → β} (related : ∀ s t, R s t → Q (p s) (q t)) :
    Sim R Q (Exec.gets p : Exec ε σ α) (Exec.gets q : Exec ε τ β) :=
  fun s t states => .ok (related s t states) states

theorem modify {p : σ → σ} {q : τ → τ} (related : ∀ s t, R s t → R (p s) (q t)) :
    Sim R (· = ·) (Exec.modify p : Exec ε σ Unit) (Exec.modify q : Exec ε τ Unit) :=
  fun s t states => .ok rfl (related s t states)

theorem deref {p : σ → Option α} {q : τ → Option β} {γ : Type} {f : α → γ} {g : β → γ}
    (related : ∀ s t, R s t → (p s).map f = (q t).map g) :
    Sim R (fun a b => f a = g b) (Exec.deref p : Exec ε σ α) (Exec.deref q : Exec ε τ β) := by
  intro s t states
  have mid := related s t states
  unfold Exec.deref
  cases left : p s <;> cases right : q t <;> rw [left, right] at mid
  case none.none => exact .undefined
  case some.some => exact .ok (Option.some.inj mid) states
  all_goals simp at mid

theorem bind (first : Sim R Q x y) (rest : ∀ a b, Q a b → Sim R Q' (f a) (g b)) :
    Sim R Q' (x >>= f) (y >>= g) := by
  intro s t states
  have mid := first s t states
  rw [bind_apply, bind_apply]
  cases left : x s <;> cases right : y t <;> rw [left, right] at mid <;> cases mid
  case ok.ok values states => exact rest _ _ values _ _ states
  case raised.raised states => exact .raised states
  case undefined.undefined => exact .undefined
  case exhausted.exhausted => exact .exhausted

theorem bind_eq {y : Exec ε τ α} {g : α → Exec ε τ β'} (first : Sim R (· = ·) x y)
    (rest : ∀ a, Sim R Q' (f a) (g a)) : Sim R Q' (x >>= f) (y >>= g) :=
  bind first fun a _ same => same ▸ rest a

theorem catching {handler : ε → Exec ε σ α} {handler' : ε → Exec ε τ β} (body : Sim R Q x y)
    (handled : ∀ e, Sim R Q (handler e) (handler' e)) :
    Sim R Q (Exec.catching x handler) (Exec.catching y handler') := by
  intro s t states
  have mid := body s t states
  unfold Exec.catching
  cases left : x s <;> cases right : y t <;> rw [left, right] at mid <;> cases mid
  case ok.ok values states => exact .ok values states
  case raised.raised states => exact handled _ _ _ states
  case undefined.undefined => exact .undefined
  case exhausted.exhausted => exact .exhausted

theorem ite {c : Prop} [Decidable c] {x' : Exec ε σ α} {y' : Exec ε τ β} (yes : Sim R Q x y)
    (no : Sim R Q x' y') : Sim R Q (if c then x else x') (if c then y else y') := by
  split
  · exact yes
  · exact no

theorem each {p : α → Exec ε σ Unit} {q : α → Exec ε τ Unit} {as : List α}
    (same : ∀ a ∈ as, Sim R (· = ·) (p a) (q a)) :
    Sim R (· = ·) (Exec.each p as) (Exec.each q as) := by
  induction as with
  | nil => exact pure rfl
  | cons a as ih =>
    refine bind (same a (List.mem_cons_self ..)) fun _ _ _ => ih fun a' member => ?_
    exact same a' (List.mem_cons_of_mem _ member)

theorem zoom {get : σ' → σ} {put : σ → σ' → σ'} {get' : τ' → τ} {put' : τ → τ' → τ'}
    {S : σ' → τ' → Prop} (inner : Sim R Q x y) (gets : ∀ s t, S s t → R (get s) (get' t))
    (puts : ∀ s t s' t', S s t → R s' t' → S (put s' s) (put' t' t)) :
    Sim S Q (Exec.zoom get put x) (Exec.zoom get' put' y) := by
  intro s t states
  have mid := inner _ _ (gets s t states)
  unfold Exec.zoom
  cases left : x (get s) <;> cases right : y (get' t) <;> rw [left, right] at mid <;> cases mid
  case ok.ok values inside => exact .ok values (puts _ _ _ _ states inside)
  case raised.raised inside => exact .raised (puts _ _ _ _ states inside)
  case undefined.undefined => exact .undefined
  case exhausted.exhausted => exact .exhausted

end Sim

end Exec

end Foundation
