/-! Programs over a state that return, throw, or meet undefined behaviour.
A throw keeps the state it was thrown in: what was written before it stays
written. Loops take fuel, and `exhausted` says that it ran out. -/

namespace Foundation

inductive Outcome (ε σ α : Type) where
  | ok (value : α) (state : σ)
  | raised (error : ε) (state : σ)
  | undefined
  | exhausted
deriving Repr, DecidableEq

namespace Outcome

variable {ε σ α β : Type}

def state? : Outcome ε σ α → Option σ
  | ok _ s => some s
  | raised _ s => some s
  | undefined => none
  | exhausted => none

@[simp] theorem state?_ok (a : α) (s : σ) : (ok a s : Outcome ε σ α).state? = some s := rfl

@[simp] theorem state?_raised (e : ε) (s : σ) :
    (raised e s : Outcome ε σ α).state? = some s := rfl

@[simp] theorem state?_undefined : (undefined : Outcome ε σ α).state? = none := rfl

@[simp] theorem state?_exhausted : (exhausted : Outcome ε σ α).state? = none := rfl

end Outcome

/-- A program: a function from the state it starts in to what it leaves behind. -/
def Exec (ε σ α : Type) : Type := σ → Outcome ε σ α

namespace Exec

variable {ε σ τ α β : Type}

def bind (x : Exec ε σ α) (f : α → Exec ε σ β) : Exec ε σ β := fun s =>
  match x s with
  | .ok a t => f a t
  | .raised e t => .raised e t
  | .undefined => .undefined
  | .exhausted => .exhausted

instance : Monad (Exec ε σ) where
  pure a := fun s => .ok a s
  bind := Exec.bind

def raise (e : ε) : Exec ε σ α := fun s => .raised e s

def undefined : Exec ε σ α := fun _ => .undefined

def exhausted : Exec ε σ α := fun _ => .exhausted

def gets (f : σ → α) : Exec ε σ α := fun s => .ok (f s) s

def modify (f : σ → σ) : Exec ε σ Unit := fun s => .ok () (f s)

/-- Use what a lookup finds; finding nothing is undefined behaviour. -/
def deref (f : σ → Option α) : Exec ε σ α := fun s =>
  match f s with
  | some a => .ok a s
  | none => .undefined

/-- Run `handler` on the error of a throw, in the state of the throw. -/
def catching (x : Exec ε σ α) (handler : ε → Exec ε σ α) : Exec ε σ α := fun s =>
  match x s with
  | .raised e t => handler e t
  | other => other

def zoom (get : τ → σ) (put : σ → τ → τ) (x : Exec ε σ α) : Exec ε τ α := fun t =>
  match x (get t) with
  | .ok a s => .ok a (put s t)
  | .raised e s => .raised e (put s t)
  | .undefined => .undefined
  | .exhausted => .exhausted

/-- Run a program that only looks at one component of a larger state. -/
def view (get : τ → σ) (x : Exec ε σ α) : Exec ε τ α := zoom get (fun _ t => t) x

@[simp] theorem pure_apply (a : α) (s : σ) : (pure a : Exec ε σ α) s = .ok a s := rfl

theorem bind_apply (x : Exec ε σ α) (f : α → Exec ε σ β) (s : σ) :
    (x >>= f) s = match x s with
      | .ok a t => f a t
      | .raised e t => .raised e t
      | .undefined => .undefined
      | .exhausted => .exhausted := rfl

@[simp] theorem raise_apply (e : ε) (s : σ) : (raise e : Exec ε σ α) s = .raised e s := rfl

@[simp] theorem gets_apply (f : σ → α) (s : σ) : (gets f : Exec ε σ α) s = .ok (f s) s := rfl

@[simp] theorem modify_apply (f : σ → σ) (s : σ) :
    (modify f : Exec ε σ Unit) s = .ok () (f s) := rfl

theorem bind_ok {x : Exec ε σ α} {s t : σ} {a : α} (f : α → Exec ε σ β)
    (h : x s = .ok a t) : (x >>= f) s = f a t := by
  rw [bind_apply, h]

theorem bind_raised {x : Exec ε σ α} {s t : σ} {e : ε} (f : α → Exec ε σ β)
    (h : x s = .raised e t) : (x >>= f) s = .raised e t := by
  rw [bind_apply, h]

theorem deref_some {f : σ → Option α} {s : σ} {a : α} (h : f s = some a) :
    (deref f : Exec ε σ α) s = .ok a s := by
  simp only [deref, h]

theorem deref_given (a : α) (s : σ) : (deref fun _ => some a : Exec ε σ α) s = .ok a s := rfl

/-- A sequence that returns went through a first part that returned. -/
theorem bind_eq_ok {x : Exec ε σ α} {f : α → Exec ε σ β} {s u : σ} {b : β} :
    (x >>= f) s = .ok b u ↔ ∃ a t, x s = .ok a t ∧ f a t = .ok b u := by
  rw [bind_apply]
  cases h : x s <;> simp [and_assoc]

/-- Sequences with the same first part agree when they agree after it. -/
theorem bind_congr {x : Exec ε σ α} {f g : α → Exec ε σ β} {s : σ}
    (same : ∀ a t, x s = .ok a t → f a t = g a t) : (x >>= f) s = (x >>= g) s := by
  rw [bind_apply, bind_apply]
  cases h : x s with
  | ok a t => exact same a t h
  | _ => rfl

theorem bind_congr_left {x y : Exec ε σ α} {s : σ} (f : α → Exec ε σ β) (same : x s = y s) :
    (x >>= f) s = (y >>= f) s := by
  rw [bind_apply, bind_apply, same]

theorem deref_none {f : σ → Option α} {s : σ} (h : f s = none) :
    (deref f : Exec ε σ α) s = .undefined := by
  simp only [deref, h]

theorem deref_eq_ok {f : σ → Option α} {s t : σ} {a : α} :
    (deref f : Exec ε σ α) s = .ok a t ↔ f s = some a ∧ s = t := by
  unfold deref
  cases h : f s <;> simp

theorem bind_pure_apply (x : Exec ε σ α) (s : σ) : (x >>= pure) s = x s := by
  rw [bind_apply]
  cases x s <;> rfl

theorem zoom_ok {get : τ → σ} {put : σ → τ → τ} {x : Exec ε σ α} {t : τ} {s : σ} {a : α}
    (h : x (get t) = .ok a s) : zoom get put x t = .ok a (put s t) := by
  simp only [zoom, h]

theorem zoom_raised {get : τ → σ} {put : σ → τ → τ} {x : Exec ε σ α} {t : τ} {s : σ} {e : ε}
    (h : x (get t) = .raised e s) : zoom get put x t = .raised e (put s t) := by
  simp only [zoom, h]

theorem zoom_eq_ok {get : τ → σ} {put : σ → τ → τ} {x : Exec ε σ α} {t u : τ} {a : α} :
    zoom get put x t = .ok a u ↔ ∃ s, x (get t) = .ok a s ∧ u = put s t := by
  unfold zoom
  cases x (get t) <;> simp [and_assoc, eq_comm]

theorem view_ok {get : τ → σ} {x : Exec ε σ α} {t : τ} {s : σ} {a : α}
    (h : x (get t) = .ok a s) : view get x t = .ok a t :=
  zoom_ok h

theorem view_eq_ok {get : τ → σ} {x : Exec ε σ α} {t u : τ} {a : α} :
    view get x t = .ok a u ↔ (∃ s, x (get t) = .ok a s) ∧ u = t := by
  rw [view, zoom_eq_ok]
  exact ⟨fun ⟨s, h, same⟩ => ⟨⟨s, h⟩, same⟩, fun ⟨⟨s, h⟩, same⟩ => ⟨s, h, same⟩⟩

theorem catching_ok {x : Exec ε σ α} {s t : σ} {a : α} (handler : ε → Exec ε σ α)
    (h : x s = .ok a t) : catching x handler s = .ok a t := by
  simp only [catching, h]

theorem catching_raised {x : Exec ε σ α} {s t : σ} {e : ε} (handler : ε → Exec ε σ α)
    (h : x s = .raised e t) : catching x handler s = handler e t := by
  simp only [catching, h]

theorem catching_congr {x y : Exec ε σ α} {s : σ} (handler : ε → Exec ε σ α) (same : x s = y s) :
    catching x handler s = catching y handler s := by
  simp only [catching, same]

def each (f : α → Exec ε σ Unit) : List α → Exec ε σ Unit
  | [] => pure ()
  | a :: as => do
    f a
    each f as

@[simp] theorem each_nil (f : α → Exec ε σ Unit) : each f [] = pure () := rfl

theorem each_cons_ok {f : α → Exec ε σ Unit} {a : α} {as : List α} {s t : σ}
    (h : f a s = .ok () t) : each f (a :: as) s = each f as t :=
  bind_ok _ h

theorem each_append (f : α → Exec ε σ Unit) (as bs : List α) (s : σ) :
    each f (as ++ bs) s = (each f as >>= fun _ => each f bs) s := by
  induction as generalizing s with
  | nil => rfl
  | cons a as ih =>
    simp only [List.cons_append, each, bind_apply]
    cases f a s with
    | ok _ t => exact ih t
    | _ => rfl

theorem foldlM_eq_each (f : α → Exec ε σ Unit) (as : List α) :
    as.foldlM (fun _ a => f a) () = each f as := by
  induction as with
  | nil => rfl
  | cons a as ih => rw [List.foldlM_cons, each, ← ih]

end Exec

end Foundation
