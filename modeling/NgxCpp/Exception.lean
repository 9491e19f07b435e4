import NgxCpp.Foundation.Exec

/-! nginx result codes and `NgxException`. The message of an exception is left
out: no caller in the repository sets one or reads it. -/

namespace NgxCpp
open Foundation

def ngxOk : Int := 0
def ngxError : Int := -1
def ngxAgain : Int := -2
def ngxBusy : Int := -3
def ngxDone : Int := -4
def ngxDeclined : Int := -5

/-- Linux's value of `NGX_ETIMEDOUT`. -/
def ngxEtimedout : Int := 110

structure NgxException where
  code : Int
deriving Repr, DecidableEq

/-- A program of the library: it may throw an `NgxException`. -/
abbrev Ngx (σ α : Type) : Type := Exec NgxException σ α

/-- What a pool answers next; past the end of its answers it has memory. -/
def granted (grants : List Bool) : Bool := grants.head?.getD true

namespace NgxException

variable {σ α : Type}

def raise (rc : Int := ngxError) : Ngx σ α := Exec.raise ⟨rc⟩

/-- `require(bool)`. -/
def requireCond (cond : Bool) (e : Int := ngxError) : Ngx σ Unit :=
  if cond then pure () else raise e

/-- `require(ngx_int_t)`: the code itself is thrown. -/
def requireCode (rc : Int) (x : Int := ngxOk) : Ngx σ Unit :=
  requireCond (rc == x) rc

/-- `require(T*)`, which hands back the pointer it found not null. -/
def requirePtr (p : Option α) (e : Int := ngxError) : Ngx σ α :=
  match p with
  | some a => pure a
  | none => raise e

def fail (cond : Bool) (e : Int := ngxError) : Ngx σ Unit :=
  if cond then raise e else pure ()

@[simp] theorem requirePtr_some (a : α) (e : Int) (s : σ) :
    requirePtr (some a) e s = .ok a s := rfl

@[simp] theorem requirePtr_none (e : Int) (s : σ) :
    (requirePtr none e : Ngx σ α) s = .raised ⟨e⟩ s := rfl

theorem requireCond_eq_ok {cond : Bool} {e : Int} {s t : σ} :
    requireCond cond e s = .ok () t ↔ cond = true ∧ s = t := by
  cases cond <;> simp [requireCond, raise]

theorem requireCode_eq_ok {rc x : Int} {s t : σ} :
    requireCode rc x s = .ok () t ↔ rc = x ∧ s = t := by
  rw [requireCode, requireCond_eq_ok, beq_iff_eq]

end NgxException

end NgxCpp
