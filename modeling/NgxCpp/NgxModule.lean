import NgxCpp.Foundation.Throws
import NgxCpp.NgxValue
import NgxCpp.NdgEchoHandler
import NgxCpp.NdgFooterHandler

/-! The modules' configurations: nginx has each made by `create` on the pool of the
configuration and merged by `merge` with the one of the enclosing level. A pool is seen
through its answers. -/

namespace NgxCpp
open Foundation

/-- What the functions of nginx that allocate answer next; past the end they succeed. -/
abbrev PoolAnswers := List Bool

/-- The texts `NGX_CONF_OK` and `NGX_CONF_ERROR`. -/
inductive ConfRc where
  | ok
  | error
deriving Repr, DecidableEq

namespace NgxException

open Exec (Throws NoThrow)

variable {σ α : Type} {s : σ}

@[simp] theorem throws_raise (rc : Int) : Throws (raise rc : Ngx σ α) s := trivial

@[simp] theorem throws_requireCond {cond : Bool} {e : Int} :
    Throws (requireCond cond e) s ↔ cond = false := by
  cases cond <;> simp [requireCond, Throws, raise]

@[simp] theorem throws_requireCode {rc x : Int} : Throws (requireCode rc x) s ↔ rc ≠ x := by
  simp [requireCode]

@[simp] theorem throws_requirePtr {p : Option α} {e : Int} :
    Throws (requirePtr p e) s ↔ p = none := by
  cases p <;> simp [Throws]

@[simp] theorem throws_fail {cond : Bool} {e : Int} : Throws (fail cond e) s ↔ cond = true := by
  cases cond <;> simp [fail, Throws, raise]

theorem coded_noThrow {x : Ngx σ Int} : NoThrow (Exec.catching x fun e => pure e.code) :=
  .catching fun _ => .pure _

end NgxException

namespace NgxPool

open Exec (Throws)

def answer : Ngx PoolAnswers Bool := fun grants => .ok (granted grants) grants.tail

/-- `alloc`: an object of a class, as its constructor leaves it. -/
def alloc {T : Type} (made : T) : Ngx PoolAnswers T := do
  let p ← answer
  NgxException.requireCond p
  pure made

/-- `nalloc`, and whatever else asks a pool once and wants no null. -/
def nalloc : Ngx PoolAnswers Unit := alloc ()

theorem throws_alloc {T : Type} (made : T) (grants : PoolAnswers) :
    Throws (alloc made) grants ↔ granted grants = false := by
  have asked : answer grants = .ok (granted grants) grants.tail := rfl
  rw [alloc, Exec.throws_bind_ok asked, Exec.throws_bind_noThrow fun _ => .pure _]
  exact NgxException.throws_requireCond

end NgxPool

section Configurations

def NdgEchoConf.create : Ngx PoolAnswers NdgEchoConf := NgxPool.alloc ⟨ngxNullString⟩

/-- Its `var` by the source that was compiled. -/
structure Legacy.NdgEchoConf where
  msg : NgxStr := ngxNullString
  var : NgxStr := ngxNullString
deriving Repr, DecidableEq

def Legacy.NdgEchoConf.create : Ngx PoolAnswers Legacy.NdgEchoConf := NgxPool.alloc {}

def NdgFilterConf.create : Ngx PoolAnswers NdgFilterConf := NgxPool.alloc ⟨none, ngxNullString⟩

def NdgFooterConf.create : Ngx PoolAnswers NdgFooterConf := NgxPool.alloc ⟨none, ngxNullString⟩

structure NdgTestConf where
  enabled : Int := ngxNil
deriving Repr, DecidableEq

structure NdgShmemConf where
  size : UInt64 := ngxNil
deriving Repr, DecidableEq

structure NdgSubrequestConf where
  loc : NgxStr := ngxNullString
  args : NgxStr := ngxNullString
deriving Repr, DecidableEq

/-- The part of `ngx_http_upstream_conf_t` that is read here; times are milliseconds. -/
structure NdgUpstreamConf where
  connectTimeout : UInt64 := 0
  sendTimeout : UInt64 := 0
  readTimeout : UInt64 := 0
  bufferSize : Nat := 0
  buffering : Bool := false
  upstream : Option Nat := none
deriving Repr, DecidableEq

structure NdgStreamDiscardConf where
  timeout : UInt64 := ngxNil
deriving Repr, DecidableEq

def NdgTestConf.create : Ngx PoolAnswers NdgTestConf := NgxPool.alloc {}

def NdgTestConf.merge (prev : NdgTestConf) : Ngx NdgTestConf ConfRc := do
  Exec.modify fun conf => { conf with enabled := NgxValue.merge conf.enabled prev.enabled 0 }
  pure .ok

def NdgShmemConf.create : Ngx PoolAnswers NdgShmemConf := NgxPool.alloc {}

def NdgShmemConf.init : Ngx NdgShmemConf ConfRc := do
  Exec.modify fun conf => { conf with size := NgxValue.init conf.size 1024 }
  pure .ok

def NdgSubrequestConf.create : Ngx PoolAnswers NdgSubrequestConf := NgxPool.alloc {}

/-- `merge`; `echo` is the text of the default location. -/
def NdgSubrequestConf.merge (echo : NgxStr) (prev : NdgSubrequestConf) :
    Ngx NdgSubrequestConf ConfRc := do
  Exec.modify fun conf => { conf with
    loc := NgxValue.mergeBy NgxString.empty conf.loc prev.loc echo }
  Exec.modify fun conf => { conf with
    args := NgxValue.mergeBy NgxString.empty conf.args prev.args ngxNullString }
  pure .ok

def NdgUpstreamConf.create (pagesize : Nat) : Ngx PoolAnswers NdgUpstreamConf := do
  let c ← NgxPool.alloc ({} : NdgUpstreamConf)
  pure { c with
    connectTimeout := 1000 * 30
    sendTimeout := 1000 * 30
    readTimeout := 1000 * 30
    bufferSize := pagesize }

def NdgStreamDiscardConf.create : Ngx PoolAnswers NdgStreamDiscardConf := NgxPool.alloc {}

def NdgStreamDiscardConf.merge (prev : NdgStreamDiscardConf) : Ngx NdgStreamDiscardConf ConfRc := do
  Exec.modify fun conf => { conf with timeout := NgxValue.merge conf.timeout prev.timeout 5000 }
  pure .ok

end Configurations

end NgxCpp
