import NgxCpp.NgxModule
import NgxCpp.NgxFilter

/-! What nginx calls while it reads a configuration: the setters of directives and the
modules' init functions. How nginx's own functions end is an input. -/

namespace NgxCpp
open Foundation

/-- A directive with its arguments. nginx counts them before it calls the setter of one
that is declared with `NgxTake(_, n)`. -/
structure Line (n : Nat) where
  args : List NgxStr
  taken : args.length = n + 1
deriving Repr, DecidableEq

/-- The content handler of a location, one of the repository's or another one. -/
inductive ContentHandler where
  | echo
  | legacyEcho
  | subrequest
  | upstream
  | other
deriving Repr, DecidableEq

inductive StreamHandler where
  | discard
  | time
  | other
deriving Repr, DecidableEq

inductive PhaseHandler where
  | test
  | shmem
  | other
deriving Repr, DecidableEq

inductive HttpPhase where
  | rewrite
  | log
deriving Repr, DecidableEq

inductive UpstreamInit where
  | loadBalance
  | other
deriving Repr, DecidableEq

inductive FilterTag where
  | filter
  | footer
  | dataHook
deriving Repr, DecidableEq

/-- What a setter or an init function writes: the module's own configuration and the
core modules' ones. -/
structure ConfWorld (C : Type) where
  conf : C
  handler : Option ContentHandler := none
  streamHandler : Option StreamHandler := none
  phases : HttpPhase → List PhaseHandler := fun _ => []
  initUpstream : Option UpstreamInit := none
  flags : Nat := 0

section Library

variable {C σ : Type}

/-- `operator[]`. -/
def NgxStrArray.get (args : List NgxStr) (i : Nat) : Ngx σ NgxStr :=
  NgxException.requirePtr args[i]?

namespace NgxHttpCoreModule

/-- `handler`, for the content. -/
def handler (f : ContentHandler) : Ngx (ConfWorld C) Unit :=
  Exec.modify fun w => { w with handler := some f }

/-- `handler`, for a phase, where `ngx_array_push` has room or not. -/
def phaseHandler (f : PhaseHandler) (p : HttpPhase) (pushed : Bool) : Ngx (ConfWorld C) Unit := do
  NgxException.requireCond pushed
  Exec.modify fun w => { w with phases := Function.update w.phases p (w.phases p ++ [f]) }

end NgxHttpCoreModule

def NgxStreamCoreModule.handler (f : StreamHandler) : Ngx (ConfWorld C) Unit :=
  Exec.modify fun w => { w with streamHandler := some f }

def NgxHttpUpstreamModule.init (f : UpstreamInit) (flags : Nat := 0) : Ngx (ConfWorld C) Unit := do
  let present ← Exec.gets ConfWorld.initUpstream
  NgxException.fail present.isSome
  Exec.modify fun w => { w with initUpstream := some f, flags }

/-- `NgxComplexValue::init`, when nginx compiles the source with this code. -/
def NgxComplexValue.init (source : NgxStr) (compiled : Int) :
    Ngx (ConfWorld Legacy.NdgEchoConf) Unit := do
  Exec.modify fun w => { w with conf := { w.conf with var := source } }
  NgxException.requireCode compiled

end Library

section Setters

/-- `set_echo`, after `ngx_conf_set_str_slot`. -/
def NdgEchoInit.setEcho (slot : ConfRc) : Ngx (ConfWorld NdgEchoConf) ConfRc := do
  if slot ≠ .ok then pure slot
  else
    NgxHttpCoreModule.handler .echo
    pure .ok

def Legacy.NdgEchoInit.setEcho (line : Line 1) (compiled : Int) :
    Ngx (ConfWorld Legacy.NdgEchoConf) ConfRc := do
  let source ← NgxStrArray.get line.args 1
  NgxComplexValue.init source compiled
  NgxHttpCoreModule.handler .legacyEcho
  pure .ok

def NdgLoadBalanceInit.setLoadBalance : Ngx (ConfWorld Unit) ConfRc := do
  NgxHttpUpstreamModule.init .loadBalance
  pure .ok

/-- `set_subrequest_loc`, which does not look at what the slot function answers. -/
def NdgSubrequestInit.setSubrequestLoc (_slot : ConfRc) :
    Ngx (ConfWorld NdgSubrequestConf) ConfRc := do
  NgxHttpCoreModule.handler .subrequest
  pure .ok

/-- `set_upstream_pass`, with `ngx_http_upstream_add`. -/
def NdgUpstreamInit.setUpstreamPass (line : Line 1) (add : NgxStr → Option Nat) :
    Ngx (ConfWorld NdgUpstreamConf) ConfRc := do
  let url ← NgxStrArray.get line.args 1
  Exec.modify fun w => { w with conf := { w.conf with upstream := add url } }
  if (add url).isNone then pure .error
  else
    NgxHttpCoreModule.handler .upstream
    pure .ok

def NdgStreamDiscardInit.setDiscard : Ngx (ConfWorld NdgStreamDiscardConf) ConfRc := do
  NgxStreamCoreModule.handler .discard
  pure .ok

def NdgStreamTimeInit.setTime : Ngx (ConfWorld Unit) ConfRc := do
  NgxStreamCoreModule.handler .time
  pure .ok

end Setters

section Inits

def NdgTestHandler.init (pushed : Bool) : Ngx (ConfWorld Unit) Int := do
  NgxHttpCoreModule.phaseHandler .test .rewrite pushed
  pure ngxOk

def NdgShmemHandler.init (pushed : Bool) : Ngx (ConfWorld Unit) Int := do
  NgxHttpCoreModule.phaseHandler .shmem .log pushed
  pure ngxOk

/-- The `init` of a filter with this tag. -/
def initFilter (tag : FilterTag) : Ngx (FilterGlobals FilterTag) Int := do
  Exec.modify (NgxFilter.init tag (some (.of tag)) (some (.of tag)))
  pure ngxOk

def NdgFilterHandler.init : Ngx (FilterGlobals FilterTag) Int := initFilter .filter

def NdgFooterHandler.init : Ngx (FilterGlobals FilterTag) Int := initFilter .footer

def NdgDataHookHandler.init : Ngx (FilterGlobals FilterTag) Int := initFilter .dataHook

end Inits

section Throws

open Exec (Throws NoThrow)

variable {C σ : Type}

theorem Line.get_ok {n : Nat} (line : Line n) {i : Nat} (inside : i ≤ n) (s : σ) :
    ∃ str, NgxStrArray.get line.args i s = .ok str s := by
  have bound : i < line.args.length := by
    have taken := line.taken
    omega
  exact ⟨line.args[i], by simp [NgxStrArray.get, bound]⟩

theorem Line.get_noThrow {n : Nat} (line : Line n) {i : Nat} (inside : i ≤ n) :
    NoThrow (NgxStrArray.get line.args i : Ngx σ NgxStr) := by
  intro s
  obtain ⟨str, read⟩ := line.get_ok inside s
  rw [Throws, read]
  exact id

theorem setEcho_noThrow (slot : ConfRc) : NoThrow (NdgEchoInit.setEcho slot) :=
  .ite (.pure _) (.bind (.modify _) fun _ => .pure _)

theorem compile_throws_iff (source : NgxStr) (compiled : Int)
    (w : ConfWorld Legacy.NdgEchoConf) :
    Throws (NgxComplexValue.init source compiled) w ↔ compiled ≠ ngxOk := by
  rw [NgxComplexValue.init, Exec.throws_bind_ok (Exec.modify_apply _ _)]
  exact NgxException.throws_requireCode

theorem legacy_setEcho_throws_iff (line : Line 1) (compiled : Int)
    (w : ConfWorld Legacy.NdgEchoConf) :
    Throws (Legacy.NdgEchoInit.setEcho line compiled) w ↔ compiled ≠ ngxOk := by
  obtain ⟨source, read⟩ := line.get_ok (Nat.le_refl 1) w
  rw [Legacy.NdgEchoInit.setEcho, Exec.throws_bind_ok read]
  exact (Exec.throws_bind_noThrow fun _ => .bind (.modify _) fun _ => .pure _).trans
    (compile_throws_iff _ compiled w)

theorem setLoadBalance_throws_iff (w : ConfWorld Unit) :
    Throws NdgLoadBalanceInit.setLoadBalance w ↔ w.initUpstream.isSome = true := by
  rw [NdgLoadBalanceInit.setLoadBalance, Exec.throws_bind_noThrow fun _ => .pure _,
    NgxHttpUpstreamModule.init, Exec.throws_bind_ok (Exec.gets_apply _ _),
    Exec.throws_bind_noThrow fun _ => .modify _]
  exact NgxException.throws_fail

theorem setSubrequestLoc_noThrow (slot : ConfRc) :
    NoThrow (NdgSubrequestInit.setSubrequestLoc slot) :=
  .bind (.modify _) fun _ => .pure _

theorem setUpstreamPass_noThrow (line : Line 1) (add : NgxStr → Option Nat) :
    NoThrow (NdgUpstreamInit.setUpstreamPass line add) := by
  refine .bind (line.get_noThrow (Nat.le_refl 1)) fun url => .bind (.modify _) fun _ => ?_
  exact .ite (.pure _) (.bind (.modify _) fun _ => .pure _)

theorem setDiscard_noThrow : NoThrow NdgStreamDiscardInit.setDiscard :=
  .bind (.modify _) fun _ => .pure _

theorem setTime_noThrow : NoThrow NdgStreamTimeInit.setTime :=
  .bind (.modify _) fun _ => .pure _

theorem phaseHandler_throws_iff (f : PhaseHandler) (p : HttpPhase) (pushed : Bool)
    (w : ConfWorld C) :
    Throws (NgxHttpCoreModule.phaseHandler f p pushed) w ↔ pushed = false := by
  rw [NgxHttpCoreModule.phaseHandler, Exec.throws_bind_noThrow fun _ => .modify _]
  exact NgxException.throws_requireCond

theorem initFilter_noThrow (tag : FilterTag) : NoThrow (initFilter tag) :=
  .bind (.modify _) fun _ => .pure _

end Throws

end NgxCpp
