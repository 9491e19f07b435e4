import NgxCpp.NgxModule
import NgxCpp.NgxTimer
import NgxCpp.NgxSubRequest
import NgxCpp.NgxLoadBalance

/-! The handlers of the test, shared memory, subrequest and load balance samples, as far as
they can throw: each call of a function of nginx that may fail is there with its answer. -/

namespace NgxCpp
open Foundation
open Exec (Throws NoThrow)

section Test

inductive TimerFunc where
  | timerCall
deriving Repr, DecidableEq

structure TestWorld where
  grants : PoolAnswers := []
  timers : NgxTimer TimerFunc := {}

namespace NdgTestHandler

def ask : Ngx TestWorld Unit :=
  Exec.zoom TestWorld.grants (fun grants w => { w with grants }) NgxPool.nalloc

def array : Ngx TestWorld Unit := Exec.each (fun _ => ask) (List.range 3)

def list : Ngx TestWorld Unit := Exec.each (fun _ => ask) (List.range 4)

def buf : Ngx TestWorld Unit := Exec.each (fun _ => ask) (List.range 3)

def codec : Ngx TestWorld Unit := ask

def escape : Ngx TestWorld Unit := Exec.each (fun _ => ask) (List.range 2)

def timer : Ngx TestWorld Unit :=
  Exec.modify fun w => { w with timers := w.timers.add 2000 .timerCall }

/-- `handler`; what it prints is left out. -/
def handler (conf : NdgTestConf) : Ngx TestWorld Int :=
  Exec.catching (do
    if conf.enabled = 0 then pure ngxDeclined
    else
      array
      list
      buf
      codec
      escape
      timer
      pure ngxDeclined) fun e => pure e.code

def timerCall : Ngx (NgxTimer TimerFunc) Unit :=
  Exec.modify fun s => s.add 1000 .timerCall

end NdgTestHandler

/-- `operator()` of a timer object. -/
def NgxTimerEv.fire (o : Nat) : Ngx (NgxTimer TimerFunc) Unit := do
  let event ← Exec.gets fun s => s.evs.timers.events o
  if event.timedout then
    let f ← Exec.deref fun s => s.evs.func o
    match f with
    | .timerCall => NdgTestHandler.timerCall
  else pure ()

/-- `NgxTimer::call`, the handler of every timer event. -/
def NgxTimer.onEvent (ev : Nat) : Ngx (NgxTimer TimerFunc) Unit := do
  let o ← Exec.deref fun s => (s.evs.timers.events ev).data
  NgxTimerEv.fire o
  Exec.modify fun s => s.release o

theorem timer_onEvent_noThrow (ev : Nat) : NoThrow (NgxTimer.onEvent ev) := by
  refine .bind (.deref _) fun o => .bind (.bind (.gets _) fun event => ?_) fun _ => .modify _
  exact .ite (.bind (.deref _) fun f => .modify _) (.pure ())

end Test

section Shmem

/-- What the shared memory handler may throw: the library's exception, or one of the
library that maps the memory. -/
inductive Thrown where
  | ngx (e : NgxException)
  | interprocess
deriving Repr, DecidableEq

structure ShmemWorld where
  segment : Bool := false
  counter : Option Int := none
deriving Repr, DecidableEq

/-- `catch(const NgxException&)`. -/
def catchNgx {σ α : Type} (x : Exec Thrown σ α) (handler : NgxException → Exec Thrown σ α) :
    Exec Thrown σ α :=
  Exec.catching x fun
    | .ngx e => handler e
    | .interprocess => Exec.raise .interprocess

namespace NdgShmemHandler

/-- The segment is opened at the first call; whether that works is up to its size. -/
def openSegment (conf : NdgShmemConf) (opens : UInt64 → Bool) : Exec Thrown ShmemWorld Unit := do
  let present ← Exec.gets ShmemWorld.segment
  if present then pure ()
  else if opens conf.size then Exec.modify fun w => { w with segment := true }
  else Exec.raise .interprocess

/-- `find_or_construct`. -/
def findCounter (constructs : Bool) : Exec Thrown ShmemWorld Unit := do
  let counter ← Exec.gets ShmemWorld.counter
  if counter.isSome then pure ()
  else if constructs then Exec.modify fun w => { w with counter := some 0 }
  else Exec.raise .interprocess

def handler (conf : NdgShmemConf) (opens : UInt64 → Bool) (constructs : Bool) (sent : Int) :
    Exec Thrown ShmemWorld Int :=
  catchNgx (do
    openSegment conf opens
    findCounter constructs
    Exec.modify fun w => { w with counter := w.counter.map (· + sent) }
    pure ngxOk) fun e => pure e.code

/-- `exit_master` removes the name of the segment, which stays mapped. -/
def exitMaster : Exec Thrown ShmemWorld Unit := pure ()

def Mapped (conf : NdgShmemConf) (opens : UInt64 → Bool) (constructs : Bool) (w : ShmemWorld) :
    Prop :=
  (w.segment = true ∨ opens conf.size = true) ∧ (w.counter.isSome = true ∨ constructs = true)

theorem openSegment_eq (conf : NdgShmemConf) (opens : UInt64 → Bool) (w : ShmemWorld) :
    openSegment conf opens w =
      if w.segment || opens conf.size then .ok () { w with segment := true }
      else .raised .interprocess w := by
  obtain ⟨segment, counter⟩ := w
  rw [openSegment, Exec.bind_ok _ (Exec.gets_apply _ _)]
  cases segment <;> cases opens conf.size <;> rfl

theorem findCounter_eq (constructs : Bool) (w : ShmemWorld) : findCounter constructs w =
    if w.counter.isSome || constructs then .ok () { w with counter := some (w.counter.getD 0) }
      else .raised .interprocess w := by
  obtain ⟨segment, counter⟩ := w
  rw [findCounter, Exec.bind_ok _ (Exec.gets_apply _ _)]
  cases counter <;> cases constructs <;> rfl

/-- What the shared memory library throws is not caught. -/
theorem handler_throws_iff (conf : NdgShmemConf) (opens : UInt64 → Bool) (constructs : Bool)
    (sent : Int) (w : ShmemWorld) :
    Throws (handler conf opens constructs sent) w ↔ ¬ Mapped conf opens constructs w := by
  have opened := openSegment_eq conf opens w
  rw [handler, catchNgx, Exec.throws_catching, Mapped]
  cases maps : w.segment || opens conf.size with
  | false =>
    rw [maps, if_neg (by simp)] at opened
    rw [Exec.bind_raised _ opened]
    simp only [Bool.or_eq_false_iff] at maps
    simp [maps, Throws]
  | true =>
    have found := findCounter_eq constructs { w with segment := true }
    rw [maps, if_pos rfl] at opened
    rw [Exec.bind_ok _ opened]
    simp only [Bool.or_eq_true] at maps
    cases counts : w.counter.isSome || constructs with
    | false =>
      rw [counts, if_neg (by simp)] at found
      rw [Exec.bind_raised _ found]
      simp only [Bool.or_eq_false_iff] at counts
      simp [counts, Throws]
    | true =>
      rw [counts, if_pos rfl] at found
      rw [Exec.bind_ok _ found, Exec.bind_ok _ (Exec.modify_apply _ _)]
      simp only [Bool.or_eq_true] at counts
      simp [maps, counts]

end NdgShmemHandler

end Shmem

section Subrequest

/-- `NdgSubrequestHandler::handler` on a request with this method; `n` is the number of
the configuration's variables. -/
def NdgSubrequestHandler.handler {V : Type} (method n r : Nat) : Ngx (RequestMem V) Int :=
  Exec.catching (do
    if method &&& ngxHttpGet = 0 then pure ngxHttpNotAllowed
    else
      let _ ← NgxSubRequest.create false n r
      pure ngxDone) fun e => pure e.code

end Subrequest

section LoadBalance

/-- `us->peer.init`. -/
inductive PeerInit where
  | roundRobin
  | loadBalance
deriving Repr, DecidableEq

/-- `NgxLoadBalance::init` of an upstream block, when nginx's round robin ends with `rc`. -/
def NgxLoadBalance.initBlock (rc : Int) : Ngx (Option PeerInit) Unit := do
  Exec.modify fun present => if rc = ngxOk then some .roundRobin else present
  NgxException.requireCode rc
  Exec.modify fun _ => some .loadBalance

def NdgLoadBalanceHandler.init (rc : Int) : Ngx (Option PeerInit) Int :=
  Exec.catching (do
    NgxLoadBalance.initBlock rc
    pure ngxOk) fun e => pure e.code

theorem getRoundRobinPeer_noThrow (chosen : Option Nat) : NoThrow (getRoundRobinPeer chosen) := by
  cases chosen with
  | none => exact .pure _
  | some i =>
    exact .bind (.deref _) fun _ => .bind (.deref _) fun _ => .bind (.modify _) fun _ => .pure ngxOk

theorem peer_get_noThrow (rand : Nat) (chosen : Option Nat) :
    NoThrow (NdgLoadBalanceCallback.get rand chosen) := by
  refine .bind (.deref _) fun data => .bind (.gets _) fun peers => .bind (.modify _) fun _ => ?_
  refine .ite (getRoundRobinPeer_noThrow chosen) (.ite .undefined ?_)
  exact .bind (.deref _) fun _ => .bind (.modify _) fun _ => .pure _

/-- `init_peer` has no handler: the pool or the round robin ends it. -/
theorem initPeer_throws_iff (granted : Bool) (rc : Int) (u : Upstream) :
    Throws (NdgLoadBalanceHandler.initPeer granted rc) u ↔ granted = false ∨ rc ≠ ngxOk := by
  rw [NdgLoadBalanceHandler.initPeer, Exec.throws_bind_noThrow fun _ => .pure _,
    NgxLoadBalance.init]
  cases granted with
  | false =>
    have refused : Throws (NgxException.requireCond false) u := trivial
    exact iff_of_true (Exec.throws_bind.mpr (.inl refused)) (.inl rfl)
  | true =>
    have given : (NgxException.requireCond true : Ngx Upstream Unit) u = .ok () u := rfl
    have asked : initRoundRobinPeer rc { u with data := some {} } = .ok rc (if rc = ngxOk then
        { u with data := some {}, get := some .roundRobin, free := some .roundRobin }
        else { u with data := some {} }) := by
      unfold initRoundRobinPeer
      split <;> rfl
    rw [Exec.throws_bind_ok given, Exec.throws_bind_ok (Exec.modify_apply _ _),
      Exec.throws_bind_ok asked, Exec.throws_bind_noThrow fun _ => .modify _]
    simp

end LoadBalance

end NgxCpp
