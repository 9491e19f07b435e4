import NgxCpp.Foundation.Keeps
import NgxCpp.NdgStreamTime
import NgxCpp.NgxModule

/-! `NdgStreamDiscardHandler`: what a client sends is read and thrown away until the
connection fails, is closed or is silent for too long. Everything that nginx decides is
an input, as for `NdgStreamTimeHandler`. -/

namespace NgxCpp
open Foundation

/-- What nginx puts into a read event before it calls the handler, and how the calls of
the handler end: the results of `recv` in order, and `ngx_handle_read_event`. -/
structure ReadInput where
  ready : Bool := true
  expired : Bool := false
  closed : Bool := false
  msec : UInt64 := 0
  received : List Int := []
  waits : Bool := true
deriving Repr, DecidableEq

/-- A session with its connection; `active` says that the read event is registered,
`reusable` is the connection's place in nginx's queue of connections that may be closed,
`finalized` the code of the last of the `closes`. -/
structure DiscardSession where
  timers : Timers := {}
  rev : Nat
  active : Bool := false
  close : Bool := false
  conf : NdgStreamDiscardConf
  reusable : Bool := false
  handlersSet : Bool := false
  finalized : Option Int := none
  closes : Nat := 0

namespace NgxReadEvent

variable (i : ReadInput)

/-- `ngx_handle_read_event` registers the event or fails. -/
def ngxHandleReadEvent : Ngx DiscardSession Int := do
  if i.waits then
    Exec.modify fun s => { s with active := true }
    pure ngxOk
  else pure ngxError

def wait : Ngx DiscardSession Unit := do
  let rc ← ngxHandleReadEvent i
  NgxException.requireCode rc

def waitFor (timer : UInt64) (reset : Bool := false) : Ngx DiscardSession Unit := do
  Exec.modify fun s => { s with timers := NgxEvent.timeout s.timers s.rev timer reset }
  wait i

end NgxReadEvent

namespace NdgStreamDiscardHandler

variable (i : ReadInput)

/-- What nginx's `ngx_close_connection` does with the timer of the read event. -/
def closeTimer (s : DiscardSession) : Timers :=
  if (s.timers.events s.rev).timerSet then s.timers.ngxDelTimer s.rev else s.timers

/-- `NgxStreamSession::close`, which takes the read event away with the connection. -/
def closeSession (rc : Int := ngxStreamOk) : Ngx DiscardSession Unit :=
  Exec.modify fun s => { s with
    timers := closeTimer s, active := false, finalized := some rc, closes := s.closes + 1 }

/-- The loop that reads until `recv` answers 0 or an error; it returns that answer. -/
def receive : List Int → Ngx DiscardSession Int
  | [] => Exec.exhausted
  | n :: rest => do
    if n ≤ 0 then pure n
    else
      Exec.modify fun s => { s with reusable := false }
      receive rest

/-- The part of `discard_read_handler` for an event that is ready. -/
def drain (ready : Bool) : Ngx DiscardSession Unit := do
  if ready then
    let n ← receive i.received
    NgxException.fail (n != ngxAgain)
  else pure ()

def discardReadBody : Ngx DiscardSession Unit := do
  let ev ← Exec.gets fun s => s.timers.events s.rev
  NgxException.fail ev.timedout ngxEtimedout
  let closed ← Exec.gets DiscardSession.close
  NgxException.fail closed
  drain i ev.ready
  let conf ← Exec.gets DiscardSession.conf
  NgxReadEvent.waitFor i conf.timeout true

/-- `discard_read_handler`, which closes the session with the default code. -/
def discardReadHandler : Ngx DiscardSession Unit :=
  Exec.catching (discardReadBody i) fun _ => closeSession

/-- `handler`, which sets both event handlers and calls the one for reads. -/
def handler : Ngx DiscardSession Unit :=
  Exec.catching (do
    Exec.modify fun s => { s with handlersSet := true }
    discardReadHandler i) fun _ => closeSession

def writeHandler : Ngx DiscardSession Unit := pure ()

open Exec (NoThrow)

theorem discardReadHandler_noThrow : NoThrow (discardReadHandler i) := .catching fun _ => .modify _

theorem handler_noThrow : NoThrow (handler i) := .catching fun _ => .modify _

end NdgStreamDiscardHandler

namespace DiscardSession

def arrive (s : DiscardSession) (i : ReadInput) : DiscardSession :=
  let timers := if i.expired then s.timers.expireTimer s.rev else s.timers
  let event := { timers.events s.rev with ready := i.ready, timedout := i.expired }
  { s with
    timers := { timers.setEvent s.rev event with currentMsec := i.msec }
    close := i.closed }

def start (s : DiscardSession) (i : ReadInput) : DiscardSession :=
  (NdgStreamDiscardHandler.handler i (s.arrive i)).state?.getD s

def step (s : DiscardSession) (i : ReadInput) : DiscardSession :=
  match s.finalized with
  | some _ => s
  | none => (NdgStreamDiscardHandler.discardReadHandler i (s.arrive i)).state?.getD s

def run (s : DiscardSession) : List ReadInput → DiscardSession
  | [] => s
  | i :: is => is.foldl step (s.start i)

end DiscardSession

section Timers

open Exec (Keeps)

variable {i : ReadInput} {s : DiscardSession}

def DiscardSession.Timed (s : DiscardSession) : Prop := s.timers.Sound

namespace NdgStreamDiscardHandler

open DiscardSession (Timed)

theorem keeps_fail (cond : Bool) (e : Int) : Keeps Timed (NgxException.fail cond e) :=
  .ite (.raise _) (.pure _)

theorem keeps_receive (results : List Int) : Keeps Timed (receive results) := by
  induction results with
  | nil => exact fun _ _ _ left => by simp [receive, Exec.exhausted, Outcome.state?] at left
  | cons n rest ih => exact .ite (.pure n) (.bind (.modify fun _ timed => timed) fun _ => ih)

theorem keeps_waitFor (timer : UInt64) (reset : Bool) :
    Keeps Timed (NgxReadEvent.waitFor i timer reset) := by
  refine .bind (.modify fun s timed => ?_) fun _ => .bind (.ite (.bind (.modify ?_) fun _ =>
    .pure _) (.pure _)) fun rc => .ite (.pure _) (.raise _)
  · exact TimerInput.step_sound timed (.timeout s.rev timer reset)
  · exact fun _ timed => timed

theorem sound_closeTimer (timed : s.Timed) : (closeTimer s).Sound := by
  unfold closeTimer
  split
  · exact Timers.Sound.ngxDelTimer timed
  · exact timed

theorem keeps_closeSession (rc : Int) : Keeps Timed (closeSession rc) :=
  .modify fun _ timed => sound_closeTimer timed

theorem keeps_discardReadHandler : Keeps Timed (discardReadHandler i) := by
  refine .catching (.bind (.gets _) fun ev => ?_) fun _ => keeps_closeSession _
  refine .bind (keeps_fail _ _) fun _ => .bind (.gets _) fun closed => ?_
  refine .bind (keeps_fail _ _) fun _ => .bind ?_ fun _ => .bind (.gets _) fun conf =>
    keeps_waitFor _ _
  exact .ite (.bind (keeps_receive _) fun _ => keeps_fail _ _) (.pure _)

theorem keeps_handler : Keeps Timed (handler i) :=
  .catching (.bind (.modify fun _ timed => timed) fun _ => keeps_discardReadHandler)
    fun _ => keeps_closeSession _

end NdgStreamDiscardHandler

namespace DiscardSession

theorem Timed.arrive (timed : s.Timed) : (s.arrive i).Timed := by
  have expired : (if i.expired then s.timers.expireTimer s.rev else s.timers).Sound := by
    split
    · exact timed.expireTimer
    · exact timed
  have changed : ∀ t : Timers, t.Sound → Timers.Sound { t.setEvent s.rev
      { t.events s.rev with ready := i.ready, timedout := i.expired } with
        currentMsec := i.msec } := by
    intro t sound
    have marked : (t.setEvent s.rev
        { t.events s.rev with ready := i.ready, timedout := i.expired }).Sound := sound.setEvent rfl
    exact ⟨marked.nodup, marked.flagged⟩
  exact changed _ expired

theorem Timed.called {x : Ngx DiscardSession Unit} (keeps : Keeps Timed x) (timed : s.Timed)
    (i : ReadInput) : ((x (s.arrive i)).state?.getD s).Timed := by
  cases left : (x (s.arrive i)).state? with
  | none => exact timed
  | some t => exact keeps _ timed.arrive t left

theorem Timed.step (timed : s.Timed) (i : ReadInput) : (s.step i).Timed := by
  unfold DiscardSession.step
  cases s.finalized with
  | some rc => exact timed
  | none => exact timed.called NdgStreamDiscardHandler.keeps_discardReadHandler i

theorem Timed.run (timed : s.Timed) (is : List ReadInput) : (s.run is).Timed := by
  cases is with
  | nil => exact timed
  | cons i is =>
    have started : (s.start i).Timed := timed.called NdgStreamDiscardHandler.keeps_handler i
    rw [DiscardSession.run]
    generalize s.start i = t at started
    induction is generalizing t with
    | nil => exact started
    | cons i' is ih => exact ih _ (started.step i')

end DiscardSession

end Timers

end NgxCpp
