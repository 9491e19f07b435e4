import NgxCpp.NgxEvent

/-! `NdgStreamTimeHandler`: a stream session is sent the time when its connection
is writable and is closed after that. Everything that nginx decides is an input:
the flags of a write event and how the calls it leads to end. -/

namespace NgxCpp
open Foundation

def ngxStreamOk : Int := 200

/-- An `ngx_buf_t` from `ngx_create_temp_buf`, by the bytes between `pos` and
`last` and the room between `start` and `end`. -/
structure TempBuf where
  room : Nat
  text : List UInt8 := []
  lastBuf : Bool := false
  lastInChain : Bool := false
deriving Repr, DecidableEq

def ngxFormatTime (time : Int64) : List UInt8 :=
  time.toInt.repr.toList.map fun c => c.toNat.toUInt8

namespace TempBuf

/-- `NgxBuf::printf` of formatted text. -/
def printf (buf : TempBuf) (formatted : List UInt8) : TempBuf :=
  { buf with text := formatted.take buf.room }

def finish (buf : TempBuf) (flag : Bool := true) : TempBuf :=
  { buf with lastBuf := flag, lastInChain := flag }

end TempBuf

/-- What nginx puts into a write event before it calls the handler, and how the
calls of the handler end: the two allocations, the filters' code, whether they
leave the connection buffered, and `ngx_handle_write_event`. -/
structure WriteInput where
  ready : Bool := true
  expired : Bool := false
  closed : Bool := false
  now : Int64
  msec : UInt64 := 0
  bufGranted : Bool := true
  linkGranted : Bool := true
  sendRc : Int := ngxOk
  buffered : Bool := false
  waits : Bool := true
deriving Repr, DecidableEq

/-- A session with its connection. `handed` has the chains that the top filter was
called with; `finalized` is the code that the session was finalized with. -/
structure TimeSession where
  timers : Timers := {}
  wev : Nat
  close : Bool := false
  buffered : Bool := false
  now : Int64 := 0
  handed : List (List TempBuf) := []
  finalized : Option Int := none

namespace NgxWriteEvent

variable (i : WriteInput)

def wait : Ngx TimeSession Unit :=
  NgxException.requireCode (if i.waits then ngxOk else ngxError)

def waitFor (timer : UInt64) (reset : Bool := false) : Ngx TimeSession Unit := do
  Exec.modify fun s => { s with timers := NgxEvent.timeout s.timers s.wev timer reset }
  wait i

end NgxWriteEvent

namespace NgxStreamSession

variable (i : WriteInput)

/-- `send`: `ngx_stream_top_filter` takes the chain. -/
def send (chain : List TempBuf) : Ngx TimeSession Unit := do
  Exec.modify fun s => { s with handed := s.handed ++ [chain], buffered := i.buffered }
  NgxException.fail (i.sendRc == ngxError)

def close (rc : Int := ngxStreamOk) : Ngx TimeSession Unit :=
  Exec.modify fun s => { s with finalized := some rc }

end NgxStreamSession

namespace NdgStreamTimeHandler

variable (i : WriteInput)

/-- `NgxPool::buffer` with a size. -/
def tempBuffer (n : Nat) : Ngx TimeSession TempBuf := do
  NgxException.requireCond i.bufGranted
  pure { room := n }

/-- `NgxPool::chain`, set to one buffer and finished. -/
def chainOf (buf : TempBuf) : Ngx TimeSession (List TempBuf) := do
  NgxException.requireCond i.linkGranted
  pure [buf]

/-- The part of `time_write_handler` that sends. -/
def sendTime : Ngx TimeSession Unit := do
  let buf ← tempBuffer i 20
  let now ← Exec.gets TimeSession.now
  let chain ← chainOf i (buf.printf (ngxFormatTime now)).finish
  NgxStreamSession.send i chain
  let buffered ← Exec.gets TimeSession.buffered
  if buffered then NgxWriteEvent.waitFor i 100 else NgxStreamSession.close

def timeWriteBody : Ngx TimeSession Unit := do
  let ev ← Exec.gets fun s => s.timers.events s.wev
  NgxException.fail ev.timedout ngxEtimedout
  let closed ← Exec.gets TimeSession.close
  NgxException.fail closed
  if !ev.ready then NgxWriteEvent.waitFor i 100 else sendTime i

def timeWriteHandler : Ngx TimeSession Unit :=
  Exec.catching (timeWriteBody i) fun e => NgxStreamSession.close e.code

/-- `handler`, which sets the two event handlers and calls the one for writes. -/
def handler : Ngx TimeSession Unit := Exec.catching (timeWriteHandler i) fun _ => pure ()

end NdgStreamTimeHandler

namespace TimeSession

def arrive (s : TimeSession) (i : WriteInput) : TimeSession :=
  let timers := if i.expired then s.timers.expireTimer s.wev else s.timers
  let event := { timers.events s.wev with ready := i.ready, timedout := i.expired }
  { s with
    timers := { timers.setEvent s.wev event with currentMsec := i.msec }
    close := i.closed, now := i.now }

def start (s : TimeSession) (i : WriteInput) : TimeSession :=
  (NdgStreamTimeHandler.handler i (s.arrive i)).state?.getD s

def step (s : TimeSession) (i : WriteInput) : TimeSession :=
  match s.finalized with
  | some _ => s
  | none => (NdgStreamTimeHandler.timeWriteHandler i (s.arrive i)).state?.getD s

def run (s : TimeSession) : List WriteInput → TimeSession
  | [] => s
  | i :: is => is.foldl step (s.start i)

def handedBytes (s : TimeSession) : List (List UInt8) := s.handed.map (List.flatMap TempBuf.text)

/-- The top filter got one formatted time, or nothing so far unless the session
ended well. -/
def OneTimestamp (s : TimeSession) : Prop :=
  (∃ time, s.handedBytes = [ngxFormatTime time]) ∨
    s.handedBytes = [] ∧ s.finalized ≠ some ngxStreamOk

structure Fresh (s : TimeSession) : Prop where
  buffered : s.buffered = false
  handed : s.handed = []
  finalized : s.finalized = none

end TimeSession

namespace WriteInput

def sends (i : WriteInput) : Bool :=
  !i.expired && !i.closed && i.ready && i.bufGranted && i.linkGranted

/-- The handler does not get to send while the connection of an open session is
marked buffered. -/
def SparesBuffered (s : TimeSession) (i : WriteInput) : Prop :=
  s.finalized = none → s.buffered = true → i.sends = false

instance (s : TimeSession) (i : WriteInput) : Decidable (i.SparesBuffered s) :=
  inferInstanceAs (Decidable (s.finalized = none → s.buffered = true → i.sends = false))

end WriteInput

section Handler

variable {s t : TimeSession} {i : WriteInput} {rc : Int}

theorem ngxFormatTime_length (time : Int64) : (ngxFormatTime time).length ≤ 20 := by
  have low := time.le_toInt
  have high := time.toInt_lt
  unfold ngxFormatTime
  rw [List.length_map, String.length_toList, Int.repr_eq_if]
  split
  · rw [Nat.length_repr_le_iff (by decide)]
    omega
  · have digits : (-time.toInt).toNat.repr.length ≤ 19 := by
      rw [Nat.length_repr_le_iff (by decide)]
      omega
    rw [String.length_append]
    have sign : "-".length = 1 := rfl
    omega

def timestamp (time : Int64) : TempBuf where
  room := 20
  text := ngxFormatTime time
  lastBuf := true
  lastInChain := true

theorem printf_time (time : Int64) :
    (({ room := 20 } : TempBuf).printf (ngxFormatTime time)).finish = timestamp time := by
  rw [TempBuf.printf, List.take_of_length_le (ngxFormatTime_length time)]
  rfl

structure Arrived (s : TimeSession) (i : WriteInput) : Prop where
  ready : (s.timers.events s.wev).ready = i.ready
  expired : (s.timers.events s.wev).timedout = i.expired
  close : s.close = i.closed

/-- A program that leaves a session as it is but for its timers, and that
throws no code which means success. -/
def OnlyTimers (s : TimeSession) (out : Outcome NgxException TimeSession Unit) : Prop :=
  ∃ timers, out = .ok () { s with timers } ∨
    ∃ rc, rc ≠ ngxStreamOk ∧ out = .raised ⟨rc⟩ { s with timers }

namespace NdgStreamTimeHandler

theorem waitFor_onlyTimers (s : TimeSession) (i : WriteInput) :
    OnlyTimers s (NgxWriteEvent.waitFor i 100 false s) := by
  refine ⟨NgxEvent.timeout s.timers s.wev 100 false, ?_⟩
  rw [NgxWriteEvent.waitFor, Exec.bind_ok _ (Exec.modify_apply _ s), NgxWriteEvent.wait]
  cases i.waits with
  | true => exact .inl rfl
  | false => exact .inr ⟨ngxError, by decide, rfl⟩

theorem raised_onlyTimers {rc : Int} (error : rc ≠ ngxStreamOk) (s : TimeSession) :
    OnlyTimers s (.raised ⟨rc⟩ s) :=
  ⟨s.timers, .inr ⟨rc, error, rfl⟩⟩

theorem timeWriteBody_apply (s : TimeSession) (i : WriteInput) : timeWriteBody i s =
    if (s.timers.events s.wev).timedout then .raised ⟨ngxEtimedout⟩ s
    else if s.close then .raised ⟨ngxError⟩ s
    else if (s.timers.events s.wev).ready then sendTime i s
    else NgxWriteEvent.waitFor i 100 false s := by
  rw [timeWriteBody, Exec.bind_ok _ (Exec.gets_apply _ s)]
  cases (s.timers.events s.wev).timedout with
  | true => rfl
  | false =>
    rw [Exec.bind_ok _ (show NgxException.fail false ngxEtimedout s = .ok () s from rfl),
      Exec.bind_ok _ (Exec.gets_apply _ s)]
    cases s.close with
    | true => rfl
    | false =>
      rw [Exec.bind_ok _ (show NgxException.fail false ngxError s = .ok () s from rfl)]
      cases (s.timers.events s.wev).ready <;> rfl

def sent (s : TimeSession) (i : WriteInput) : TimeSession :=
  { s with handed := s.handed ++ [[timestamp s.now]], buffered := i.buffered }

theorem sendTime_apply (s : TimeSession) (i : WriteInput) : sendTime i s =
    if i.bufGranted && i.linkGranted then
      if i.sendRc = ngxError then .raised ⟨ngxError⟩ (sent s i)
      else if i.buffered then NgxWriteEvent.waitFor i 100 false (sent s i)
      else NgxStreamSession.close ngxStreamOk (sent s i)
    else .raised ⟨ngxError⟩ s := by
  rw [sendTime]
  cases buf : i.bufGranted with
  | false =>
    have failed : tempBuffer i 20 s = .raised ⟨ngxError⟩ s := by
      simp [tempBuffer, buf, NgxException.requireCond, NgxException.raise, Exec.bind_apply]
    rw [Exec.bind_raised _ failed]
    rfl
  | true =>
    have made : tempBuffer i 20 s = .ok { room := 20 } s := by
      simp [tempBuffer, buf, NgxException.requireCond, Exec.bind_apply]
    rw [Exec.bind_ok _ made, Exec.bind_ok _ (Exec.gets_apply _ s), printf_time]
    cases link : i.linkGranted with
    | false =>
      have failed : chainOf i (timestamp s.now) s = .raised ⟨ngxError⟩ s := by
        simp [chainOf, link, NgxException.requireCond, NgxException.raise, Exec.bind_apply]
      rw [Exec.bind_raised _ failed]
      rfl
    | true =>
      have linked : chainOf i (timestamp s.now) s = .ok [timestamp s.now] s := by
        simp [chainOf, link, NgxException.requireCond, Exec.bind_apply]
      rw [Exec.bind_ok _ linked]
      by_cases error : i.sendRc = ngxError
      · have failed : NgxStreamSession.send i [timestamp s.now] s =
            .raised ⟨ngxError⟩ (sent s i) := by
          simp [NgxStreamSession.send, sent, error, NgxException.fail, NgxException.raise,
            Exec.bind_apply]
        rw [Exec.bind_raised _ failed]
        simp [error]
      · have done : NgxStreamSession.send i [timestamp s.now] s = .ok () (sent s i) := by
          simp [NgxStreamSession.send, sent, error, NgxException.fail, Exec.bind_apply]
        rw [Exec.bind_ok _ done, Exec.bind_ok _ (Exec.gets_apply _ _)]
        cases flag : i.buffered <;> simp [error, sent, flag]

theorem timeWriteBody_quiet (arrived : Arrived s i) (quiet : i.sends = false) :
    OnlyTimers s (timeWriteBody i s) := by
  rw [timeWriteBody_apply, arrived.expired, arrived.close, arrived.ready, sendTime_apply]
  cases expired : i.expired with
  | true => exact raised_onlyTimers (by decide) s
  | false =>
    cases closed : i.closed with
    | true => exact raised_onlyTimers (by decide) s
    | false =>
      cases ready : i.ready with
      | false => exact waitFor_onlyTimers s i
      | true =>
        have dry : (i.bufGranted && i.linkGranted) = false := by
          simpa [WriteInput.sends, expired, closed, ready] using quiet
        simp only [dry]
        exact raised_onlyTimers (by decide) s

theorem timeWriteBody_sends (arrived : Arrived s i) (sends : i.sends = true) :
    OnlyTimers (sent s i) (timeWriteBody i s) ∧
        (i.buffered = true ∨ ∃ e, timeWriteBody i s = .raised e (sent s i)) ∨
      timeWriteBody i s = .ok () { sent s i with finalized := some ngxStreamOk } := by
  simp only [WriteInput.sends, Bool.and_eq_true, Bool.not_eq_true'] at sends
  obtain ⟨⟨⟨⟨expired, closed⟩, ready⟩, buf⟩, link⟩ := sends
  rw [timeWriteBody_apply, arrived.expired, arrived.close, arrived.ready, sendTime_apply, expired,
    closed, ready, buf, link]
  by_cases error : i.sendRc = ngxError
  · simp only [error]
    exact .inl ⟨raised_onlyTimers (by decide) _, .inr ⟨_, rfl⟩⟩
  · cases flag : i.buffered with
    | false => exact .inr (by simp [error, NgxStreamSession.close])
    | true => exact .inl ⟨by simpa [error] using waitFor_onlyTimers (sent s i) i, .inl rfl⟩

theorem handler_eq (i : WriteInput) (s : TimeSession) : handler i s = timeWriteHandler i s := by
  rw [handler, timeWriteHandler]
  unfold Exec.catching
  cases timeWriteBody i s <;> rfl

theorem onlyTimers_state {s₀ : TimeSession} (only : OnlyTimers s (timeWriteBody i s₀)) :
    ∃ timers, (timeWriteHandler i s₀).state? = some { s with timers } ∧
        (∃ t, timeWriteBody i s₀ = .ok () t) ∨
      ∃ rc, rc ≠ ngxStreamOk ∧
        (timeWriteHandler i s₀).state? = some { s with timers, finalized := some rc } := by
  obtain ⟨timers, done | ⟨rc, error, failed⟩⟩ := only
  · refine ⟨timers, .inl ⟨?_, _, done⟩⟩
    rw [timeWriteHandler, Exec.catching_ok _ done]
    rfl
  · refine ⟨timers, .inr ⟨rc, error, ?_⟩⟩
    rw [timeWriteHandler, Exec.catching_raised _ failed]
    rfl

end NdgStreamTimeHandler

namespace TimeSession

theorem arrived (s : TimeSession) (i : WriteInput) : Arrived (s.arrive i) i := by
  constructor <;> simp [arrive, Timers.setEvent]

theorem step_open (opened : s.finalized = none) (i : WriteInput) :
    s.step i = (NdgStreamTimeHandler.timeWriteHandler i (s.arrive i)).state?.getD s := by
  rw [step, opened]

theorem step_finalized {rc : Int} (ended : s.finalized = some rc) (i : WriteInput) :
    s.step i = s := by
  rw [step, ended]

theorem step_quiet (opened : s.finalized = none) (quiet : i.sends = false) :
    (s.step i).handed = s.handed ∧ (s.step i).buffered = s.buffered ∧
      (s.step i).finalized ≠ some ngxStreamOk := by
  rw [step_open opened]
  obtain ⟨timers, ⟨left, -⟩ | ⟨rc, error, left⟩⟩ := NdgStreamTimeHandler.onlyTimers_state
    (NdgStreamTimeHandler.timeWriteBody_quiet (s.arrived i) quiet)
  · rw [left, Option.getD_some]
    exact ⟨rfl, rfl, by simp [arrive, opened]⟩
  · rw [left, Option.getD_some]
    exact ⟨rfl, rfl, by simp [error]⟩

theorem step_sends (opened : s.finalized = none) (sends : i.sends = true) :
    (s.step i).handed = s.handed ++ [[timestamp i.now]] ∧
      ((s.step i).finalized = none → (s.step i).buffered = true) := by
  rw [step_open opened]
  obtain ⟨only, stays⟩ | closed := NdgStreamTimeHandler.timeWriteBody_sends (s.arrived i) sends
  · obtain ⟨timers, ⟨left, t, done⟩ | ⟨rc, error, left⟩⟩ :=
      NdgStreamTimeHandler.onlyTimers_state only
    · have flag : i.buffered = true := by
        refine stays.resolve_right ?_
        rintro ⟨e, failed⟩
        simp [done] at failed
      rw [left, Option.getD_some]
      exact ⟨rfl, fun _ => flag⟩
    · rw [left, Option.getD_some]
      exact ⟨rfl, by simp⟩
  · rw [NdgStreamTimeHandler.timeWriteHandler, Exec.catching_ok _ closed]
    exact ⟨rfl, by simp⟩

theorem start_open (opened : s.finalized = none) (i : WriteInput) : s.start i = s.step i := by
  rw [step_open opened, start, NdgStreamTimeHandler.handler_eq]

/-- An open session has handed a time on exactly when it is marked buffered. -/
structure Tracked (s : TimeSession) : Prop where
  once : s.OneTimestamp
  marked : s.finalized = none → (s.buffered = true ↔ s.handed ≠ [])

theorem Fresh.tracked (fresh : s.Fresh) : s.Tracked where
  once := .inr ⟨by rw [handedBytes, fresh.handed]; rfl, by rw [fresh.finalized]; simp⟩
  marked _ := by simp [fresh.buffered, fresh.handed]

theorem Tracked.step (tracked : s.Tracked) (spares : i.SparesBuffered s) : (s.step i).Tracked := by
  cases opened : s.finalized with
  | some rc => rwa [step_finalized opened]
  | none =>
    cases sends : i.sends with
    | false =>
      obtain ⟨handed, buffered, failed⟩ := step_quiet opened sends
      refine ⟨?_, fun _ => by rw [handed, buffered]; exact tracked.marked opened⟩
      have same : (s.step i).handedBytes = s.handedBytes := by rw [handedBytes, handed, handedBytes]
      rw [OneTimestamp, same]
      exact tracked.once.imp_right fun empty => ⟨empty.1, failed⟩
    | true =>
      have unmarked : s.buffered ≠ true := fun marked => by
        simpa [sends] using spares opened marked
      have empty : s.handed = [] := by
        by_contra some
        exact unmarked ((tracked.marked opened).mpr some)
      obtain ⟨handed, buffered⟩ := step_sends opened sends
      rw [empty, List.nil_append] at handed
      refine ⟨.inl ⟨i.now, ?_⟩, fun left => by simp [buffered left, handed]⟩
      rw [handedBytes, handed]
      simp [timestamp]

theorem handed_grows (s : TimeSession) (is : List WriteInput) :
    s.handed.length ≤ (is.foldl TimeSession.step s).handed.length := by
  induction is generalizing s with
  | nil => exact Nat.le_refl _
  | cons i is ih =>
    refine Nat.le_trans ?_ (ih (s.step i))
    cases opened : s.finalized with
    | some rc => exact Nat.le_of_eq (by rw [step_finalized opened])
    | none =>
      cases sends : i.sends with
      | false => exact Nat.le_of_eq (congrArg List.length (step_quiet opened sends).1.symm)
      | true => simp [(step_sends opened sends).1]

theorem OneTimestamp.length_le (once : s.OneTimestamp) : s.handed.length ≤ 1 := by
  have same : s.handed.length = s.handedBytes.length := by simp [handedBytes]
  obtain ⟨time, one⟩ | ⟨none, -⟩ := once
  · simp [same, one]
  · simp [same, none]

/-- A session hands on one timestamp exactly when no event that sends finds the
connection still marked buffered. -/
theorem one_timestamp_iff (fresh : s.Fresh) (is : List WriteInput) :
    (s.run is).OneTimestamp ↔ Along TimeSession.step (fun s i => i.SparesBuffered s) s is := by
  have started : s.run is = is.foldl TimeSession.step s := by
    cases is with
    | nil => rfl
    | cons i is => rw [run, start_open fresh.finalized, List.foldl_cons]
  rw [started]
  refine foldl_iff_along Tracked (fun s tracked => tracked.once)
    (fun s i tracked spares => tracked.step spares) ?_ fresh.tracked
  intro s i is tracked resends once
  simp only [WriteInput.SparesBuffered, not_forall, Bool.not_eq_false] at resends
  obtain ⟨opened, marked, sends⟩ := resends
  have before := (tracked.marked opened).mp marked
  have grown := Nat.le_trans (handed_grows (s.step i) is) once.length_le
  rw [(step_sends opened sends).1, List.length_append, List.length_singleton] at grown
  exact before (List.eq_nil_of_length_eq_zero (by omega))

/-- Not writable at first, then writable, and the wait for the rest times out. -/
theorem one_timestamp_flushing :
    (TimeSession.run { wev := 0 } [{ ready := false, now := 17 }, { now := 17, buffered := true },
        { ready := false, now := 18 }, { expired := true, now := 19 }]).OneTimestamp ↔
      Along TimeSession.step (fun s i => i.SparesBuffered s) { wev := 0 }
        [{ ready := false, now := 17 }, { now := 17, buffered := true },
          { ready := false, now := 18 }, { expired := true, now := 19 }] :=
  one_timestamp_iff ⟨rfl, rfl, rfl⟩ _

/-- Writable again while the first time is still buffered: a second one is sent. -/
theorem two_timestamps : ¬ (TimeSession.run { wev := 0 }
    [{ now := 17, buffered := true }, { now := 18 }]).OneTimestamp := by
  have twice : (TimeSession.run { wev := 0 }
      [{ now := 17, buffered := true }, { now := 18 }]).handedBytes = [[49, 55], [49, 56]] := by
    decide +kernel
  rintro (⟨time, one⟩ | ⟨none, -⟩)
  · simp [twice] at one
  · simp [twice] at none

end TimeSession

end Handler

end NgxCpp
