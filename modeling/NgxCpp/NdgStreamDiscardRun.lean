import NgxCpp.NdgStreamDiscard
import Mathlib.Logic.Basic

/-! The runs of `NdgStreamDiscardHandler`: a session whose handler has returned is closed,
or its read timer and its read event will bring the next call. -/

namespace NgxCpp
open Foundation

/-- The results of `recv` for an event that is ready come to an end. -/
def ReadInput.Ends (i : ReadInput) : Prop := i.ready = true → ∃ n ∈ i.received, n ≤ 0

def ReadInput.last (i : ReadInput) : Option Int := i.received.find? fun n => n ≤ 0

def ReadInput.reads (i : ReadInput) : Bool := !i.expired && !i.closed && i.ready

namespace DiscardSession

/-- From `s` to `t` the session was closed, once, and its read event is gone. -/
structure Closed (s t : DiscardSession) : Prop where
  finalized : t.finalized.isSome
  closes : t.closes = s.closes + 1
  timer : t.rev ∉ t.timers.tree
  active : t.active = false

/-- From `s` to `t` the session was not closed, and the read timer and the read event are set. -/
structure Armed (s t : DiscardSession) : Prop where
  finalized : t.finalized = none
  closes : t.closes = s.closes
  timer : t.rev ∈ t.timers.tree
  active : t.active = true

/-- A call of a handler for an event of `s` closes the session or arms it, not both, and
leaves it open after the loop that reads only where that ended with `NGX_AGAIN`. -/
def Settles (x : Ngx DiscardSession Unit) (s : DiscardSession) (i : ReadInput) : Prop :=
  ∃ t, x (s.arrive i) = .ok () t ∧ Xor (Closed s t) (Armed s t) ∧
    (i.reads = true → t.finalized = none → i.last = some ngxAgain)

/-- The call of `handler` that starts the session does so, and every later call of
`discard_read_handler` for an open session. -/
def RunSettles (s : DiscardSession) : List ReadInput → Prop
  | [] => True
  | i :: is => Settles (NdgStreamDiscardHandler.handler i) s i ∧ Along step (fun s i =>
      s.finalized = none → Settles (NdgStreamDiscardHandler.discardReadHandler i) s i)
      (s.start i) is

/-- An open session, with nginx's timers in order and a timeout that is set. -/
structure Open (s : DiscardSession) : Prop where
  finalized : s.finalized = none
  timed : s.Timed
  timeout : s.conf.timeout ≠ ngxNil

end DiscardSession

section Handler

open DiscardSession

variable {s t u : DiscardSession} {i : ReadInput} {is : List ReadInput}

namespace NdgStreamDiscardHandler

theorem receive_ok {results : List Int} (ends : ∃ n ∈ results, n ≤ 0) (s : DiscardSession) :
    ∃ n reusable, results.find? (fun n => n ≤ 0) = some n ∧
      receive results s = .ok n { s with reusable } := by
  induction results generalizing s with
  | nil => simp at ends
  | cons n rest ih =>
    rw [receive, List.find?_cons]
    by_cases last : n ≤ 0
    · rw [if_pos last, decide_eq_true last]
      exact ⟨n, s.reusable, rfl, rfl⟩
    · rw [if_neg last, Exec.bind_ok _ (Exec.modify_apply _ s), decide_eq_false last]
      refine ih ?_ _
      simpa [last] using ends

theorem drain_cases {ready : Bool} (ends : ready = true → ∃ n ∈ i.received, n ≤ 0)
    (s : DiscardSession) : ∃ reusable, (∃ e, drain i ready s = .raised e { s with reusable }) ∨
      drain i ready s = .ok () { s with reusable } ∧
        (ready = true → i.last = Option.some ngxAgain) := by
  cases ready with
  | false => exact ⟨s.reusable, .inr ⟨rfl, by simp⟩⟩
  | true =>
    obtain ⟨n, reusable, last, loop⟩ := receive_ok (ends rfl) s
    refine ⟨reusable, ?_⟩
    rw [drain, if_pos rfl, Exec.bind_ok _ loop]
    by_cases again : n = ngxAgain
    · subst again
      exact .inr ⟨rfl, fun _ => last⟩
    · refine .inl ⟨⟨ngxError⟩, ?_⟩
      simp [NgxException.fail, NgxException.raise, again]

theorem waitFor_cases (timed : s.Timed) {timer : UInt64} (some : timer ≠ ngxNil) :
    ∃ timers : Timers, timers.Sound ∧ s.rev ∈ timers.tree ∧
      ((∃ e, NgxReadEvent.waitFor i timer true s = .raised e { s with timers }) ∨
        NgxReadEvent.waitFor i timer true s = .ok () { s with timers, active := true }) := by
  have met := (TimerInput.protocol_iff timed (.timeout s.rev timer true)).mpr
    fun none => absurd none some
  rw [TimerInput.Protocol, if_neg some] at met
  refine ⟨NgxEvent.timeout s.timers s.rev timer true,
    TimerInput.step_sound timed (.timeout s.rev timer true), met.1, ?_⟩
  rw [NgxReadEvent.waitFor, Exec.bind_ok _ (Exec.modify_apply _ s), NgxReadEvent.wait,
    NgxReadEvent.ngxHandleReadEvent]
  cases i.waits with
  | true => exact .inr rfl
  | false => exact .inl ⟨_, rfl⟩

theorem discardReadBody_apply (i : ReadInput) (s : DiscardSession) : discardReadBody i s =
    if (s.timers.events s.rev).timedout then .raised ⟨ngxEtimedout⟩ s
    else if s.close then .raised ⟨ngxError⟩ s
    else (do
      drain i (s.timers.events s.rev).ready
      let conf ← Exec.gets DiscardSession.conf
      NgxReadEvent.waitFor i conf.timeout true) s := by
  rw [discardReadBody, Exec.bind_ok _ (Exec.gets_apply _ s)]
  cases (s.timers.events s.rev).timedout with
  | true => rfl
  | false =>
    rw [Exec.bind_ok _ (show NgxException.fail false ngxEtimedout s = .ok () s from rfl),
      Exec.bind_ok _ (Exec.gets_apply _ s)]
    cases s.close with
    | true => rfl
    | false => rfl

theorem discardReadBody_cases (timed : s.Timed) (some : s.conf.timeout ≠ ngxNil)
    (ends : (s.timers.events s.rev).ready = true → ∃ n ∈ i.received, n ≤ 0) :
    ∃ reusable, ∃ timers : Timers, timers.Sound ∧
      ((∃ e, discardReadBody i s = .raised e { s with reusable, timers }) ∨
        discardReadBody i s = .ok () { s with reusable, timers, active := true } ∧
          s.rev ∈ timers.tree ∧
          ((s.timers.events s.rev).ready = true → i.last = Option.some ngxAgain)) := by
  rw [discardReadBody_apply]
  split
  · exact ⟨s.reusable, s.timers, timed, .inl ⟨_, rfl⟩⟩
  split
  · exact ⟨s.reusable, s.timers, timed, .inl ⟨_, rfl⟩⟩
  obtain ⟨reusable, ⟨e, failed⟩ | ⟨drained, again⟩⟩ := drain_cases ends s
  · rw [Exec.bind_raised _ failed]
    exact ⟨reusable, s.timers, timed, .inl ⟨e, rfl⟩⟩
  · rw [Exec.bind_ok _ drained, Exec.bind_ok _ (Exec.gets_apply _ _)]
    let read : DiscardSession := { s with reusable }
    obtain ⟨timers, sound, pending, ⟨e, failed⟩ | waits⟩ :=
      waitFor_cases (s := read) (i := i) timed some
    · exact ⟨reusable, timers, sound, .inl ⟨e, failed⟩⟩
    · exact ⟨reusable, timers, sound, .inr ⟨waits, pending, again⟩⟩

theorem not_mem_closeTimer (timed : s.Timed) : s.rev ∉ (closeTimer s).tree := by
  unfold closeTimer
  split
  · exact Timers.Sound.absent_of_del timed
  · rename_i unset
    exact fun pending => unset ((timed.flagged s.rev).mp pending)

theorem discardReadHandler_cases (timed : s.Timed) (some : s.conf.timeout ≠ ngxNil)
    (ends : (s.timers.events s.rev).ready = true → ∃ n ∈ i.received, n ≤ 0) :
    ∃ reusable, ∃ timers : Timers, timers.Sound ∧
      (discardReadHandler i s = .ok () { s with
          reusable, timers, active := false, finalized := Option.some ngxStreamOk,
          closes := s.closes + 1 } ∧ s.rev ∉ timers.tree ∨
        discardReadHandler i s = .ok () { s with reusable, timers, active := true } ∧
          s.rev ∈ timers.tree ∧
          ((s.timers.events s.rev).ready = true → i.last = Option.some ngxAgain)) := by
  obtain ⟨reusable, timers, sound, ⟨e, failed⟩ | ⟨waits, pending, again⟩⟩ :=
    discardReadBody_cases timed some ends
  · let thrown : DiscardSession := { s with reusable, timers }
    have timed' : thrown.Timed := sound
    refine ⟨reusable, closeTimer thrown, sound_closeTimer timed', .inl ⟨?_, ?_⟩⟩
    · rw [discardReadHandler, Exec.catching_raised _ failed]
      rfl
    · exact not_mem_closeTimer timed'
  · refine ⟨reusable, timers, sound, .inr ⟨?_, pending, again⟩⟩
    rw [discardReadHandler, Exec.catching_ok _ waits]

theorem handler_eq (i : ReadInput) (s : DiscardSession) :
    handler i s = discardReadHandler i { s with handlersSet := true } := by
  simp only [handler, discardReadHandler, Exec.catching, Exec.bind_apply, Exec.modify_apply]
  cases discardReadBody i { s with handlersSet := true } <;> rfl

end NdgStreamDiscardHandler

namespace DiscardSession

open NdgStreamDiscardHandler

theorem Closed.not_armed (closed : Closed s t) : ¬ Armed s t := by
  intro armed
  have some := closed.finalized
  simp [armed.finalized] at some

theorem xor_closed_armed (ended : Closed s t ∨ Armed s t) : Xor (Closed s t) (Armed s t) :=
  ended.imp (fun closed => ⟨closed, closed.not_armed⟩)
    fun armed => ⟨armed, fun closed => closed.not_armed armed⟩

/-- A session that a call has closed or armed since `s`, and that takes the next event. -/
structure Ended (s t : DiscardSession) : Prop where
  met : Closed s t ∨ Armed s t
  waits : t.finalized = none → t.Open

/-- A call of the read handler for an event of an open session, after `handler` has set the
handlers or not. -/
theorem Open.called (opened : s.Open) (ends : i.Ends) (handlersSet : Bool) :
    ∃ t, discardReadHandler i { s.arrive i with handlersSet } = .ok () t ∧ Ended s t ∧
      (i.reads = true → t.finalized = none → i.last = some ngxAgain) := by
  let called : DiscardSession := { s.arrive i with handlersSet }
  have timed : called.Timed := opened.timed.arrive
  have ready : (called.timers.events called.rev).ready = i.ready :=
    congrArg NgxEventT.ready (Timers.setEvent_self _)
  obtain ⟨reusable, timers, sound, ⟨closed, gone⟩ | ⟨waits, pending, again⟩⟩ :=
    discardReadHandler_cases timed opened.timeout fun now => ends (ready.symm.trans now)
  · exact ⟨_, closed, ⟨.inl ⟨rfl, rfl, gone, rfl⟩, by simp⟩, fun _ => by simp⟩
  · have open_after := opened.finalized
    refine ⟨_, waits, ⟨.inr ⟨open_after, rfl, pending, rfl⟩,
      fun _ => ⟨open_after, sound, opened.timeout⟩⟩, fun reads _ => again (ready.trans ?_)⟩
    simp only [ReadInput.reads, Bool.and_eq_true] at reads
    exact reads.2

theorem Open.start (opened : s.Open) (ends : i.Ends) :
    Settles (handler i) s i ∧ Ended s (s.start i) := by
  obtain ⟨t, returned, ended, again⟩ := opened.called ends true
  rw [← handler_eq i (s.arrive i)] at returned
  rw [DiscardSession.start, returned]
  exact ⟨⟨t, returned, xor_closed_armed ended.met, again⟩, ended⟩

theorem Open.step (opened : s.Open) (ends : i.Ends) :
    Settles (discardReadHandler i) s i ∧ Ended s (s.step i) := by
  obtain ⟨t, returned, ended, again⟩ := opened.called ends (s.arrive i).handlersSet
  have same : s.step i = t := by
    rw [DiscardSession.step, opened.finalized]
    exact congrArg (fun out => out.state?.getD s) returned
  rw [same]
  exact ⟨⟨t, returned, xor_closed_armed ended.met, again⟩, ended⟩

theorem Ended.step (ended : Ended s t) (ends : i.Ends) : Ended s (t.step i) := by
  obtain ⟨closed | armed, waits⟩ := ended
  · obtain ⟨rc, final⟩ := Option.isSome_iff_exists.mp closed.finalized
    have same : t.step i = t := by rw [DiscardSession.step, final]
    rw [same]
    exact ⟨.inl closed, waits⟩
  · obtain ⟨-, met, waits⟩ := (waits armed.finalized).step ends
    refine ⟨met.imp (fun closed => ?_) fun still => ?_, waits⟩
    · exact ⟨closed.finalized, closed.closes.trans (by rw [armed.closes]), closed.timer,
        closed.active⟩
    · exact ⟨still.finalized, still.closes.trans armed.closes, still.timer, still.active⟩

theorem Ended.foldl (ended : Ended s t) (ends : ∀ i ∈ is, i.Ends) :
    Ended s (is.foldl DiscardSession.step t) := by
  induction is generalizing t with
  | nil => exact ended
  | cons i is ih =>
    obtain ⟨first, rest⟩ := List.forall_mem_cons.mp ends
    exact ih (ended.step first) rest

/-- Each call of a handler closes the session or arms it, and after a whole run the session
has been closed once or waits. -/
theorem closed_or_armed (opened : s.Open) (ends : ∀ i ∈ is, i.Ends) : s.RunSettles is ∧
    (is ≠ [] → Xor (Closed s (s.run is)) (Armed s (s.run is))) := by
  cases is with
  | nil => exact ⟨trivial, fun some => absurd rfl some⟩
  | cons i is =>
    obtain ⟨first, rest⟩ := List.forall_mem_cons.mp ends
    obtain ⟨settles, ended⟩ := opened.start first
    have along := (along_forall DiscardSession.step (s.start i)).mpr rest
    refine ⟨⟨settles, ?_⟩, fun _ => xor_closed_armed (ended.foldl rest).met⟩
    exact Along.of_invariant (fun t i (inv : Ended s t) ends => inv.step ends)
      (fun t i inv ends final => ((inv.waits final).step ends).1) ended along

private def discarding : DiscardSession := { rev := 0, conf := { timeout := 5000 } }

/-- Two reads and none, an event without data, then the end of the connection. -/
private def reads : List ReadInput :=
  [{ received := [64, 3, ngxAgain] }, { ready := false }, { received := [0] }]

theorem closed_or_armed_until_end : discarding.RunSettles reads ∧
    (reads ≠ [] → Xor (Closed discarding (discarding.run reads))
      (Armed discarding (discarding.run reads))) := by
  have sound : Timers.Sound {} := ⟨List.nodup_nil, by simp⟩
  have opened : discarding.Open := ⟨rfl, sound, by decide⟩
  exact closed_or_armed opened (by simp [reads, ReadInput.Ends, ngxAgain])

end DiscardSession

theorem NdgStreamDiscardConf.merge_timeout {conf conf' prev : NdgStreamDiscardConf} {rc : ConfRc}
    (merged : NdgStreamDiscardConf.merge prev conf = .ok rc conf') : conf'.timeout ≠ ngxNil := by
  obtain ⟨-, rfl⟩ := Outcome.ok.inj merged
  dsimp only
  unfold NgxValue.merge NgxValue.mergeBy
  split
  · split
    · decide
    · rename_i set
      exact fun unset => set (NgxValue.invalid_iff.mpr unset)
  · rename_i set
    exact fun unset => set (NgxValue.invalid_iff.mpr unset)

end Handler

end NgxCpp
