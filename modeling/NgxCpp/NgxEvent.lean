import NgxCpp.Exception
import NgxCpp.NgxValue
import NgxCpp.Foundation.Runs
import Mathlib.Logic.Function.Basic
import Mathlib.Data.List.Nodup

/-! Events, nginx's timer tree and `NgxEvent`. The tree is the list of the nodes
it holds, named by their events; in what order the tree keeps them is left out. -/

namespace NgxCpp
open Foundation

/-- The fields of `ngx_event_t` that the library reads. -/
structure NgxEventT where
  data : Option Nat := none
  timerSet : Bool := false
  timedout : Bool := false
  ready : Bool := false
  key : UInt64 := 0
deriving Repr, DecidableEq

/-- The events of a process, its timer tree and `ngx_current_msec`. -/
structure Timers where
  events : Nat → NgxEventT := fun _ => {}
  tree : List Nat := []
  currentMsec : UInt64 := 0

def ngxTimerLazyDelay : Int64 := 300

namespace Timers

def setEvent (t : Timers) (ev : Nat) (e : NgxEventT) : Timers :=
  { t with events := Function.update t.events ev e }

def ngxDelTimer (t : Timers) (ev : Nat) : Timers :=
  { t.setEvent ev { t.events ev with timerSet := false } with tree := t.tree.erase ev }

/-- The insertion at the end of `ngx_add_timer`. -/
def insertTimer (t : Timers) (ev : Nat) (key : UInt64) : Timers :=
  { t.setEvent ev { t.events ev with key, timerSet := true } with tree := ev :: t.tree }

def ngxAddTimer (t : Timers) (ev : Nat) (timer : UInt64) : Timers :=
  let key := t.currentMsec + timer
  if (t.events ev).timerSet then
    if (key - (t.events ev).key).toInt64.abs < ngxTimerLazyDelay then t
    else (t.ngxDelTimer ev).insertTimer ev key
  else t.insertTimer ev key

/-- What `ngx_event_expire_timers` does to an event before it calls its handler. -/
def expireTimer (t : Timers) (ev : Nat) : Timers :=
  { t.setEvent ev { t.events ev with timerSet := false, timedout := true } with
    tree := t.tree.erase ev }

/-- The tree holds a node once, and the flag of an event says whether it does. -/
structure Sound (t : Timers) : Prop where
  nodup : t.tree.Nodup
  flagged : ∀ ev, ev ∈ t.tree ↔ (t.events ev).timerSet = true

variable {t : Timers} {ev : Nat} {timer : UInt64}

@[simp] theorem setEvent_self (e : NgxEventT) : (t.setEvent ev e).events ev = e :=
  Function.update_self ..

theorem setEvent_of_ne {e : NgxEventT} {other : Nat} (different : other ≠ ev) :
    (t.setEvent ev e).events other = t.events other :=
  Function.update_of_ne different ..

namespace Sound

theorem ngxDelTimer (sound : t.Sound) : (t.ngxDelTimer ev).Sound where
  nodup := sound.nodup.erase ev
  flagged other := by
    by_cases same : other = ev
    · subst same
      simp [Timers.ngxDelTimer, sound.nodup.mem_erase_iff, setEvent]
    · have kept : (t.ngxDelTimer ev).events other = t.events other := setEvent_of_ne same
      rw [kept, ← sound.flagged other]
      simp [Timers.ngxDelTimer, sound.nodup.mem_erase_iff, same]

theorem insertTimer (sound : t.Sound) (absent : ev ∉ t.tree) (key : UInt64) :
    (t.insertTimer ev key).Sound where
  nodup := List.nodup_cons.mpr ⟨absent, sound.nodup⟩
  flagged other := by
    by_cases same : other = ev
    · subst same
      simp [Timers.insertTimer, setEvent]
    · have kept : (t.insertTimer ev key).events other = t.events other := setEvent_of_ne same
      rw [kept, ← sound.flagged other]
      simp [Timers.insertTimer, same]

theorem expireTimer (sound : t.Sound) : (t.expireTimer ev).Sound where
  nodup := sound.nodup.erase ev
  flagged other := by
    by_cases same : other = ev
    · subst same
      simp [Timers.expireTimer, sound.nodup.mem_erase_iff, setEvent]
    · have kept : (t.expireTimer ev).events other = t.events other := setEvent_of_ne same
      rw [kept, ← sound.flagged other]
      simp [Timers.expireTimer, sound.nodup.mem_erase_iff, same]

theorem setEvent (sound : t.Sound) {e : NgxEventT} (same : e.timerSet = (t.events ev).timerSet) :
    (t.setEvent ev e).Sound where
  nodup := sound.nodup
  flagged other := by
    by_cases here : other = ev
    · subst here
      rw [setEvent_self, same]
      exact sound.flagged other
    · rw [setEvent_of_ne here]
      exact sound.flagged other

theorem absent_of_del (sound : t.Sound) : ev ∉ (t.ngxDelTimer ev).tree := by
  simp [Timers.ngxDelTimer, sound.nodup.mem_erase_iff]

theorem not_flagged (sound : t.Sound) (absent : ev ∉ t.tree) :
    (t.events ev).timerSet = false := by
  rw [sound.flagged ev] at absent
  simpa using absent

theorem ngxAddTimer (sound : t.Sound) (ev : Nat) (timer : UInt64) :
    (t.ngxAddTimer ev timer).Sound ∧ ev ∈ (t.ngxAddTimer ev timer).tree := by
  simp only [Timers.ngxAddTimer]
  by_cases pending : ev ∈ t.tree
  · rw [if_pos ((sound.flagged ev).mp pending)]
    split
    · exact ⟨sound, pending⟩
    · exact ⟨sound.ngxDelTimer.insertTimer sound.absent_of_del _, List.mem_cons_self⟩
  · rw [if_neg (by rw [sound.not_flagged pending]; simp)]
    exact ⟨sound.insertTimer pending _, List.mem_cons_self⟩

end Sound

end Timers

namespace NgxEvent

def timeout (t : Timers) (ev : Nat) (timer : UInt64) (reset : Bool := false) : Timers :=
  if (t.events ev).timerSet then
    if timer = ngxNil then t.ngxDelTimer ev
    else if !reset then t
    else t.ngxAddTimer ev timer
  else t.ngxAddTimer ev timer

end NgxEvent

/-- What may happen to the timers: a call of `timeout` on an event, the expiry of
a pending timer, a new value of `ngx_current_msec`. -/
inductive TimerInput where
  | timeout (ev : Nat) (timer : UInt64) (reset : Bool)
  | expire (ev : Nat)
  | tick (msec : UInt64)
deriving Repr, DecidableEq

namespace TimerInput

def step (t : Timers) : TimerInput → Timers
  | timeout ev timer reset => NgxEvent.timeout t ev timer reset
  | expire ev => if ev ∈ t.tree then t.expireTimer ev else t
  | tick msec => { t with currentMsec := msec }

/-- The protocol of `timeout`: cancel, keep or arm. -/
def Protocol (t : Timers) : TimerInput → Prop
  | timeout ev timer reset =>
    if timer = ngxNil then ev ∉ (NgxEvent.timeout t ev timer reset).tree
    else ev ∈ (NgxEvent.timeout t ev timer reset).tree ∧
      (reset = false → ((NgxEvent.timeout t ev timer reset).events ev).key =
        if ev ∈ t.tree then (t.events ev).key else t.currentMsec + timer)
  | _ => True

def CancelsPending (t : Timers) : TimerInput → Prop
  | timeout ev timer _ => timer = ngxNil → ev ∈ t.tree
  | _ => True

instance (t : Timers) : (i : TimerInput) → Decidable (i.Protocol t)
  | timeout ev timer reset => inferInstanceAs (Decidable
    (if timer = ngxNil then ev ∉ (NgxEvent.timeout t ev timer reset).tree else _ ∧ (_ → _ = _)))
  | expire _ => inferInstanceAs (Decidable True)
  | tick _ => inferInstanceAs (Decidable True)

instance (t : Timers) : (i : TimerInput) → Decidable (i.CancelsPending t)
  | timeout ev timer _ => inferInstanceAs (Decidable (timer = ngxNil → ev ∈ t.tree))
  | expire _ => inferInstanceAs (Decidable True)
  | tick _ => inferInstanceAs (Decidable True)

variable {t : Timers} {ev : Nat} {timer : UInt64} {reset : Bool}

theorem timeout_cancel (sound : t.Sound) (pending : ev ∈ t.tree) :
    NgxEvent.timeout t ev ngxNil reset = t.ngxDelTimer ev := by
  rw [NgxEvent.timeout, if_pos ((sound.flagged ev).mp pending), if_pos rfl]

theorem timeout_absent (sound : t.Sound) (absent : ev ∉ t.tree) :
    NgxEvent.timeout t ev timer reset = t.insertTimer ev (t.currentMsec + timer) := by
  have unset := sound.not_flagged absent
  simp [NgxEvent.timeout, Timers.ngxAddTimer, unset]

theorem timeout_pending (sound : t.Sound) (pending : ev ∈ t.tree) (some : timer ≠ ngxNil) :
    NgxEvent.timeout t ev timer reset = if reset then t.ngxAddTimer ev timer else t := by
  rw [NgxEvent.timeout, if_pos ((sound.flagged ev).mp pending), if_neg some]
  cases reset <;> rfl

theorem step_sound (sound : t.Sound) (i : TimerInput) : (i.step t).Sound := by
  cases i with
  | timeout ev timer reset =>
    by_cases pending : ev ∈ t.tree
    · by_cases nil : timer = ngxNil
      · subst nil
        rw [step, timeout_cancel sound pending]
        exact sound.ngxDelTimer
      · rw [step, timeout_pending sound pending nil]
        cases reset with
        | true => exact (sound.ngxAddTimer ev timer).1
        | false => exact sound
    · rw [step, timeout_absent sound pending]
      exact sound.insertTimer pending _
  | expire ev =>
    rw [step]
    split
    · exact sound.expireTimer
    · exact sound
  | tick msec => exact ⟨sound.nodup, sound.flagged⟩

theorem protocol_iff (sound : t.Sound) (i : TimerInput) :
    i.Protocol t ↔ i.CancelsPending t := by
  cases i with
  | timeout ev timer reset =>
    simp only [Protocol, CancelsPending]
    by_cases nil : timer = ngxNil
    · subst nil
      by_cases pending : ev ∈ t.tree
      · simp [pending, timeout_cancel sound pending, sound.absent_of_del]
      · simp [pending, timeout_absent sound pending, Timers.insertTimer]
    · rw [if_neg nil]
      by_cases pending : ev ∈ t.tree
      · have added := (sound.ngxAddTimer ev timer).2
        rw [timeout_pending sound pending nil]
        cases reset <;> simp [pending, nil, added]
      · rw [timeout_absent sound pending]
        simp [pending, nil, Timers.insertTimer, Timers.setEvent]
  | expire ev => exact Iff.rfl
  | tick msec => exact Iff.rfl

end TimerInput

/-- A run of calls, expirations and ticks follows the protocol exactly when each
of its cancelling calls finds the event pending. -/
theorem timeout_protocol_iff {t : Timers} (sound : t.Sound) (is : List TimerInput) :
    Along (fun t i => i.step t) (fun t i => i.Protocol t) t is ↔
      Along (fun t i => i.step t) (fun t i => i.CancelsPending t) t is :=
  along_congr Timers.Sound (fun _ i sound => TimerInput.step_sound sound i)
    (fun _ i sound => TimerInput.protocol_iff sound i) sound

theorem timeout_protocol_armed :
    Along (fun t i => i.step t) (fun t i => i.Protocol t) {}
      [TimerInput.timeout 0 5 false, .timeout 0 ngxNil false, .timeout 0 7 true, .expire 0] := by
  have sound : Timers.Sound {} := ⟨List.nodup_nil, by simp⟩
  refine (timeout_protocol_iff sound _).mpr ?_
  decide

/-- Cancelling the timer of an event that has none arms it for just before now. -/
theorem timeout_cancel_arms :
    ¬ Along (fun t i => i.step t) (fun t i => i.Protocol t) {}
      [TimerInput.timeout 0 ngxNil false] := by
  decide

end NgxCpp
