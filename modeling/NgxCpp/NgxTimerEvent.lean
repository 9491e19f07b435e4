import NgxCpp.NgxTimer

/-! `NgxTimerEvent`: timer objects that are started, cleared and initialised again. An
object that was never initialised holds whatever its memory held. -/

namespace NgxCpp
open Foundation

variable {F : Type}

namespace NgxTimerEv

def clear (s : NgxTimerEvs F) (o : Nat) : NgxTimerEvs F :=
  if (s.timers.events o).timerSet then { s with timers := s.timers.ngxDelTimer o } else s

end NgxTimerEv

/-- `NgxTimerCaller::call`, up to the entry of the function that it returns. -/
def NgxTimerCaller.call (s : NgxTimerEvs F) (ev : Nat) : Option (Option F) := do
  let o ← (s.timers.events ev).data
  if (s.timers.events o).timedout then some (s.func o) else some none

/-- A call on an object, the expiry of its timer, a new value of `ngx_current_msec`.
What an expired timer's function does are steps of their own. -/
inductive TimerEvInput (F : Type) where
  | init (o : Nat) (f : F) (ms : UInt64)
  | start (o : Nat) (ms : UInt64)
  | clear (o : Nat)
  | expire (o : Nat)
  | tick (msec : UInt64)

namespace NgxTimerEvs

def view (s : NgxTimerEvs F) : Timers :=
  { s.timers with events := fun o => if (s.func o).isSome then s.timers.events o else {} }

/-- The node of an initialised object is in the tree once, where its flag is set. -/
def Tracked (s : NgxTimerEvs F) : Prop :=
  ∀ o, (s.func o).isSome →
    s.timers.tree.count o ≤ 1 ∧ (o ∈ s.timers.tree ↔ (s.timers.events o).timerSet = true)

variable {s : NgxTimerEvs F} {o : Nat} {f : F} {ms : UInt64}

theorem view_events (known : (s.func o).isSome) : s.view.events o = s.timers.events o :=
  if_pos known

theorem tracked_of_sound (sound : s.view.Sound) : s.Tracked := by
  intro o known
  have flagged := sound.flagged o
  rw [view_events known] at flagged
  exact ⟨List.nodup_iff_count_le_one.mp sound.nodup o, flagged⟩

theorem view_setEvent (known : (s.func o).isSome) (e : NgxEventT) (tree : List Nat) :
    view { s with timers := { s.timers.setEvent o e with tree } } =
      { s.view.setEvent o e with tree } := by
  have shown : (fun p => if (s.func p).isSome then Function.update s.timers.events o e p
      else {}) = Function.update s.view.events o e := by
    funext p
    by_cases same : p = o
    · subst same
      simp [known]
    · simp [view, same]
  exact congrArg (fun events => (⟨events, tree, s.timers.currentMsec⟩ : Timers)) shown

theorem view_ngxDelTimer (known : (s.func o).isSome) :
    view { s with timers := s.timers.ngxDelTimer o } = s.view.ngxDelTimer o := by
  simp only [Timers.ngxDelTimer, view_setEvent known, view_events known]
  rfl

theorem view_insertTimer (known : (s.func o).isSome) (key : UInt64) :
    view { s with timers := s.timers.insertTimer o key } = s.view.insertTimer o key := by
  simp only [Timers.insertTimer, view_setEvent known, view_events known]
  rfl

theorem view_expireTimer (known : (s.func o).isSome) :
    view { s with timers := s.timers.expireTimer o } = s.view.expireTimer o := by
  simp only [Timers.expireTimer, view_setEvent known, view_events known]
  rfl

theorem view_start (known : (s.func o).isSome) (ms : UInt64) :
    view (NgxTimerEv.start s o ms) = s.view.ngxAddTimer o ms := by
  have deleted := view_insertTimer (s := { s with timers := s.timers.ngxDelTimer o }) known
    (s.timers.currentMsec + ms)
  rw [view_ngxDelTimer known] at deleted
  have inserted := view_insertTimer known (s.timers.currentMsec + ms)
  have now : s.view.currentMsec = s.timers.currentMsec := rfl
  simp only [NgxTimerEv.start, Timers.ngxAddTimer, view_events known, now]
  split
  · split
    · rfl
    · exact deleted
  · exact inserted

/-- The object after `memzero`, before its timer is started. -/
def wiped (s : NgxTimerEvs F) (o : Nat) (f : F) : NgxTimerEvs F where
  func := Function.update s.func o (some f)
  timers := s.timers.setEvent o { data := some o }

theorem wiped_known : ((s.wiped o f).func o).isSome := by
  simp [wiped]

theorem view_wiped : (s.wiped o f).view = s.view.setEvent o { data := some o } := by
  have shown : (s.wiped o f).view.events = Function.update s.view.events o { data := some o } := by
    funext p
    by_cases same : p = o
    · subst same
      simp [view, wiped]
    · simp [view, wiped, Timers.setEvent, same]
  exact congrArg (fun events => (⟨events, s.timers.tree, s.timers.currentMsec⟩ : Timers)) shown

theorem init_eq : NgxTimerEv.init s o f ms =
    if NgxValue.invalid ms then s.wiped o f else NgxTimerEv.start (s.wiped o f) o ms := rfl

/-- An object that is not pending may be initialised. -/
theorem sound_init (sound : s.view.Sound) (idle : o ∉ s.timers.tree) (f : F) (ms : UInt64) :
    (NgxTimerEv.init s o f ms).view.Sound := by
  have clean : (s.wiped o f).view.Sound := by
    rw [view_wiped]
    exact sound.setEvent (sound.not_flagged idle).symm
  rw [init_eq]
  split
  · exact clean
  · rw [view_start wiped_known]
    exact (clean.ngxAddTimer o ms).1

theorem untracked_init (pending : o ∈ s.timers.tree) (f : F) (ms : UInt64) :
    ¬ (NgxTimerEv.init s o f ms).Tracked := by
  intro tracked
  by_cases given : ms = ngxNil
  · have unset : NgxTimerEv.init s o f ms = s.wiped o f := by
      rw [init_eq, if_pos (NgxValue.invalid_iff.mpr given)]
    rw [unset] at tracked
    have flagged := (tracked o wiped_known).2.mp pending
    simp [wiped] at flagged
  · have known : ((NgxTimerEv.init s o f ms).func o).isSome := by
      simp [NgxTimerEv.init_func]
    have once := (tracked o known).1
    have twice := List.count_pos_iff.mpr pending
    rw [NgxTimerEv.init_tree given, List.count_cons_self] at once
    omega

def Addressed (s : NgxTimerEvs F) : Prop :=
  ∀ o, (s.func o).isSome → (s.timers.events o).data = some o

theorem data_setEvent {t : Timers} {e : NgxEventT} (kept : e.data = (t.events o).data) (p : Nat) :
    ((t.setEvent o e).events p).data = (t.events p).data := by
  by_cases same : p = o
  · subst same
    rw [Timers.setEvent_self, kept]
  · rw [Timers.setEvent_of_ne same]

theorem data_ngxDelTimer (t : Timers) (o p : Nat) :
    ((t.ngxDelTimer o).events p).data = (t.events p).data :=
  data_setEvent (e := { t.events o with timerSet := false }) rfl p

theorem data_insertTimer (t : Timers) (o : Nat) (key : UInt64) (p : Nat) :
    ((t.insertTimer o key).events p).data = (t.events p).data :=
  data_setEvent (e := { t.events o with key, timerSet := true }) rfl p

theorem data_expireTimer (t : Timers) (o p : Nat) :
    ((t.expireTimer o).events p).data = (t.events p).data :=
  data_setEvent (e := { t.events o with timerSet := false, timedout := true }) rfl p

theorem data_ngxAddTimer (t : Timers) (o : Nat) (ms : UInt64) (p : Nat) :
    ((t.ngxAddTimer o ms).events p).data = (t.events p).data := by
  unfold Timers.ngxAddTimer
  dsimp only
  split
  · split
    · rfl
    · rw [data_insertTimer, data_ngxDelTimer]
  · exact data_insertTimer ..

theorem addressed_wiped (addressed : s.Addressed) : (s.wiped o f).Addressed := by
  intro p known
  by_cases same : p = o
  · subst same
    simp [wiped]
  · have old : (s.wiped o f).func p = s.func p := Function.update_of_ne same ..
    rw [old] at known
    rw [← addressed p known]
    exact congrArg NgxEventT.data (Timers.setEvent_of_ne same)

theorem call_expired (addressed : s.Addressed) (known : (s.func o).isSome) :
    NgxTimerCaller.call { s with timers := s.timers.expireTimer o } o = some (s.func o) := by
  simp [NgxTimerCaller.call, Timers.expireTimer, Timers.setEvent, addressed o known]

end NgxTimerEvs

namespace TimerEvInput

def step (s : NgxTimerEvs F) : TimerEvInput F → NgxTimerEvs F
  | init o f ms => NgxTimerEv.init s o f ms
  | start o ms => NgxTimerEv.start s o ms
  | clear o => NgxTimerEv.clear s o
  | expire o => { s with timers := s.timers.expireTimer o }
  | tick msec => { s with timers := { s.timers with currentMsec := msec } }

/-- Objects are initialised before they are started or cleared, and a timer expires
while its node is in the tree. -/
def Allowed (s : NgxTimerEvs F) : TimerEvInput F → Prop
  | start o _ => (s.func o).isSome
  | clear o => (s.func o).isSome
  | expire o => o ∈ s.timers.tree
  | _ => True

def InitsIdle (s : NgxTimerEvs F) : TimerEvInput F → Prop
  | init o _ _ => o ∉ s.timers.tree
  | _ => True

instance (s : NgxTimerEvs F) : (i : TimerEvInput F) → Decidable (i.Allowed s)
  | start o _ => inferInstanceAs (Decidable ((s.func o).isSome = true))
  | clear o => inferInstanceAs (Decidable ((s.func o).isSome = true))
  | expire o => inferInstanceAs (Decidable (o ∈ s.timers.tree))
  | init _ _ _ | tick _ => inferInstanceAs (Decidable True)

instance (s : NgxTimerEvs F) : (i : TimerEvInput F) → Decidable (i.InitsIdle s)
  | init o _ _ => inferInstanceAs (Decidable (o ∉ s.timers.tree))
  | start _ _ | clear _ | expire _ | tick _ => inferInstanceAs (Decidable True)

variable {s : NgxTimerEvs F}

theorem step_sound (sound : s.view.Sound) {i : TimerEvInput F} (allowed : i.Allowed s)
    (idle : i.InitsIdle s) : (i.step s).view.Sound := by
  cases i with
  | init o f ms => exact NgxTimerEvs.sound_init sound idle f ms
  | start o ms =>
    rw [step, NgxTimerEvs.view_start allowed]
    exact (sound.ngxAddTimer o ms).1
  | clear o =>
    rw [step, NgxTimerEv.clear]
    split
    · rw [NgxTimerEvs.view_ngxDelTimer allowed]
      exact sound.ngxDelTimer
    · exact sound
  | expire o =>
    have known : (s.func o).isSome := by
      by_contra unknown
      have flagged := (sound.flagged o).mp allowed
      simp [NgxTimerEvs.view, unknown] at flagged
    rw [step, NgxTimerEvs.view_expireTimer known]
    exact sound.expireTimer
  | tick msec => exact ⟨sound.nodup, sound.flagged⟩

theorem tracked_iff (sound : s.view.Sound) {i : TimerEvInput F} (allowed : i.Allowed s) :
    (i.step s).Tracked ↔ i.InitsIdle s := by
  constructor
  · intro tracked
    cases i with
    | init o f ms => exact fun pending => NgxTimerEvs.untracked_init pending f ms tracked
    | _ => trivial
  · exact fun idle => NgxTimerEvs.tracked_of_sound (step_sound sound allowed idle)

theorem step_addressed (addressed : s.Addressed) (i : TimerEvInput F) :
    (i.step s).Addressed := by
  have started : ∀ {s : NgxTimerEvs F} (o : Nat) (ms : UInt64), s.Addressed →
      (NgxTimerEv.start s o ms).Addressed := fun o ms addressed p known =>
    (NgxTimerEvs.data_ngxAddTimer _ o ms p).trans (addressed p known)
  cases i with
  | init o f ms =>
    rw [step, NgxTimerEvs.init_eq]
    split
    · exact NgxTimerEvs.addressed_wiped addressed
    · exact started o ms (NgxTimerEvs.addressed_wiped addressed)
  | start o ms => exact started o ms addressed
  | clear o =>
    rw [step, NgxTimerEv.clear]
    split
    · exact fun p known => (NgxTimerEvs.data_ngxDelTimer _ o p).trans (addressed p known)
    · exact addressed
  | expire o =>
    exact fun p known => (NgxTimerEvs.data_expireTimer _ o p).trans (addressed p known)
  | tick msec => exact addressed

/-- Along a run, whatever was started or cleared before, an expiry enters the function
that its object was last initialised with. -/
theorem expiries_call (addressed : s.Addressed) (is : List (TimerEvInput F)) :
    Along step (fun s i => ∀ o, i = .expire o → (s.func o).isSome →
      NgxTimerCaller.call (i.step s) o = some (s.func o)) s is := by
  have every : Along step (fun _ _ => True) s is := (along_forall step s).mpr fun _ _ => trivial
  have kept : ∀ (s : NgxTimerEvs F) i, s.Addressed → True → (step s i).Addressed :=
    fun _ i addressed _ => step_addressed addressed i
  refine every.of_invariant kept ?_ addressed
  rintro s i addressed - o rfl known
  exact NgxTimerEvs.call_expired addressed known

end TimerEvInput

/-- From objects of which none is initialised, whatever their memory holds: in every
state of a run the tree and the flags agree exactly when no pending object was
initialised. -/
theorem timer_events_tracked_iff (events : Nat → NgxEventT) (currentMsec : UInt64)
    {is : List (TimerEvInput F)}
    (allowed : Along TimerEvInput.step TimerEvInput.Allowed
      { timers := { events, currentMsec } } is) :
    Along TimerEvInput.step (fun s i => (i.step s).Tracked)
        { timers := { events, currentMsec } } is ↔
      Along TimerEvInput.step TimerEvInput.InitsIdle { timers := { events, currentMsec } } is := by
  refine along_congr_kept (fun s : NgxTimerEvs F => s.view.Sound) ?_ ?_ ?_ allowed
  · exact fun s i sound allowed idle => TimerEvInput.step_sound sound allowed idle
  · exact fun s i sound allowed => TimerEvInput.tracked_iff sound allowed
  · exact ⟨List.nodup_nil, by simp [NgxTimerEvs.view]⟩

/-- Timers that expired or were cleared are armed again. -/
theorem timer_events_tracked_rearmed :
    Along TimerEvInput.step (fun s i => (i.step s).Tracked)
      { timers := { events := fun _ => { timerSet := true } } }
      [.init 0 'f' 5, .init 1 'g' ngxNil, .start 1 9, .expire 0, .start 0 7, .start 0 900,
        .clear 1, .init 1 'h' 3] :=
  (timer_events_tracked_iff _ _ (by decide)).mpr (by decide)

/-- An object is initialised again while its timer is pending: its flag is lost. -/
theorem timer_events_lost :
    ¬ Along TimerEvInput.step (fun s i => (i.step s).Tracked) {}
      [.init 0 'f' 5, .init 0 'f' ngxNil] := by
  rintro ⟨-, tracked, -⟩
  exact NgxTimerEvs.untracked_init (by decide) 'f' ngxNil tracked

end NgxCpp
