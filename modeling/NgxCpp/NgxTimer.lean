import NgxCpp.NgxEvent

/-! `NgxTimerEv` and the pool of timer objects behind `NgxTimer::add`. Object
`o` embeds event `o`. A callback runs between the step that enters it and the
step in which it returns, and anything may happen in between. -/

namespace NgxCpp
open Foundation

variable {F : Type}

/-- Timer objects: their events and their `m_func`. -/
structure NgxTimerEvs (F : Type) where
  timers : Timers := {}
  func : Nat → Option F := fun _ => none

namespace NgxTimerEv

def start (s : NgxTimerEvs F) (o : Nat) (ms : UInt64) : NgxTimerEvs F :=
  { s with timers := s.timers.ngxAddTimer o ms }

def init (s : NgxTimerEvs F) (o : Nat) (f : F) (ms : UInt64 := ngxNil) : NgxTimerEvs F :=
  let s : NgxTimerEvs F :=
    { func := Function.update s.func o (some f)
      timers := s.timers.setEvent o { data := some o } }
  if NgxValue.invalid ms then s else start s o ms

theorem init_tree {s : NgxTimerEvs F} {o : Nat} {f : F} {ms : UInt64} (given : ms ≠ ngxNil) :
    (init s o f ms).timers.tree = o :: s.timers.tree := by
  have valid : NgxValue.invalid ms = false := by
    simpa [← NgxValue.invalid_iff] using given
  simp [init, valid, start, Timers.ngxAddTimer, Timers.insertTimer, Timers.setEvent]

theorem init_func {s : NgxTimerEvs F} {o : Nat} {f : F} {ms : UInt64} :
    (init s o f ms).func = Function.update s.func o (some f) := by
  unfold init
  split <;> rfl

theorem init_data {s : NgxTimerEvs F} {o : Nat} {f : F} {ms : UInt64} (given : ms ≠ ngxNil)
    (p : Nat) : ((init s o f ms).timers.events p).data =
      if p = o then some o else (s.timers.events p).data := by
  have valid : NgxValue.invalid ms = false := by
    simpa [← NgxValue.invalid_iff] using given
  by_cases same : p = o
  · subst same
    simp [init, valid, start, Timers.ngxAddTimer, Timers.insertTimer, Timers.setEvent]
  · simp [init, valid, start, Timers.ngxAddTimer, Timers.insertTimer, Timers.setEvent, same]

end NgxTimerEv

/-- The objects ever made, the free ones, those whose callbacks have not returned, the
innermost first, and the functions entered so far, each with its object. -/
structure NgxTimer (F : Type) where
  evs : NgxTimerEvs F := {}
  created : Nat := 0
  pool : List Nat := []
  running : List Nat := []
  calls : List (Nat × F) := []

namespace NgxTimer

def acquire (s : NgxTimer F) : Nat × NgxTimer F :=
  match s.pool with
  | [] => (s.created, { s with created := s.created + 1 })
  | o :: pool => (o, { s with pool })

def release (s : NgxTimer F) (o : Nat) : NgxTimer F := { s with pool := s.pool ++ [o] }

def add (s : NgxTimer F) (ms : UInt64) (f : F) : NgxTimer F :=
  let (o, s) := acquire s
  { s with evs := NgxTimerEv.init s.evs o f ms }

/-- `call` up to the entry of `m_func`. A null `data` and an empty `m_func` have
no next state. -/
def call (s : NgxTimer F) (ev : Nat) : Option (NgxTimer F) := do
  let o ← (s.evs.timers.events ev).data
  if (s.evs.timers.events o).timedout then
    let f ← s.evs.func o
    some { s with running := o :: s.running, calls := s.calls ++ [(o, f)] }
  else some (s.release o)

/-- `call` from the return of `m_func` on. -/
def callReturn (s : NgxTimer F) : Option (NgxTimer F) :=
  match s.running with
  | [] => none
  | o :: running => some (release { s with running } o)

def expire (s : NgxTimer F) (ev : Nat) : Option (NgxTimer F) :=
  call { s with evs := { s.evs with timers := s.evs.timers.expireTimer ev } } ev

/-- Every object made is in one place, once, and a pending one is ready to be called. -/
structure Safe (s : NgxTimer F) : Prop where
  places : (s.evs.timers.tree ++ s.running ++ s.pool).Perm (List.range s.created)
  armed : ∀ o ∈ s.evs.timers.tree, ∃ f, s.evs.func o = some f
  data : ∀ o ∈ s.evs.timers.tree, (s.evs.timers.events o).data = some o

variable {s t : NgxTimer F} {o ev : Nat} {ms : UInt64} {f : F}

theorem acquire_cases :
    (s.pool = [] ∧ s.acquire = (s.created, { s with created := s.created + 1 })) ∨
    ∃ o pool, s.pool = o :: pool ∧ s.acquire = (o, { s with pool }) := by
  unfold acquire
  cases found : s.pool with
  | nil => exact .inl ⟨rfl, rfl⟩
  | cons o pool => exact .inr ⟨o, pool, rfl, rfl⟩

theorem Safe.nodup (safe : s.Safe) : (s.evs.timers.tree ++ s.running ++ s.pool).Nodup :=
  safe.places.nodup_iff.mpr List.nodup_range

theorem Safe.tree_nodup (safe : s.Safe) : s.evs.timers.tree.Nodup := by
  have distinct := safe.nodup
  rw [List.append_assoc, List.nodup_append] at distinct
  exact distinct.1

theorem Safe.acquire (safe : s.Safe) : ∃ created pool, s.acquire.2 = { s with created, pool } ∧
    s.acquire.1 ∉ s.evs.timers.tree ∧
    (s.acquire.1 :: s.evs.timers.tree ++ s.running ++ pool).Perm (List.range created) := by
  obtain ⟨empty, taken⟩ | ⟨o, pool, found, taken⟩ := acquire_cases (s := s)
  · refine ⟨s.created + 1, s.pool, by rw [taken], ?_, ?_⟩
    · intro member
      have known := safe.places.subset (List.mem_append_left _ (List.mem_append_left _ member))
      rw [taken] at known
      simp at known
    · have places := safe.places.cons s.created
      rw [taken, List.range_succ]
      exact places.trans (List.perm_append_singleton ..).symm
  · refine ⟨s.created, pool, by rw [taken], ?_, ?_⟩
    · intro member
      have distinct := safe.nodup
      rw [found, List.nodup_append] at distinct
      rw [taken] at member
      exact distinct.2.2 o (List.mem_append_left _ member) o (by simp) rfl
    · have places := safe.places
      rw [found] at places
      rw [taken]
      exact List.perm_middle.symm.trans places

theorem Safe.add_eq (safe : s.Safe) (ms : UInt64) (f : F) : ∃ o created pool,
    s.add ms f = { s with evs := NgxTimerEv.init s.evs o f ms, created, pool } ∧
    o ∉ s.evs.timers.tree ∧
    (o :: s.evs.timers.tree ++ s.running ++ pool).Perm (List.range created) := by
  obtain ⟨created, pool, rest, absent, places⟩ := safe.acquire
  refine ⟨s.acquire.1, created, pool, ?_, absent, places⟩
  simp only [NgxTimer.add]
  rw [rest]

theorem Safe.add (safe : s.Safe) (given : ms ≠ ngxNil) (f : F) : (s.add ms f).Safe := by
  obtain ⟨o, created, pool, made, absent, places⟩ := safe.add_eq ms f
  rw [made]
  constructor
  · rw [NgxTimerEv.init_tree given]
    exact places
  · intro p member
    rw [NgxTimerEv.init_func]
    by_cases same : p = o
    · exact ⟨f, by simp [same]⟩
    · rw [NgxTimerEv.init_tree given] at member
      obtain ⟨g, func⟩ := safe.armed p ((List.mem_cons.mp member).resolve_left same)
      exact ⟨g, by simpa [same] using func⟩
  · intro p member
    rw [NgxTimerEv.init_tree given] at member
    rw [NgxTimerEv.init_data given]
    by_cases same : p = o
    · simp [same]
    · rw [if_neg same]
      exact safe.data p ((List.mem_cons.mp member).resolve_left same)

theorem Safe.expire_eq (safe : s.Safe) (member : ev ∈ s.evs.timers.tree)
    (func : s.evs.func ev = some f) : s.expire ev = some { s with
      evs := { s.evs with timers := s.evs.timers.expireTimer ev }
      running := ev :: s.running
      calls := s.calls ++ [(ev, f)] } := by
  simp [NgxTimer.expire, call, Timers.expireTimer, Timers.setEvent, safe.data ev member, func]

theorem Safe.expire (safe : s.Safe) (member : ev ∈ s.evs.timers.tree) :
    ∃ t, s.expire ev = some t ∧ t.Safe := by
  obtain ⟨f, func⟩ := safe.armed ev member
  refine ⟨_, safe.expire_eq member func, ?_, ?_, ?_⟩
  · refine List.Perm.trans ?_ safe.places
    simp only [Timers.expireTimer, List.append_assoc, List.cons_append]
    refine List.perm_middle.trans ?_
    exact (List.perm_cons_erase member).symm.append_right (s.running ++ s.pool)
  · intro o inside
    exact safe.armed o (List.mem_of_mem_erase inside)
  · intro o inside
    obtain ⟨different, before⟩ := safe.tree_nodup.mem_erase_iff.mp inside
    rw [← safe.data o before]
    exact congrArg NgxEventT.data (Timers.setEvent_of_ne different)

theorem Safe.callReturn (safe : s.Safe) (inside : s.running ≠ []) :
    ∃ t, s.callReturn = some t ∧ t.Safe := by
  obtain ⟨o, running, found⟩ := List.exists_cons_of_ne_nil inside
  have returned : s.callReturn = some (release { s with running } o) := by
    rw [NgxTimer.callReturn, found]
  refine ⟨_, returned, ?_, safe.armed, safe.data⟩
  refine List.Perm.trans ?_ safe.places
  rw [found]
  simp only [release, List.append_assoc]
  refine List.Perm.append_left _ ?_
  rw [← List.append_assoc]
  exact List.perm_append_singleton ..

theorem Safe.start : Safe ({} : NgxTimer F) :=
  ⟨.refl _, by simp, by simp⟩

end NgxTimer

/-- An `add` with the event that nginx's tree got from it, an expiry, and the return of
the innermost callback. -/
inductive TimerAct (F : Type) where
  | add (ms : UInt64) (f : F) (ev : Nat)
  | expire (ev : Nat)
  | callReturn
deriving Repr, DecidableEq

namespace TimerAct

def Step (s : NgxTimer F) : TimerAct F → NgxTimer F → Prop
  | add ms f ev, t => ms ≠ ngxNil ∧ s.add ms f = t ∧
    t.evs.timers.tree = ev :: s.evs.timers.tree
  | expire ev, t => ev ∈ s.evs.timers.tree ∧ s.expire ev = some t
  | callReturn, t => s.callReturn = some t

def added : TimerAct F → Option F
  | add _ f _ => some f
  | _ => none

def expired : TimerAct F → Option Nat
  | expire ev => some ev
  | _ => none

end TimerAct

/-- The purpose of `NgxTimer`: events stand for the functions they were armed with, and
the expiry of an event calls its function. -/
structure TimerSpec (F : Type) where
  pending : List (Nat × F) := []
  calls : List (Nat × F) := []

namespace TimerSpec

def step (a : TimerSpec F) : TimerAct F → TimerSpec F
  | .add _ f ev => { a with pending := (ev, f) :: a.pending }
  | .expire ev =>
    { pending := a.pending.filter fun armed => armed.1 ≠ ev
      calls := a.calls ++ a.pending.filter fun armed => armed.1 = ev }
  | .callReturn => a

def after (acts : List (TimerAct F)) : TimerSpec F := acts.foldl step {}

end TimerSpec

namespace NgxTimer

variable {s t : NgxTimer F} {acts : List (TimerAct F)} {a : TimerSpec F} {ev : Nat} {ms : UInt64}
  {f : F}

/-- The timers have done what the acts so far ask for: nginx holds the events of the pending
functions, each expiry called the function of its event, and of the functions given each is
pending or was called, once. -/
structure Serves (acts : List (TimerAct F)) (s : NgxTimer F) : Prop where
  pending : s.evs.timers.tree = (TimerSpec.after acts).pending.map Prod.fst
  called : s.calls = (TimerSpec.after acts).calls
  expired : s.calls.map Prod.fst = acts.filterMap TimerAct.expired
  given : (acts.filterMap TimerAct.added).Perm
    ((TimerSpec.after acts).pending.map Prod.snd ++ s.calls.map Prod.snd)

def Holds (s : NgxTimer F) (a : TimerSpec F) : Prop :=
  ∀ armed ∈ a.pending, s.evs.func armed.1 = some armed.2

theorem after_append (act : TimerAct F) :
    TimerSpec.after (acts ++ [act]) = (TimerSpec.after acts).step act := by
  rw [TimerSpec.after, List.foldl_append]
  rfl

theorem Holds.add (holds : s.Holds a) (safe : s.Safe) (tree : s.evs.timers.tree =
    a.pending.map Prod.fst) (given : ms ≠ ngxNil) (added : (s.add ms f).evs.timers.tree =
      ev :: s.evs.timers.tree) : (s.add ms f).Holds (a.step (.add ms f ev)) := by
  obtain ⟨o, created, pool, made, absent, -⟩ := safe.add_eq ms f
  have own : o = ev := by
    rw [made, NgxTimerEv.init_tree given] at added
    exact List.head_eq_of_cons_eq added
  subst own
  rintro armed member
  rw [made, NgxTimerEv.init_func]
  obtain rfl | before := List.mem_cons.mp member
  · simp
  · have apart : armed.1 ≠ o := by
      rintro rfl
      exact absent (tree ▸ List.mem_map_of_mem before)
    rw [Function.update_of_ne apart]
    exact holds armed before

theorem add_step (given : ms ≠ ngxNil) (f : F) :
    TimerAct.Step s (.add ms f s.acquire.1) (s.add ms f) := by
  refine ⟨given, rfl, ?_⟩
  obtain ⟨empty, taken⟩ | ⟨o, pool, found, taken⟩ := acquire_cases (s := s) <;>
    simp only [NgxTimer.add, taken, NgxTimerEv.init_tree given]

theorem pending_expired {pending : List (Nat × F)} (distinct : (pending.map Prod.fst).Nodup)
    {armed : Nat × F} (member : armed ∈ pending) :
    (pending.filter fun p => p.1 = armed.1) = [armed] ∧
      pending.Perm (armed :: pending.filter fun p => p.1 ≠ armed.1) ∧
      (pending.filter fun p => p.1 ≠ armed.1).map Prod.fst =
        (pending.map Prod.fst).erase armed.1 := by
  induction pending with
  | nil => cases member
  | cons p pending ih =>
    obtain ⟨absent, distinct⟩ := List.nodup_cons.mp distinct
    by_cases same : p.1 = armed.1
    · have others : ∀ q ∈ pending, q.1 ≠ armed.1 := by
        rintro q inside equal
        rw [same, ← equal] at absent
        exact absent (List.mem_map_of_mem inside)
      obtain rfl | before := List.mem_cons.mp member
      · simp +contextual [List.filter_eq_self.mpr, List.filter_eq_nil_iff.mpr, others]
      · exact absurd rfl (others armed before)
    · have before := (List.mem_cons.mp member).resolve_left fun equal => same (by rw [equal])
      obtain ⟨one, perm, rest⟩ := ih distinct before
      refine ⟨?_, ?_, ?_⟩
      · rw [List.filter_cons_of_neg (by simpa using same), one]
      · rw [List.filter_cons_of_pos (by simpa using same)]
        exact (perm.cons p).trans (.swap ..)
      · rw [List.filter_cons_of_pos (by simpa using same), List.map_cons, List.map_cons, rest,
          List.erase_cons_tail (by simpa using same)]

theorem Serves.add (serves : Serves acts s) (added : (s.add ms f).evs.timers.tree =
    ev :: s.evs.timers.tree) (calls : (s.add ms f).calls = s.calls) :
    Serves (acts ++ [.add ms f ev]) (s.add ms f) := by
  refine ⟨?_, ?_, ?_, ?_⟩
  · rw [after_append, added, serves.pending]
    rfl
  · rw [after_append, calls, serves.called]
    rfl
  · rw [calls, serves.expired, List.filterMap_append]
    exact (List.append_nil _).symm
  · rw [after_append, calls, List.filterMap_append]
    refine (List.perm_append_comm).trans ?_
    exact serves.given.cons f

theorem Serves.expire (serves : Serves acts s) (safe : s.Safe)
    (holds : s.Holds (TimerSpec.after acts)) (member : ev ∈ s.evs.timers.tree)
    (expired : s.expire ev = some t) :
    Serves (acts ++ [.expire ev]) t ∧ t.Holds ((TimerSpec.after acts).step (.expire ev)) := by
  have distinct := safe.tree_nodup
  rw [serves.pending] at distinct member
  obtain ⟨armed, inside, rfl⟩ := List.mem_map.mp member
  obtain ⟨one, split, rest⟩ := pending_expired distinct inside
  rw [safe.expire_eq (serves.pending ▸ member) (holds armed inside)] at expired
  obtain rfl := Option.some.inj expired
  refine ⟨⟨?_, ?_, ?_, ?_⟩, ?_⟩
  · rw [after_append]
    simp only [TimerSpec.step, Timers.expireTimer, rest, serves.pending]
  · rw [after_append]
    simp only [TimerSpec.step, one, serves.called]
  · simp only [List.map_append, serves.expired, List.filterMap_append]
    rfl
  · rw [after_append]
    simp only [List.filterMap_append, List.map_append, TimerSpec.step]
    rw [show [TimerAct.expire armed.1].filterMap TimerAct.added = ([] : List F) from rfl,
      List.append_nil]
    refine serves.given.trans ?_
    refine ((split.map Prod.snd).append_right _).trans ?_
    rw [← List.append_assoc]
    exact (List.perm_append_singleton ..).symm
  · rintro other kept
    exact holds other (List.mem_of_mem_filter kept)

/-- What carries the run: every object in its place, and every function where it belongs. -/
def Invariant (acts : List (TimerAct F)) (s : NgxTimer F) : Prop :=
  s.Safe ∧ Serves acts s ∧ s.Holds (TimerSpec.after acts)

theorem Invariant.step {act : TimerAct F} (inv : Invariant acts s) (step : act.Step s t) :
    Invariant (acts ++ [act]) t := by
  obtain ⟨safe, serves, holds⟩ := inv
  rw [Invariant, after_append]
  cases act with
  | add ms f ev =>
    obtain ⟨given, rfl, added⟩ := step
    obtain ⟨o, created, pool, made, -⟩ := safe.add_eq ms f
    have calls : (s.add ms f).calls = s.calls := by rw [made]
    exact ⟨safe.add given f, serves.add added calls, holds.add safe serves.pending given added⟩
  | expire ev =>
    obtain ⟨member, expired⟩ := step
    obtain ⟨t', expired', kept⟩ := safe.expire member
    obtain rfl := Option.some.inj (expired.symm.trans expired')
    exact ⟨kept, serves.expire safe holds member expired⟩
  | callReturn =>
    have inside : s.running ≠ [] := by
      rintro none
      rw [TimerAct.Step, NgxTimer.callReturn, none] at step
      cases step
    obtain ⟨t', returned, kept⟩ := safe.callReturn inside
    obtain rfl := Option.some.inj (step.symm.trans returned)
    obtain ⟨o, running, found⟩ := List.exists_cons_of_ne_nil inside
    rw [TimerAct.Step, NgxTimer.callReturn, found] at step
    obtain rfl := Option.some.inj step
    refine ⟨kept, ⟨?_, ?_, ?_, ?_⟩, holds⟩
    · rw [after_append]
      exact serves.pending
    · rw [after_append]
      exact serves.called
    · rw [List.filterMap_append]
      exact serves.expired.trans (List.append_nil _).symm
    · rw [after_append, List.filterMap_append]
      exact (List.append_nil (acts.filterMap TimerAct.added)).symm ▸ serves.given

end NgxTimer

/-- In every run of adds, expirations and returns every object is pending, running
or free, every expiry calls the function given to the add that armed its event, and no
step is stuck. -/
theorem timer_pool_safe {s : NgxTimer F} {acts : List (TimerAct F)}
    (run : Run TimerAct.Step {} acts s) :
    (s.evs.timers.tree ++ s.running ++ s.pool).Perm (List.range s.created) ∧ s.Serves acts ∧
      (∀ ms f, ms ≠ ngxNil → ∃ ev t, TimerAct.Step s (.add ms f ev) t) ∧
      (∀ ev ∈ s.evs.timers.tree, ∃ t, TimerAct.Step s (.expire ev) t) ∧
      (s.running ≠ [] → ∃ t, TimerAct.Step s .callReturn t) := by
  obtain ⟨safe, serves, -⟩ : NgxTimer.Invariant acts s :=
    run.history NgxTimer.Invariant (fun _ _ _ _ inv step => inv.step step)
      ⟨.start, ⟨rfl, rfl, rfl, .nil⟩, nofun⟩
  refine ⟨safe.places, serves, fun ms f given => ?_, fun ev member => ?_, fun inside => ?_⟩
  · exact ⟨_, _, NgxTimer.add_step given f⟩
  · obtain ⟨t, expired, -⟩ := safe.expire member
    exact ⟨t, member, expired⟩
  · obtain ⟨t, returned, -⟩ := safe.callReturn inside
    exact ⟨t, returned⟩

/-- A callback adds a timer while its own object is not free yet; the next add after its
return reuses that object. -/
theorem timer_pool_safe_reentrant : ∃ s : NgxTimer Nat,
    s.Serves [.add 5 7 0, .expire 0, .add 9 8 1, .callReturn, .add 4 6 0] ∧
    s.evs.timers.tree = [0, 1] ∧ s.calls = [(0, 7)] ∧ s.running = [] ∧ s.pool = [] ∧
    ∃ t, TimerAct.Step s (.expire 1) t := by
  have safe : (NgxTimer.add {} 5 7 : NgxTimer Nat).Safe := NgxTimer.Safe.start.add (by decide) 7
  have member : 0 ∈ (NgxTimer.add {} 5 7 : NgxTimer Nat).evs.timers.tree := by decide +kernel
  have entered := safe.expire_eq (f := 7) member (by decide +kernel)
  obtain ⟨s, run, tree, calls, running, pool⟩ : ∃ s : NgxTimer Nat, Run TimerAct.Step {}
      [.add 5 7 0, .expire 0, .add 9 8 1, .callReturn, .add 4 6 0] s ∧
      s.evs.timers.tree = [0, 1] ∧ s.calls = [(0, 7)] ∧ s.running = [] ∧ s.pool = [] := by
    refine ⟨_, .cons (NgxTimer.add_step (by decide) 7) <| .cons ⟨member, entered⟩ <|
      .cons (NgxTimer.add_step (by decide) 8) <| .cons rfl <|
      .cons (NgxTimer.add_step (by decide) 6) <| .nil _, ?_, ?_, ?_, ?_⟩ <;> decide +kernel
  obtain ⟨-, serves, -, expires, -⟩ := timer_pool_safe run
  exact ⟨s, serves, tree, calls, running, pool, expires 1 (by simp [tree])⟩

end NgxCpp
