import NgxCpp.NdgHandlers

/-! The timers that the test handler leaves behind: a request arms one, and its function arms
another each time it is called. -/

namespace NgxCpp
open Foundation

namespace NdgTestHandler

/-- A program that asks the pool: it returns, or it throws the default code, and changes the
pool's answers only. -/
def Asks (x : Ngx TestWorld Unit) : Prop :=
  ∀ w, ∃ grants, x w = .ok () { w with grants } ∨ x w = .raised ⟨ngxError⟩ { w with grants }

def Arms (x : Ngx TestWorld Int) : Prop :=
  ∀ w, ∃ grants, x w = .ok ngxDeclined ⟨grants, w.timers.add 2000 .timerCall⟩ ∨
    x w = .raised ⟨ngxError⟩ { w with grants }

theorem asks_ask : Asks ask := by
  intro w
  have asked : NgxPool.nalloc w.grants = if granted w.grants = true then .ok () w.grants.tail
      else .raised ⟨ngxError⟩ w.grants.tail := by
    change (NgxException.requireCond (granted w.grants) >>= fun _ => pure ()) w.grants.tail = _
    cases granted w.grants <;> rfl
  refine ⟨w.grants.tail, ?_⟩
  rw [ask, Exec.zoom, asked]
  cases granted w.grants with
  | true => exact .inl rfl
  | false => exact .inr rfl

theorem Asks.bind {x y : Ngx TestWorld Unit} (first : Asks x) (rest : Asks y) :
    Asks (x >>= fun _ => y) := by
  intro w
  obtain ⟨grants, ok | raised⟩ := first w
  · obtain ⟨grants', left⟩ := rest { w with grants }
    rw [Exec.bind_ok _ ok]
    exact ⟨grants', left⟩
  · exact ⟨grants, .inr (Exec.bind_raised _ raised)⟩

theorem asks_each {α : Type} (as : List α) : Asks (Exec.each (fun _ => ask) as) := by
  induction as with
  | nil => exact fun w => ⟨w.grants, .inl rfl⟩
  | cons a as ih => exact asks_ask.bind ih

theorem Asks.arms {x : Ngx TestWorld Unit} {y : Ngx TestWorld Int} (first : Asks x)
    (rest : Arms y) : Arms (x >>= fun _ => y) := by
  intro w
  obtain ⟨grants, ok | raised⟩ := first w
  · obtain ⟨grants', left⟩ := rest { w with grants }
    rw [Exec.bind_ok _ ok]
    exact ⟨grants', left⟩
  · exact ⟨grants, .inr (Exec.bind_raised _ raised)⟩

theorem arms_timer : Arms (timer >>= fun _ => pure ngxDeclined) :=
  fun w => ⟨w.grants, .inl rfl⟩

theorem handler_timers {conf : NdgTestConf} {w left : TestWorld} {rc : Int}
    (done : handler conf w = .ok rc left) : left.timers =
      if conf.enabled ≠ 0 ∧ rc = ngxDeclined then w.timers.add 2000 .timerCall else w.timers := by
  by_cases enabled : conf.enabled = 0
  · rw [handler, Exec.catching, if_pos enabled] at done
    cases done
    rw [if_neg fun both => both.1 enabled]
  · rw [handler, if_neg enabled] at done
    have body : Arms (do array; list; buf; codec; escape; timer; pure ngxDeclined) :=
      (asks_each _).arms <| (asks_each _).arms <| (asks_each _).arms <| asks_ask.arms <|
        (asks_each _).arms arms_timer
    obtain ⟨grants, ok | raised⟩ := body w
    · rw [Exec.catching_ok _ ok] at done
      cases done
      rw [if_pos ⟨enabled, rfl⟩]
    · rw [Exec.catching_raised _ raised] at done
      cases done
      rw [if_neg fun both => absurd both.2 (by decide)]

end NdgTestHandler

/-- What a worker's timers see: a request to the test location, with the pool's answers and
what the handler returns, and the expiry of a timer. -/
inductive TestAct where
  | request (conf : NdgTestConf) (grants : PoolAnswers) (rc : Int)
  | expire (ev : Nat)
deriving Repr, DecidableEq

namespace TestAct

/-- The function of an expired timer runs between the two parts of `NgxTimer::call`. -/
def Step (s : NgxTimer TimerFunc) : TestAct → NgxTimer TimerFunc → Prop
  | request conf grants rc, t =>
    ∃ left, NdgTestHandler.handler conf ⟨grants, s⟩ = .ok rc left ∧ left.timers = t
  | expire ev, t => ev ∈ s.evs.timers.tree ∧ ∃ entered called, s.expire ev = some entered ∧
    NdgTestHandler.timerCall entered = .ok () called ∧ called.callReturn = some t

def Served : TestAct → Prop
  | request conf _ rc => conf.enabled ≠ 0 ∧ rc = ngxDeclined
  | expire _ => False

instance : (act : TestAct) → Decidable act.Served
  | request conf _ rc => inferInstanceAs (Decidable (conf.enabled ≠ 0 ∧ rc = ngxDeclined))
  | expire _ => inferInstanceAs (Decidable False)

end TestAct

namespace NgxTimer

variable {F : Type} {s t : NgxTimer F}

structure Steady (s : NgxTimer F) : Prop where
  safe : s.Safe
  returned : s.running = []
  spare : s.pool.length ≤ 1

theorem add_parts (s : NgxTimer F) {ms : UInt64} (given : ms ≠ ngxNil) (f : F) :
    (s.add ms f).running = s.running ∧ (s.add ms f).pool = s.pool.tail ∧
      (s.add ms f).evs.timers.tree.length = s.evs.timers.tree.length + 1 := by
  obtain ⟨empty, taken⟩ | ⟨o, pool, found, taken⟩ := acquire_cases (s := s)
  · simp only [NgxTimer.add, taken, NgxTimerEv.init_tree given, empty, List.length_cons,
      List.tail_nil, and_self]
  · simp only [NgxTimer.add, taken, NgxTimerEv.init_tree given, found, List.length_cons,
      List.tail_cons, and_self]

theorem expire_parts (safe : s.Safe) {ev : Nat} (member : ev ∈ s.evs.timers.tree)
    (entered : s.expire ev = some t) : t.running = ev :: s.running ∧ t.pool = s.pool ∧
      t.evs.timers.tree = s.evs.timers.tree.erase ev := by
  obtain ⟨f, func⟩ := safe.armed ev member
  obtain rfl := Option.some.inj ((safe.expire_eq member func).symm.trans entered)
  exact ⟨rfl, rfl, rfl⟩

theorem Steady.start : Steady ({} : NgxTimer F) := ⟨.start, rfl, Nat.zero_le 1⟩

theorem Steady.add (steady : s.Steady) {ms : UInt64} (given : ms ≠ ngxNil) (f : F) :
    (s.add ms f).Steady := by
  obtain ⟨returned, spare, -⟩ := s.add_parts given f
  refine ⟨steady.safe.add given f, returned.trans steady.returned, ?_⟩
  rw [spare, List.length_tail]
  exact Nat.le_trans (Nat.sub_le ..) steady.spare

theorem Steady.rearm (steady : s.Steady) {ev : Nat} (member : ev ∈ s.evs.timers.tree) {ms : UInt64}
    (given : ms ≠ ngxNil) (f : F) : ∃ entered t, s.expire ev = some entered ∧
      (entered.add ms f).callReturn = some t ∧ t.Steady ∧
        t.evs.timers.tree.length = s.evs.timers.tree.length := by
  obtain ⟨entered, expired, safe⟩ := steady.safe.expire member
  obtain ⟨running, pool, tree⟩ := expire_parts steady.safe member expired
  obtain ⟨running', pool', tree'⟩ := entered.add_parts given f
  have inside : (entered.add ms f).running = [ev] := by rw [running', running, steady.returned]
  obtain ⟨t, returned, kept⟩ := (safe.add given f).callReturn (by simp [inside])
  have left : t = release { entered.add ms f with running := [] } ev := by
    rw [callReturn, inside] at returned
    exact (Option.some.inj returned).symm
  have nonempty := List.length_pos_of_mem member
  refine ⟨entered, t, expired, returned, ⟨kept, by rw [left]; rfl, ?_⟩, ?_⟩
  · have before := steady.spare
    have after : t.pool = s.pool.tail ++ [ev] := by rw [left, ← pool, ← pool']; rfl
    rw [after, List.length_append, List.length_tail, List.length_singleton]
    omega
  · have after : t.evs.timers.tree = (entered.add ms f).evs.timers.tree := by rw [left]; rfl
    rw [after, tree', tree, List.length_erase_of_mem member]
    omega

theorem Steady.created (steady : s.Steady) :
    s.created = s.evs.timers.tree.length + s.pool.length := by
  have places := steady.safe.places.length_eq
  simpa [steady.returned] using places.symm

end NgxTimer

namespace TestAct

variable {s t : NgxTimer TimerFunc} {act : TestAct} {acts : List TestAct}

theorem Step.steady (step : act.Step s t) (steady : s.Steady) : t.Steady ∧
    t.evs.timers.tree.length = s.evs.timers.tree.length + if act.Served then 1 else 0 := by
  cases act with
  | request conf grants rc =>
    obtain ⟨left, done, rfl⟩ := step
    have nonNil : (2000 : UInt64) ≠ ngxNil := by decide
    rw [NdgTestHandler.handler_timers done]
    by_cases served : conf.enabled ≠ 0 ∧ rc = ngxDeclined
    · rw [if_pos served, if_pos (show (request conf grants rc).Served from served)]
      exact ⟨steady.add nonNil _, (s.add_parts nonNil _).2.2⟩
    · rw [if_neg served, if_neg (show ¬ (request conf grants rc).Served from served)]
      exact ⟨steady, rfl⟩
  | expire ev =>
    obtain ⟨member, entered, called, expired, ran, returned⟩ := step
    obtain ⟨entered', t', expired', returned', kept, same⟩ :=
      steady.rearm member (by decide : (1000 : UInt64) ≠ ngxNil) .timerCall
    obtain rfl := Option.some.inj (expired.symm.trans expired')
    cases ran
    obtain rfl := Option.some.inj (returned.symm.trans returned')
    exact ⟨kept, same⟩

end TestAct

/-- The timers of the test handler over all the life of a worker: as many are pending as
requests were served, none ever ends, and a pending timer can always expire; however many
times they do, no more objects are made than there are timers, and one. -/
theorem test_timers_steady {s : NgxTimer TimerFunc} {acts : List TestAct}
    (run : Run (fun s act t => TestAct.Step s act t) {} acts s) :
    s.evs.timers.tree.length = acts.countP (fun act => act.Served) ∧
      s.created ≤ acts.countP (fun act => act.Served) + 1 ∧
      ∀ ev ∈ s.evs.timers.tree, ∃ t, TestAct.Step s (.expire ev) t := by
  obtain ⟨steady, pending⟩ : s.Steady ∧
      s.evs.timers.tree.length = acts.countP fun act => act.Served := by
    refine run.history (fun acts s => s.Steady ∧
      s.evs.timers.tree.length = acts.countP fun act => act.Served) ?_ ⟨.start, rfl⟩
    rintro acts s act t ⟨steady, pending⟩ step
    obtain ⟨kept, grown⟩ := step.steady steady
    refine ⟨kept, ?_⟩
    rw [grown, pending, List.countP_append, List.countP_singleton]
    simp only [decide_eq_true_eq]
  refine ⟨pending, ?_, fun ev member => ?_⟩
  · rw [← pending, steady.created]
    exact Nat.add_le_add_left steady.spare _
  · obtain ⟨entered, t, expired, returned, -⟩ :=
      steady.rearm member (by decide : (1000 : UInt64) ≠ ngxNil) .timerCall
    exact ⟨t, member, entered, _, expired, rfl, returned⟩

/-- A request is served, its timer expires once, and another request is served. -/
theorem test_timers_steady_two : ∃ s : NgxTimer TimerFunc, s.evs.timers.tree.length = 2 ∧
    s.created ≤ 3 := by
  have served : ∀ s, TestAct.Step s (.request ⟨1⟩ [] ngxDeclined) (s.add 2000 .timerCall) :=
    fun s => ⟨⟨[], s.add 2000 .timerCall⟩, rfl, rfl⟩
  have first := ((served {}).steady .start).1
  obtain ⟨entered, s, expired, returned, -⟩ :=
    first.rearm (List.mem_singleton.mpr rfl : 0 ∈ [0]) (by decide : (1000 : UInt64) ≠ ngxNil)
      .timerCall
  have run : Run (fun s act t => TestAct.Step s act t) {} [.request ⟨1⟩ [] ngxDeclined,
      .expire 0, .request ⟨1⟩ [] ngxDeclined] (s.add 2000 .timerCall) :=
    .cons (served {}) <| .cons ⟨List.mem_singleton.mpr rfl, entered, _, expired, rfl, returned⟩ <|
      .cons (served s) <| .nil _
  obtain ⟨pending, made, -⟩ := test_timers_steady run
  exact ⟨_, pending, made⟩

end NgxCpp
