import Mathlib.Logic.Function.Basic
import NgxCpp.Foundation.Interleaving
import NgxCpp.Foundation.Runs
import NgxCpp.NdgHandlers

/-! The shared memory counter under any number of worker processes. The steps of the
handler that other processes can come between are the lookup of the segment by its name,
`find_or_construct`, the atomic addition and the atomic load for the log. -/

namespace NgxCpp
open Foundation

theorem NdgShmemHandler.handler_eq_ok {conf : NdgShmemConf} {opens : UInt64 → Bool}
    {constructs : Bool} {sent rc : Int} {w left : ShmemWorld}
    (returns : handler conf opens constructs sent w = .ok rc left) :
    left = ⟨true, some (w.counter.getD 0 + sent)⟩ := by
  have mapped : Mapped conf opens constructs w := by
    by_contra unmapped
    have throws := (handler_throws_iff conf opens constructs sent w).mpr unmapped
    rw [Exec.Throws, returns] at throws
    exact throws
  obtain ⟨maps, counts⟩ := mapped
  have opened := openSegment_eq conf opens w
  have found := findCounter_eq constructs { w with segment := true }
  rw [if_pos (by simpa using maps)] at opened
  rw [if_pos (by simpa using counts)] at found
  rw [handler, catchNgx] at returns
  have done := Exec.bind_ok (fun _ => do
    findCounter constructs
    Exec.modify fun w => { w with counter := w.counter.map (· + sent) }
    pure ngxOk) opened
  rw [Exec.bind_ok _ found] at done
  rw [Exec.catching_ok _ done] at returns
  cases returns
  rfl

/-- A shared memory segment and the object named "counter" in it, an `atomic<long>`. -/
structure ShmemSegment where
  size : UInt64
  counter : Option Int64 := none
deriving Repr, DecidableEq

/-- Where a process is in the handler, with `r->connection->sent` of the request; one that
died has left what it owed. -/
inductive ShmemStage where
  | idle
  | entered (sent : Int64)
  | opened (sent : Int64)
  | found (sent : Int64)
  | counted
  | exited
  | killed (owed : Option Int64)
deriving Repr, DecidableEq

def ShmemStage.owed : ShmemStage → Option Int64
  | idle | counted | exited => none
  | entered sent | opened sent | found sent => some sent
  | killed owed => owed

/-- A process: `segment` is the handler's static object, here by the segment it maps. -/
structure ShmemProcess where
  segment : Option Nat := none
  stage : ShmemStage := .idle
deriving Repr, DecidableEq

/-- The processes and what they share; `name` is the segment called "ndg_shmem". A
segment without the name lives on where it is mapped. -/
structure ShmemSystem where
  name : Option Nat := none
  segments : List ShmemSegment := []
  processes : Nat → ShmemProcess := fun _ => {}

inductive ShmemAct where
  | request (w : Nat) (sent : Int64)
  | openOrCreate (w seg : Nat)
  | findOrConstruct (w seg : Nat)
  | add (w seg : Nat) (sent : Int64)
  | log (w seg : Nat) (value : Int64)
  | exit (w : Nat)
  -- an exception of the library, which the handler does not catch, or a signal
  | die (w : Nat)
  -- `exit_master`
  | remove
deriving Repr, DecidableEq

namespace ShmemSystem

def counter (s : ShmemSystem) (seg : Nat) : Option Int64 := (s.segments[seg]?).bind (·.counter)

def setProcess (s : ShmemSystem) (w : Nat) (p : ShmemProcess) : ShmemSystem :=
  { s with processes := Function.update s.processes w p }

def setCounter (s : ShmemSystem) (seg : Nat) (value : Int64) : ShmemSystem :=
  { s with segments := s.segments.modify seg fun segment => { segment with counter := some value } }

def create (s : ShmemSystem) (size : UInt64) : ShmemSystem :=
  { s with name := some s.segments.length, segments := s.segments ++ [{ size }] }

/-- One atomic step; `conf` is the configuration each process has. -/
inductive Step (conf : Nat → NdgShmemConf) : ShmemSystem → ShmemAct → ShmemSystem → Prop where
  | request {s w sent segment} : s.processes w = ⟨segment, .idle⟩ →
    Step conf s (.request w sent) (s.setProcess w ⟨segment, .entered sent⟩)
  -- the static object is there since an earlier request
  | reuses {s w seg sent} : s.processes w = ⟨some seg, .entered sent⟩ →
    Step conf s (.openOrCreate w seg) (s.setProcess w ⟨some seg, .opened sent⟩)
  | opens {s w seg sent} : s.processes w = ⟨none, .entered sent⟩ → s.name = some seg →
    Step conf s (.openOrCreate w seg) (s.setProcess w ⟨some seg, .opened sent⟩)
  | creates {s w sent} : s.processes w = ⟨none, .entered sent⟩ → s.name = none →
    Step conf s (.openOrCreate w s.segments.length)
      ((s.create (conf w).size).setProcess w ⟨some s.segments.length, .opened sent⟩)
  | finds {s w seg sent value} : s.processes w = ⟨some seg, .opened sent⟩ →
    s.counter seg = some value →
    Step conf s (.findOrConstruct w seg) (s.setProcess w ⟨some seg, .found sent⟩)
  | constructs {s w seg sent} : s.processes w = ⟨some seg, .opened sent⟩ → s.counter seg = none →
    Step conf s (.findOrConstruct w seg)
      ((s.setCounter seg 0).setProcess w ⟨some seg, .found sent⟩)
  | add {s w seg sent value} : s.processes w = ⟨some seg, .found sent⟩ →
    s.counter seg = some value →
    Step conf s (.add w seg sent)
      ((s.setCounter seg (value + sent)).setProcess w ⟨some seg, .counted⟩)
  | log {s w seg value} : s.processes w = ⟨some seg, .counted⟩ → s.counter seg = some value →
    Step conf s (.log w seg value) (s.setProcess w ⟨some seg, .idle⟩)
  | exit {s w segment} : s.processes w = ⟨segment, .idle⟩ →
    Step conf s (.exit w) (s.setProcess w ⟨segment, .exited⟩)
  | die {s w segment stage} : s.processes w = ⟨segment, stage⟩ → stage ≠ .exited →
    Step conf s (.die w) (s.setProcess w ⟨segment, .killed stage.owed⟩)
  | remove {s} : Step conf s .remove { s with name := none }

structure Booted (s : ShmemSystem) : Prop where
  fresh : ∀ w, s.processes w = {}
  named : ∀ seg, s.name = some seg → seg < s.segments.length

@[simp] theorem setProcess_name (s : ShmemSystem) (w : Nat) (p : ShmemProcess) :
    (s.setProcess w p).name = s.name := rfl

@[simp] theorem setProcess_segments (s : ShmemSystem) (w : Nat) (p : ShmemProcess) :
    (s.setProcess w p).segments = s.segments := rfl

@[simp] theorem setProcess_counter (s : ShmemSystem) (w : Nat) (p : ShmemProcess) :
    (s.setProcess w p).counter = s.counter := rfl

@[simp] theorem setProcess_self (s : ShmemSystem) (w : Nat) (p : ShmemProcess) :
    (s.setProcess w p).processes w = p := Function.update_self ..

theorem setProcess_of_ne (s : ShmemSystem) {w v : Nat} (p : ShmemProcess) (other : v ≠ w) :
    (s.setProcess w p).processes v = s.processes v := Function.update_of_ne other ..

@[simp] theorem setCounter_name (s : ShmemSystem) (seg : Nat) (value : Int64) :
    (s.setCounter seg value).name = s.name := rfl

@[simp] theorem setCounter_processes (s : ShmemSystem) (seg : Nat) (value : Int64) :
    (s.setCounter seg value).processes = s.processes := rfl

@[simp] theorem setCounter_length (s : ShmemSystem) (seg : Nat) (value : Int64) :
    (s.setCounter seg value).segments.length = s.segments.length := List.length_modify ..

theorem setCounter_counter (s : ShmemSystem) {seg : Nat} (value : Int64)
    (there : seg < s.segments.length) :
    (s.setCounter seg value).counter = Function.update s.counter seg (some value) := by
  funext other
  by_cases same : other = seg
  · subst same
    simp [counter, setCounter, there]
  · rw [Function.update_of_ne same]
    simp [counter, setCounter, Ne.symm same]

@[simp] theorem create_processes (s : ShmemSystem) (size : UInt64) :
    (s.create size).processes = s.processes := rfl

@[simp] theorem create_counter (s : ShmemSystem) (size : UInt64) :
    (s.create size).counter = s.counter := by
  funext seg
  rcases Nat.lt_trichotomy seg s.segments.length with old | rfl | beyond
  · simp [counter, create, List.getElem?_append_left old]
  · simp [counter, create]
  · rw [counter, counter, create, List.getElem?_eq_none (by simp; omega),
      List.getElem?_eq_none (Nat.le_of_lt beyond)]

end ShmemSystem

namespace ShmemAct

def asked : ShmemAct → Option (Nat × Int64)
  | request w sent => some (w, sent)
  | _ => none

def added : ShmemAct → Option (Nat × Int64)
  | add w _ sent => some (w, sent)
  | _ => none

def addedTo (seg : Nat) : ShmemAct → Option Int64
  | add _ seg' sent => if seg' = seg then some sent else none
  | _ => none

/-- The process whose step it is; a removal is a step of the master. -/
def actor : ShmemAct → Option Nat
  | request w _ | openOrCreate w _ | findOrConstruct w _ | add w _ _ | log w _ _ => some w
  | exit w | die w => some w
  | remove => none

def sumTo (seg : Nat) (acts : List ShmemAct) : Int64 := (acts.filterMap (addedTo seg)).sum

theorem asked_of_other {act : ShmemAct} {w : Nat} (other : act.actor ≠ some w) :
    ofParty w ([act].filterMap asked) = [] := by
  cases act with
  | request v sent =>
    have ne : v ≠ w := fun same => other (congrArg some same)
    simp [asked, ne]
  | _ => rfl

theorem added_of_other {act : ShmemAct} {w : Nat} (other : act.actor ≠ some w) :
    ofParty w ([act].filterMap added) = [] := by
  cases act with
  | add v seg sent =>
    have ne : v ≠ w := fun same => other (congrArg some same)
    simp [added, ne]
  | _ => rfl

theorem sumTo_append (seg : Nat) (acts : List ShmemAct) (act : ShmemAct) :
    sumTo seg (acts ++ [act]) = sumTo seg acts + ((addedTo seg act).getD 0) := by
  rw [sumTo, List.filterMap_append, List.sum_append, ← sumTo]
  cases found : addedTo seg act <;> simp [found]

end ShmemAct

namespace ShmemSystem

variable {conf : Nat → NdgShmemConf} {s₀ s t : ShmemSystem} {act : ShmemAct}
  {acts : List ShmemAct}

structure Mapped (s : ShmemSystem) : Prop where
  named : ∀ seg, s.name = some seg → seg < s.segments.length
  mapped : ∀ w seg, (s.processes w).segment = some seg → seg < s.segments.length

theorem Booted.toMapped (booted : s.Booted) : s.Mapped where
  named := booted.named
  mapped w seg maps := by simp [booted.fresh w] at maps

theorem Mapped.setProcess (holds : s.Mapped) {w : Nat} {p : ShmemProcess}
    (there : ∀ seg, p.segment = some seg → seg < s.segments.length) :
    (s.setProcess w p).Mapped where
  named := holds.named
  mapped v seg maps := by
    by_cases same : v = w
    · subst same
      rw [setProcess_self] at maps
      exact there seg maps
    · rw [setProcess_of_ne s p same] at maps
      exact holds.mapped v seg maps

theorem Mapped.setCounter (holds : s.Mapped) (seg : Nat) (value : Int64) :
    (s.setCounter seg value).Mapped where
  named seg' named := by
    rw [setCounter_length]
    exact holds.named seg' named
  mapped w seg' maps := by
    rw [setCounter_length]
    exact holds.mapped w seg' maps

theorem Mapped.create (holds : s.Mapped) (size : UInt64) : (s.create size).Mapped where
  named seg named := by
    obtain rfl := Option.some.inj named
    simp [ShmemSystem.create]
  mapped w seg maps := by
    have there := holds.mapped w seg maps
    simp only [ShmemSystem.create, List.length_append, List.length_singleton]
    omega

theorem Mapped.moved (holds : s.Mapped) {w : Nat} {p q : ShmemProcess} (at_w : s.processes w = p)
    (same : q.segment = p.segment) : (s.setProcess w q).Mapped :=
  holds.setProcess fun seg maps => holds.mapped w seg (by rw [at_w, ← same, maps])

theorem Mapped.at_process (holds : s.Mapped) {w seg : Nat} {stage : ShmemStage}
    (at_w : s.processes w = ⟨some seg, stage⟩) : seg < s.segments.length :=
  holds.mapped w seg (by rw [at_w])

theorem Step.mapped (step : Step conf s act t) (holds : s.Mapped) : t.Mapped := by
  cases step with
  | request at_w => exact holds.moved at_w rfl
  | reuses at_w => exact holds.moved at_w rfl
  | opens at_w named =>
    refine holds.setProcess fun seg maps => ?_
    obtain rfl := Option.some.inj maps
    exact holds.named _ named
  | creates at_w free =>
    refine (holds.create _).setProcess fun seg maps => ?_
    obtain rfl := Option.some.inj maps
    simp [ShmemSystem.create]
  | finds at_w found => exact holds.moved at_w rfl
  | constructs at_w absent => exact (holds.setCounter _ _).moved at_w rfl
  | add at_w found => exact (holds.setCounter _ _).moved at_w rfl
  | log at_w found => exact holds.moved at_w rfl
  | exit at_w => exact holds.moved at_w rfl
  | die at_w alive => exact holds.moved at_w rfl
  | remove => exact ⟨fun seg named => by simp at named, holds.mapped⟩

def Totals (s₀ : ShmemSystem) (acts : List ShmemAct) (s : ShmemSystem) : Prop :=
  ∀ seg, (s.counter seg).getD 0 = (s₀.counter seg).getD 0 + ShmemAct.sumTo seg acts

theorem Step.totals (step : Step conf s act t) (mapped : s.Mapped) (holds : Totals s₀ acts s) :
    Totals s₀ (acts ++ [act]) t := by
  intro seg
  rw [ShmemAct.sumTo_append, ← Int64.add_assoc, ← holds seg]
  cases step with
  | creates at_w free =>
    rw [setProcess_counter, create_counter]
    exact (Int64.add_zero _).symm
  | @constructs _ there _ at_w absent =>
    rw [setProcess_counter, setCounter_counter _ _ (mapped.at_process at_w)]
    by_cases same : seg = there
    · subst same
      simp [ShmemAct.addedTo, absent]
    · simp [ShmemAct.addedTo, Function.update_of_ne same]
  | @add _ there _ _ at_w found =>
    rw [setProcess_counter, setCounter_counter _ _ (mapped.at_process at_w)]
    by_cases same : seg = there
    · subst same
      simp [ShmemAct.addedTo, found]
    · simp [ShmemAct.addedTo, Function.update_of_ne same, Ne.symm same]
  | _ => exact (Int64.add_zero _).symm

def Settled (acts : List ShmemAct) (s : ShmemSystem) : Prop :=
  ∀ w, ofParty w (acts.filterMap ShmemAct.asked) =
    ofParty w (acts.filterMap ShmemAct.added) ++ (s.processes w).stage.owed.toList

theorem Step.others (step : Step conf s act t) {w : Nat} (other : act.actor ≠ some w) :
    t.processes w = s.processes w := by
  cases step with
  | remove => rfl
  | _ => exact setProcess_of_ne _ _ fun same => other (congrArg some same.symm)

/-- What a process owes after a step, with what it counted in it, is what it owed before,
with what it got. -/
theorem Step.owed (step : Step conf s act t) (w : Nat) :
    (s.processes w).stage.owed.toList ++ ofParty w ([act].filterMap ShmemAct.asked) =
      ofParty w ([act].filterMap ShmemAct.added) ++ (t.processes w).stage.owed.toList := by
  by_cases own : act.actor = some w
  · cases step with
    | remove => cases own
    | request at_w | add at_w =>
      obtain rfl := Option.some.inj own
      rw [at_w, setProcess_self]
      simp [List.filterMap_cons, ShmemAct.asked, ShmemAct.added, ShmemStage.owed]
    | reuses at_w | opens at_w | creates at_w | finds at_w | constructs at_w | log at_w
    | exit at_w | die at_w =>
      -- the same is owed at the next stage
      obtain rfl := Option.some.inj own
      rw [at_w, setProcess_self]
      exact List.append_nil _
  · rw [step.others own, ShmemAct.asked_of_other own, ShmemAct.added_of_other own,
      List.append_nil, List.nil_append]

theorem Step.settled (step : Step conf s act t) (holds : Settled acts s) :
    Settled (acts ++ [act]) t := by
  intro w
  rw [List.filterMap_append, List.filterMap_append, ofParty_append, ofParty_append, holds w,
    List.append_assoc, List.append_assoc, step.owed w]

/-- Where a process counts: always at the segment it maps, which then has the counter. -/
def Placed (acts : List ShmemAct) (s : ShmemSystem) : Prop :=
  ∀ w seg sent, ShmemAct.add w seg sent ∈ acts →
    (s.processes w).segment = some seg ∧ (s.counter seg).isSome

theorem Step.segment_kept (step : Step conf s act t) {w seg : Nat}
    (maps : (s.processes w).segment = some seg) : (t.processes w).segment = some seg := by
  by_cases own : act.actor = some w
  · cases step with
    | remove => exact maps
    | opens at_w | creates at_w =>
      obtain rfl := Option.some.inj own
      simp [at_w] at maps
    | request at_w | reuses at_w | finds at_w | constructs at_w | add at_w | log at_w | exit at_w
    | die at_w =>
      obtain rfl := Option.some.inj own
      rw [at_w] at maps
      rw [setProcess_self, ← maps]
  · rwa [step.others own]

theorem Step.counter_kept (step : Step conf s act t) (mapped : s.Mapped) {seg : Nat}
    (there : (s.counter seg).isSome) : (t.counter seg).isSome := by
  cases step with
  | creates at_w free => rwa [setProcess_counter, create_counter]
  | constructs at_w | add at_w =>
    rw [setProcess_counter, setCounter_counter _ _ (mapped.at_process at_w), Function.update_apply]
    split
    · rfl
    · exact there
  | _ => exact there

theorem Step.placed (step : Step conf s act t) (mapped : s.Mapped) (holds : Placed acts s) :
    Placed (acts ++ [act]) t := by
  intro w seg sent member
  rcases List.mem_append.mp member with earlier | last
  · obtain ⟨maps, there⟩ := holds w seg sent earlier
    exact ⟨step.segment_kept maps, step.counter_kept mapped there⟩
  · obtain rfl := List.mem_singleton.mp last
    cases step with
    | add at_w found =>
      rw [setProcess_self, setProcess_counter, setCounter_counter _ _ (mapped.at_process at_w),
        Function.update_self]
      exact ⟨rfl, rfl⟩

structure Counted (s₀ : ShmemSystem) (acts : List ShmemAct) (s : ShmemSystem) : Prop where
  mapped : s.Mapped
  totals : Totals s₀ acts s
  settled : Settled acts s
  placed : Placed acts s

theorem Booted.counted (booted : s₀.Booted) (run : Run (Step conf) s₀ acts s) :
    Counted s₀ acts s := by
  have start : Counted s₀ [] s₀ := {
    mapped := booted.toMapped
    totals := fun seg => (Int64.add_zero _).symm
    settled := fun w => by rw [booted.fresh w]; rfl
    placed := fun w seg sent member => by cases member }
  exact run.history (Counted s₀) (fun before s act t holds step => {
    mapped := step.mapped holds.mapped
    totals := step.totals holds.mapped holds.totals
    settled := step.settled holds.settled
    placed := step.placed holds.mapped holds.placed }) start

section Alone

/-- What a process sees of the system: its segment, or the one that it would open. -/
def view (s : ShmemSystem) (w : Nat) : ShmemWorld where
  segment := (s.processes w).segment.isSome
  counter := (((s.processes w).segment <|> s.name).bind s.counter).map Int64.toInt

theorem setCounter_self (mapped : s.Mapped) {w seg : Nat} {stage : ShmemStage} (value : Int64)
    (at_w : s.processes w = ⟨some seg, stage⟩) :
    (s.setCounter seg value).counter seg = some value := by
  rw [setCounter_counter _ _ (mapped.at_process at_w), Function.update_self]

theorem run_found (mapped : s.Mapped) {w seg : Nat} {sent value : Int64}
    (at_w : s.processes w = ⟨some seg, .found sent⟩) (found : s.counter seg = some value) :
    ∃ acts t, Run (Step conf) s acts t ∧ t.processes w = ⟨some seg, .idle⟩ ∧
      t.counter seg = some (value + sent) := by
  have added := setCounter_self mapped (value + sent) at_w
  exact ⟨_, _, .cons (.add at_w found) <| .cons (.log (setProcess_self ..) added) <| .nil _,
    setProcess_self .., added⟩

/-- Once it has its segment, a process needs no other process to finish. -/
theorem run_opened (mapped : s.Mapped) {w seg : Nat} {sent : Int64}
    (at_w : s.processes w = ⟨some seg, .opened sent⟩) : ∃ acts t, Run (Step conf) s acts t ∧
      t.processes w = ⟨some seg, .idle⟩ ∧ t.counter seg = some ((s.counter seg).getD 0 + sent) := by
  cases found : s.counter seg with
  | some value =>
    have step : Step conf s (.findOrConstruct w seg) _ := .finds at_w found
    obtain ⟨acts, t, run, done⟩ := run_found (step.mapped mapped) (setProcess_self ..) found
    exact ⟨_, t, .cons step run, done⟩
  | none =>
    have step : Step conf s (.findOrConstruct w seg) _ := .constructs at_w found
    have zero := setCounter_self mapped 0 at_w
    obtain ⟨acts, t, run, done⟩ := run_found (step.mapped mapped) (setProcess_self ..) zero
    exact ⟨_, t, .cons step run, done⟩

/-- A call that returns is a run of the system in which no other process takes a step, so
long as the sum stays in the type. -/
theorem handler_run (mapped : s.Mapped) {w : Nat} {segment : Option Nat} {opens : UInt64 → Bool}
    {constructs : Bool} {sent : Int64} {rc : Int} {left : ShmemWorld}
    (at_w : s.processes w = ⟨segment, .idle⟩)
    (fits : ((((segment <|> s.name).bind s.counter).getD 0) + sent).toInt =
      (((segment <|> s.name).bind s.counter).getD 0).toInt + sent.toInt)
    (returns : NdgShmemHandler.handler (conf w) opens constructs sent.toInt (s.view w) =
      .ok rc left) : ∃ acts t, Run (Step conf) s acts t ∧ t.view w = left := by
  have entered : Step conf s (.request w sent) _ := .request at_w
  have first := setProcess_self s w ⟨segment, .entered sent⟩
  obtain ⟨seg, u, opened, at_u, same⟩ : ∃ seg u,
      Step conf (s.setProcess w ⟨segment, .entered sent⟩) (.openOrCreate w seg) u ∧
        u.processes w = ⟨some seg, .opened sent⟩ ∧
          (u.counter seg).getD 0 = ((segment <|> s.name).bind s.counter).getD 0 := by
    cases segment with
    | some seg => exact ⟨seg, _, .reuses first, setProcess_self .., rfl⟩
    | none =>
      cases named : s.name with
      | some seg => exact ⟨seg, _, .opens first named, setProcess_self .., rfl⟩
      | none =>
        refine ⟨s.segments.length, _, .creates first named, setProcess_self .., ?_⟩
        rw [setProcess_counter, create_counter]
        simp [counter]
  obtain ⟨acts, t, rest, at_t, found⟩ := run_opened (opened.mapped (entered.mapped mapped)) at_u
  refine ⟨_, t, .cons entered (.cons opened rest), ?_⟩
  rw [NdgShmemHandler.handler_eq_ok returns, view, view, at_t, at_w]
  have sums : ((((segment <|> s.name).bind s.counter).map Int64.toInt).getD 0) =
      (((segment <|> s.name).bind s.counter).getD 0).toInt := by
    cases (segment <|> s.name).bind s.counter <;> rfl
  have here : (some seg <|> t.name).bind t.counter = t.counter seg := rfl
  simp only [Option.isSome_some, here, found, Option.map_some, same, fits, sums]

end Alone

theorem booted_empty : Booted {} := ⟨fun _ => rfl, fun _ named => by cases named⟩

def twoWorkers : List ShmemAct :=
  [.request 0 10, .request 1 20, .openOrCreate 1 0, .openOrCreate 0 0, .findOrConstruct 0 0,
    .findOrConstruct 1 0, .add 1 0 20, .add 0 0 10, .log 1 0 30, .log 0 0 30]

theorem twoWorkers_run : ∃ s, Run (Step fun _ => {}) {} twoWorkers s ∧
    ∀ w, (s.processes w).stage = .idle := by
  refine ⟨_, .cons (.request rfl) <| .cons (.request rfl) <| .cons (.creates rfl rfl) <|
    .cons (.opens rfl rfl) <| .cons (.constructs rfl rfl) <| .cons (.finds rfl rfl) <|
    .cons (.add rfl rfl) <| .cons (.add rfl rfl) <| .cons (.log rfl rfl) <|
    .cons (.log rfl rfl) <| .nil _, fun w => ?_⟩
  rcases w with _ | _ | w <;> rfl

/-- Whatever the order of the steps of the processes, whichever of them end inside the handler
and whenever the name is removed: a process counts what it gets once, in its order and at one
segment, but for at most one request it has not come to yet or died in, and each counter is
what the processes have added to it since. -/
theorem shmem_counts (booted : s₀.Booted) (run : Run (Step conf) s₀ acts s) :
    (∀ w, ofParty w (acts.filterMap ShmemAct.asked) =
        ofParty w (acts.filterMap ShmemAct.added) ++ (s.processes w).stage.owed.toList ∧
      ∀ seg seg' sent sent', ShmemAct.add w seg sent ∈ acts → ShmemAct.add w seg' sent' ∈ acts →
        seg = seg') ∧
    ∀ seg, (s.counter seg).getD 0 = (s₀.counter seg).getD 0 + ShmemAct.sumTo seg acts := by
  have holds := booted.counted run
  refine ⟨fun w => ⟨holds.settled w, ?_⟩, holds.totals⟩
  intro seg seg' sent sent' member member'
  have maps := (holds.placed w seg sent member).1
  rw [(holds.placed w seg' sent' member').1] at maps
  exact (Option.some.inj maps).symm

theorem shmem_counts_two : ∃ s : ShmemSystem, Run (Step fun _ => {}) {} twoWorkers s ∧
    (s.counter 0).getD 0 = 0 + 30 := by
  obtain ⟨s, run, -⟩ := twoWorkers_run
  exact ⟨s, run, (shmem_counts booted_empty run).2 0⟩

def Shared (s : ShmemSystem) : Prop :=
  ∀ w seg, (s.processes w).segment = some seg → s.name = some seg

theorem Step.shared (step : Step conf s act t) (kept : act ≠ .remove) (holds : s.Shared) :
    t.Shared := by
  intro w seg maps
  by_cases own : act.actor = some w
  · cases step with
    | remove => exact absurd rfl kept
    | opens at_w named =>
      obtain rfl := Option.some.inj own
      rw [setProcess_self] at maps
      rw [setProcess_name, named, ← maps]
    | creates at_w free =>
      obtain rfl := Option.some.inj own
      rw [setProcess_self] at maps
      exact maps
    | request at_w | reuses at_w | finds at_w | constructs at_w | add at_w | log at_w | exit at_w
    | die at_w =>
      obtain rfl := Option.some.inj own
      rw [setProcess_self] at maps
      exact holds _ seg ((congrArg ShmemProcess.segment at_w).trans maps)
  · rw [step.others own] at maps
    have named := holds w seg maps
    cases step with
    | remove => exact absurd rfl kept
    | creates at_w free => rw [free] at named; cases named
    | _ => exact named

theorem Booted.shared (booted : s₀.Booted) (run : Run (Step conf) s₀ acts s)
    (kept : ShmemAct.remove ∉ acts) : s.Shared := by
  refine run.history (fun before s => .remove ∉ before → s.Shared) ?_ ?_ kept
  · intro before s act t holds step kept
    rw [List.mem_append, List.mem_singleton, not_or] at kept
    exact step.shared (fun last => kept.2 last.symm) (holds kept.1)
  · intro _ w seg maps
    simp [booted.fresh w] at maps

theorem sumTo_of_placed {seg : Nat} (placed : ∀ w seg' sent, .add w seg' sent ∈ acts → seg' = seg) :
    ShmemAct.sumTo seg acts = ((acts.filterMap ShmemAct.added).map Prod.snd).sum := by
  rw [ShmemAct.sumTo, List.map_filterMap]
  refine congrArg List.sum (List.filterMap_congr fun act member => ?_)
  cases act with
  | add w seg' sent => simp [ShmemAct.addedTo, ShmemAct.added, placed w seg' sent member]
  | _ => rfl

/-- Nothing is lost and nothing counted twice: so long as the name stays, and once no process
is in the handler before its addition or died there, the counter of the one segment has grown
by what all the requests have sent. -/
theorem requests_counted (booted : s₀.Booted) (run : Run (Step conf) s₀ acts s)
    (kept : ShmemAct.remove ∉ acts)
    (quiet : ∀ w, (s.processes w).stage.owed = none)
    (asked : acts.filterMap ShmemAct.asked ≠ []) :
    ∃ seg, s.name = some seg ∧ s.counter seg = some ((s₀.counter seg).getD 0 +
      ((acts.filterMap ShmemAct.asked).map Prod.snd).sum) := by
  have holds := booted.counted run
  have shared := booted.shared run kept
  have all : (acts.filterMap ShmemAct.asked).Perm (acts.filterMap ShmemAct.added) := by
    refine perm_of_ofParty fun w => ?_
    rw [holds.settled w, quiet w, Option.toList_none, List.append_nil]
  obtain ⟨⟨w, sent⟩, first⟩ := List.exists_mem_of_ne_nil _ asked
  obtain ⟨act, member, added⟩ := List.mem_filterMap.mp (all.mem_iff.mp first)
  obtain ⟨seg, rfl⟩ : ∃ seg, act = .add w seg sent := by
    cases act with
    | add v seg x =>
      obtain ⟨rfl, rfl⟩ := Prod.mk.inj (Option.some.inj added)
      exact ⟨seg, rfl⟩
    | _ => cases added
  obtain ⟨maps, there⟩ := holds.placed w seg sent member
  have named := shared w seg maps
  have together : ∀ w seg' sent, .add w seg' sent ∈ acts → seg' = seg := by
    intro v seg' x other
    have named' := shared v seg' (holds.placed v seg' x other).1
    rw [named] at named'
    exact (Option.some.inj named').symm
  have total := holds.totals seg
  obtain ⟨value, found⟩ := Option.isSome_iff_exists.mp there
  have sums : ((acts.filterMap ShmemAct.asked).map Prod.snd).sum =
      ((acts.filterMap ShmemAct.added).map Prod.snd).sum :=
    (all.map Prod.snd).foldr_eq 0
  refine ⟨seg, named, ?_⟩
  rw [found, Option.getD_some, sumTo_of_placed together] at total
  rw [found, total, sums]

theorem requests_counted_two : ∃ s : ShmemSystem, Run (Step fun _ => {}) {} twoWorkers s ∧
    ∃ seg, s.name = some seg ∧ s.counter seg = some (0 + 30) := by
  obtain ⟨s, run, idle⟩ := twoWorkers_run
  obtain ⟨seg, named, found⟩ := requests_counted booted_empty run (by decide)
    (fun w => congrArg ShmemStage.owed (idle w)) (by decide)
  exact ⟨s, run, seg, named, found⟩

theorem Booted.counted_last (booted : s₀.Booted) (run : Run (Step conf) s₀ acts s) {w : Nat}
    (at_log : (s.processes w).stage = .counted) : ∃ before seg sent after,
      acts = before ++ .add w seg sent :: after ∧ (s.processes w).segment = some seg ∧
        ∀ act ∈ after, act.actor ≠ some w := by
  refine run.history (fun acts s => ∀ w, (s.processes w).stage = .counted →
    ∃ before seg sent after, acts = before ++ .add w seg sent :: after ∧
      (s.processes w).segment = some seg ∧ ∀ act ∈ after, act.actor ≠ some w) ?_ ?_ w at_log
  · intro acts s act t holds step v at_log
    by_cases own : act.actor = some v
    · cases step with
      | remove => cases own
      | @add _ seg sent _ at_w found =>
        obtain rfl := Option.some.inj own
        exact ⟨acts, seg, sent, [], rfl, by rw [setProcess_self], fun _ member => by cases member⟩
      | _ =>
        obtain rfl := Option.some.inj own
        rw [setProcess_self] at at_log
        cases at_log
    · rw [step.others own] at at_log ⊢
      obtain ⟨before, seg, sent, after, rfl, maps, others⟩ := holds v at_log
      refine ⟨before, seg, sent, after ++ [act], by simp, maps, fun act' member => ?_⟩
      rcases List.mem_append.mp member with earlier | last
      · exact others act' earlier
      · rwa [List.mem_singleton.mp last]
  · intro v at_log
    rw [booted.fresh v] at at_log
    cases at_log

/-- What a request logs is all that has been added to the counter by then, its own bytes
with it. -/
theorem logged_value (booted : s₀.Booted) {before after : List ShmemAct} {w seg : Nat}
    {value : Int64} (run : Run (Step conf) s₀ (before ++ .log w seg value :: after) s) :
    value = (s₀.counter seg).getD 0 + ShmemAct.sumTo seg before ∧
      ∃ earlier sent between, before = earlier ++ .add w seg sent :: between ∧
        ∀ act ∈ between, act.actor ≠ some w := by
  obtain ⟨u, toLog, rest⟩ := Run.append_iff.mp run
  cases rest with
  | cons logs _ =>
    cases logs with
    | log at_w found =>
      constructor
      · rw [← (booted.counted toLog).totals seg, found]
        rfl
      · obtain ⟨earlier, seg', sent, between, rfl, maps, others⟩ :=
          booted.counted_last toLog (w := w) (by rw [at_w])
        rw [at_w] at maps
        obtain rfl := Option.some.inj maps
        exact ⟨earlier, sent, between, rfl, others⟩

theorem logged_value_two : (30 : Int64) = 0 + 30 ∧ ∃ earlier sent between,
    twoWorkers.take 8 = earlier ++ .add 1 0 sent :: between ∧
      ∀ act ∈ between, act.actor ≠ some 1 := by
  obtain ⟨s, run, -⟩ := twoWorkers_run
  have logs : Run (Step fun _ => {}) {} (twoWorkers.take 8 ++ .log 1 0 30 :: [.log 0 0 30]) s := run
  exact logged_value booted_empty logs

end ShmemSystem

end NgxCpp
