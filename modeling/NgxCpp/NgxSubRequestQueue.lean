import NgxCpp.NgxSubRequest
import NgxCpp.Foundation.Sim

/-! A subrequest in the queues of nginx: `ngx_http_subrequest` puts it there in the
middle of `create`, which may still throw. -/

namespace NgxCpp
open Foundation

variable {V : Type}

/-- The requests, and of the main request its posted requests, its reference count and
what was passed for the end of each subrequest. -/
structure SubrequestQueues (V : Type) where
  mem : RequestMem V
  posted : List Nat := []
  count : Nat := 1
  posts : List (Nat × Option Nat) := []
deriving Repr, DecidableEq

def onRequests {α : Type} (x : Ngx (RequestMem V) α) : Ngx (SubrequestQueues V) α :=
  Exec.zoom SubrequestQueues.mem (fun mem w => { w with mem }) x

def SubrequestQueues.enqueue (w : SubrequestQueues V) (sr : Nat) (psrData : Option Nat) :
    SubrequestQueues V :=
  { w with
    posted := w.posted ++ [sr], count := w.count + 1, posts := w.posts ++ [(sr, psrData)] }

def SubrequestQueues.postponed (w : SubrequestQueues V) (r : Nat) : Option (List Nat) :=
  (w.mem.requests.read r).map NgxHttpRequest.postponed

/-- `ngx_http_subrequest` with the queues of the main request. -/
def queueSubrequest (r : Nat) (psrData : Option Nat) :
    Ngx (SubrequestQueues V) (Except Int Nat) := do
  let rc ← onRequests (ngxHttpSubrequest r)
  match rc with
  | .error rc => pure (.error rc)
  | .ok sr =>
    Exec.modify fun w => w.enqueue sr psrData
    pure (.ok sr)

namespace NgxSubRequest

/-- `create`, with the callback's data. -/
def createQueued (copyVars : Bool) (n : Nat) (psrData : Option Nat) (r : Nat) :
    Ngx (SubrequestQueues V) Nat := do
  let psr ← onRequests (onHeaders palloc)
  NgxException.requireCond psr
  let rc ← queueSubrequest r psrData
  match rc with
  | .error rc => NgxException.raise rc
  | .ok sr =>
    onRequests (fixLast r sr)
    let _ ← (if copyVars then onRequests (copyVariables n r sr) else pure ())
    pure sr

/-- One subrequest more in every queue when `create` returns, and none when it throws. -/
def AllOrNothing (copyVars : Bool) (n : Nat) (psrData : Option Nat) (r : Nat)
    (w : SubrequestQueues V) : Prop :=
  match createQueued copyVars n psrData r w with
  | .ok sr w' => w'.postponed r = (w.postponed r).map (· ++ [sr]) ∧ w'.posted = w.posted ++ [sr] ∧
      w'.count = w.count + 1
  | .raised _ w' => w'.postponed r = w.postponed r ∧ w'.posted = w.posted ∧ w'.count = w.count
  | _ => False

end NgxSubRequest

section Create

variable {w : SubrequestQueues V} {m : RequestMem V} {r sr n : Nat} {rq sub : NgxHttpRequest}
  {hdr : NgxListT} {part : NgxListPart} {values : List V}

theorem onRequests_ok {α : Type} {x : Ngx (RequestMem V) α} {a : α}
    (h : x w.mem = .ok a m) : onRequests x w = .ok a { w with mem := m } :=
  Exec.zoom_ok h

theorem sim_onRequests {α : Type} (x : Ngx (RequestMem V) α) :
    Exec.Sim (fun (w : SubrequestQueues V) m => w.mem = m) (· = ·) (onRequests x) x := by
  rintro w _ rfl
  unfold onRequests Exec.zoom
  cases x w.mem with
  | ok a m => exact .ok rfl rfl
  | raised e m => exact .raised rfl
  | undefined => exact .undefined
  | exhausted => exact .exhausted

theorem sim_queueSubrequest (r : Nat) (psrData : Option Nat) :
    Exec.Sim (fun (w : SubrequestQueues V) m => w.mem = m) (· = ·) (queueSubrequest r psrData)
      (ngxHttpSubrequest r) := by
  intro w m same
  have inner := sim_onRequests (ngxHttpSubrequest r) w m same
  rw [queueSubrequest, Exec.bind_apply]
  cases left : onRequests (ngxHttpSubrequest r) w <;>
    cases right : ngxHttpSubrequest r m <;> rw [left, right] at inner <;> cases inner
  case ok.ok rc _ _ _ values states =>
    subst values
    cases rc with
    | error rc => exact .ok rfl states
    | ok sr => exact .ok rfl states
  case raised.raised states => exact .raised states
  case undefined.undefined => exact .undefined
  case exhausted.exhausted => exact .exhausted

theorem sim_createQueued (copyVars : Bool) (n : Nat) (psrData : Option Nat) (r : Nat) :
    Exec.Sim (fun (w : SubrequestQueues V) m => w.mem = m) (· = ·)
      (NgxSubRequest.createQueued copyVars n psrData r) (NgxSubRequest.create copyVars n r) := by
  refine .bind_eq (sim_onRequests _) fun psr => .bind_eq (.ite (.pure rfl) (.raise _)) fun _ =>
    .bind_eq (sim_queueSubrequest r psrData) fun rc => ?_
  cases rc with
  | error rc => exact .raise _
  | ok sr =>
    refine .bind_eq (sim_onRequests _) fun _ => .bind_eq ?_ fun _ => .pure rfl
    exact .ite (sim_onRequests _) (.pure rfl)

theorem ngxHttpSubrequest_eq (request : m.requests.read r = some rq)
    (header : m.headers.lists.read rq.headersIn = some hdr)
    (found : m.headers.parts.read hdr.part = some part) :
    ngxHttpSubrequest r m =
      if granted m.headers.grants then
        .ok (.ok m.requests.size) (m.subrequest r rq hdr part m.headers.grants.tail)
      else .ok (.error ngxError) { m with
        headers := { m.headers with grants := m.headers.grants.tail } } := by
  let m1 : RequestMem V := { m with headers := { m.headers with grants := m.headers.grants.tail } }
  have asked : onHeaders palloc m = .ok (granted m.headers.grants) m1 :=
    onHeaders_ok (palloc_eq m.headers)
  rw [ngxHttpSubrequest, Exec.bind_ok _ (readRequest_ok request), Exec.bind_ok _ asked]
  cases granted m.headers.grants with
  | false => rfl
  | true =>
    have at_list := onHeaders_ok (w := m1) (readList_ok (m := m1.headers) header)
    have at_part := onHeaders_ok (w := m1) (readPart_ok (m := m1.headers) found)
    rw [if_pos rfl, Exec.bind_ok _ at_list, Exec.bind_ok _ at_part]
    rfl

theorem copyVariables_eq (request : m.requests.read r = some rq)
    (stored : m.vars.read rq.vars = some values) (made : m.requests.read sr = some sub) :
    NgxSubRequest.copyVariables n r sr m =
      if granted m.headers.grants then .ok ()
        { headers := { m.headers with grants := m.headers.grants.tail }
          requests := m.requests.write sr { sub with vars := m.vars.size }
          vars := m.vars.alloc (values.take n) }
      else .raised ⟨ngxError⟩ { m with
        headers := { m.headers with grants := m.headers.grants.tail } } := by
  let m1 : RequestMem V := { m with headers := { m.headers with grants := m.headers.grants.tail } }
  have asked : onHeaders palloc m = .ok (granted m.headers.grants) m1 :=
    onHeaders_ok (palloc_eq m.headers)
  have read : Exec.deref (fun m : RequestMem V => m.vars.read rq.vars) m =
      (.ok values m : Outcome NgxException _ _) := Exec.deref_some stored
  rw [NgxSubRequest.copyVariables, Exec.bind_ok _ (readRequest_ok request), Exec.bind_ok _ read,
    Exec.bind_ok _ asked]
  cases granted m.headers.grants with
  | false => rfl
  | true =>
    have at_sub : readRequest sr m1 = .ok sub m1 := readRequest_ok made
    rw [if_pos rfl, Exec.bind_ok _ at_sub]
    rfl

theorem queueSubrequest_eq (psrData : Option Nat) (request : w.mem.requests.read r = some rq)
    (header : w.mem.headers.lists.read rq.headersIn = some hdr)
    (found : w.mem.headers.parts.read hdr.part = some part) :
    queueSubrequest r psrData w = if granted w.mem.headers.grants then
        .ok (.ok w.mem.requests.size) (SubrequestQueues.enqueue { w with
          mem := w.mem.subrequest r rq hdr part w.mem.headers.grants.tail }
          w.mem.requests.size psrData)
      else .ok (.error ngxError) { w with mem := { w.mem with
        headers := { w.mem.headers with grants := w.mem.headers.grants.tail } } } := by
  have made := ngxHttpSubrequest_eq request header found
  rw [queueSubrequest]
  by_cases allowed : granted w.mem.headers.grants = true
  · rw [if_pos allowed] at made ⊢
    rw [Exec.bind_ok _ (onRequests_ok made)]
    rfl
  · rw [if_neg allowed] at made ⊢
    rw [Exec.bind_ok _ (onRequests_ok made)]
    rfl

/-- The requests after the first allocation of `create`. -/
def SubrequestQueues.asked (w : SubrequestQueues V) : RequestMem V :=
  { w.mem with headers := { w.mem.headers with grants := w.mem.headers.grants.tail } }

def SubrequestQueues.created (w : SubrequestQueues V) (r : Nat) (rq : NgxHttpRequest)
    (hdr : NgxListT) (part : NgxListPart) : RequestMem V :=
  let grants := w.mem.headers.grants.tail.tail
  { w.asked.subrequest r rq hdr part grants with
    headers := w.asked.headers.copied hdr part grants }

theorem createQueued_cases (copyVars : Bool) (psrData : Option Nat)
    (request : w.mem.requests.read r = some rq)
    (header : w.mem.headers.lists.read rq.headersIn = some hdr)
    (found : w.mem.headers.parts.read hdr.part = some part) :
    ((granted w.mem.headers.grants = false ∨ granted w.mem.headers.grants.tail = false) ∧
        ∃ e grants, NgxSubRequest.createQueued copyVars n psrData r w = .raised e { w with
          mem := { w.mem with headers := { w.mem.headers with grants } } }) ∨
      ((granted w.mem.headers.grants = true ∧ granted w.mem.headers.grants.tail = true) ∧
        NgxSubRequest.createQueued copyVars n psrData r w = (do
          let _ ← (if copyVars then
            onRequests (NgxSubRequest.copyVariables n r w.mem.requests.size) else pure ())
          pure w.mem.requests.size)
          (SubrequestQueues.enqueue { w with mem := w.created r rq hdr part } w.mem.requests.size
            psrData)) := by
  have first : onRequests (onHeaders palloc) w =
      .ok (granted w.mem.headers.grants) { w with mem := w.asked } :=
    onRequests_ok (onHeaders_ok (palloc_eq w.mem.headers))
  rw [NgxSubRequest.createQueued, Exec.bind_ok _ first]
  cases granted w.mem.headers.grants with
  | false => exact .inl ⟨.inl rfl, _, _, rfl⟩
  | true =>
    have checked : (NgxException.requireCond true : Ngx (SubrequestQueues V) Unit)
        { w with mem := w.asked } = .ok () { w with mem := w.asked } := rfl
    have second := queueSubrequest_eq (w := { w with mem := w.asked }) psrData request header found
    rw [Exec.bind_ok _ checked]
    cases more : granted w.mem.headers.grants.tail with
    | false =>
      have refused : granted w.asked.headers.grants = false := more
      rw [refused, if_neg (by simp)] at second
      rw [Exec.bind_ok _ second]
      exact .inl ⟨.inr rfl, _, _, rfl⟩
    | true =>
      have allowed : granted w.asked.headers.grants = true := more
      rw [if_pos allowed] at second
      let queued := SubrequestQueues.enqueue { w with
        mem := w.asked.subrequest r rq hdr part w.asked.headers.grants.tail }
        w.asked.requests.size psrData
      have repaired : NgxSubRequest.fixLast r w.asked.requests.size queued.mem =
          .ok () (w.created r rq hdr part) :=
        fixLast_subrequest (w := w.asked) w.asked.headers.grants.tail request header
      rw [Exec.bind_ok _ second]
      dsimp only
      rw [Exec.bind_ok _ (onRequests_ok (w := queued) repaired)]
      exact .inr ⟨⟨rfl, rfl⟩, rfl⟩

theorem created_reads (part : NgxListPart) (hdr : NgxListT)
    (request : w.mem.requests.read r = some rq) :
    (w.created r rq hdr part).requests.read r =
        some { rq with postponed := rq.postponed ++ [w.mem.requests.size] } ∧
      (w.created r rq hdr part).requests.read w.mem.requests.size =
        some ⟨w.mem.headers.lists.size, rq.vars, some r, []⟩ :=
  subrequest_reads (w := w.asked) hdr part w.mem.headers.grants.tail.tail request

/-- Creation is all or nothing but for the copy of the variables, which comes after the
subrequest is in the queues. -/
theorem all_or_nothing_iff (copyVars : Bool) (n : Nat) (psrData : Option Nat)
    (request : w.mem.requests.read r = some rq)
    (header : w.mem.headers.lists.read rq.headersIn = some hdr)
    (found : w.mem.headers.parts.read hdr.part = some part)
    (stored : w.mem.vars.read rq.vars = some values) :
    NgxSubRequest.AllOrNothing copyVars n psrData r w ↔
      copyVars = false ∨ granted w.mem.headers.grants = false ∨
        granted w.mem.headers.grants.tail = false ∨
        granted w.mem.headers.grants.tail.tail = true := by
  obtain ⟨kept, made⟩ := created_reads (w := w) part hdr request
  have old := Nat.ne_of_lt (Heap.read_lt request)
  have before : w.postponed r = some rq.postponed :=
    congrArg (Option.map NgxHttpRequest.postponed) request
  rw [NgxSubRequest.AllOrNothing]
  obtain ⟨refused, e, grants, thrown⟩ | ⟨⟨first, second⟩, run⟩ :=
    createQueued_cases (n := n) copyVars psrData request header found
  · rw [thrown]
    refine iff_of_true ⟨rfl, rfl, rfl⟩ (.inr ?_)
    exact refused.imp id .inl
  · let queued := SubrequestQueues.enqueue { w with mem := w.created r rq hdr part }
      w.mem.requests.size psrData
    rw [run, first, second]
    cases copyVars with
    | false =>
      refine iff_of_true ⟨?_, rfl, rfl⟩ (.inl rfl)
      rw [before]
      exact congrArg (Option.map NgxHttpRequest.postponed) kept
    | true =>
      have copied := copyVariables_eq (n := n) kept stored made
      have answers : (w.created r rq hdr part).headers.grants =
        w.mem.headers.grants.tail.tail := rfl
      rw [answers] at copied
      cases third : granted w.mem.headers.grants.tail.tail with
      | true =>
        rw [if_pos third] at copied
        rw [if_pos rfl, Exec.bind_ok _ (onRequests_ok (w := queued) copied)]
        refine iff_of_true ⟨?_, rfl, rfl⟩ (by simp)
        rw [before]
        exact congrArg (Option.map NgxHttpRequest.postponed) ((Heap.read_write_ne old).trans kept)
      | false =>
        rw [if_neg (by simp [third])] at copied
        have thrown : onRequests (NgxSubRequest.copyVariables n r w.mem.requests.size) queued =
            .raised ⟨ngxError⟩ { queued with mem := { w.created r rq hdr part with
              headers := { (w.created r rq hdr part).headers with
                grants := w.mem.headers.grants.tail.tail.tail } } } := by
          unfold onRequests Exec.zoom
          rw [show queued.mem = w.created r rq hdr part from rfl, copied]
        rw [if_pos rfl, Exec.bind_raised _ thrown]
        refine iff_of_false ?_ (by simp)
        rintro ⟨-, posted, -⟩
        simp [queued, SubrequestQueues.enqueue] at posted

private def parentQueues (grants : List Bool) : SubrequestQueues Unit where
  mem :=
    { headers :=
        { lists := ⟨[⟨0, 0, 2⟩]⟩, parts := ⟨[⟨some 0, 0, none⟩]⟩, arrays := ⟨[[none, none]]⟩, grants }
      requests := ⟨[⟨0, 0, none, []⟩]⟩
      vars := ⟨[[()]]⟩ }

theorem all_or_nothing_copied : NgxSubRequest.AllOrNothing true 1 none 0 (parentQueues []) :=
  (all_or_nothing_iff (w := parentQueues []) true 1 none rfl rfl rfl rfl).mpr
    (by simp [parentQueues, granted])

/-- The subrequest is queued when the pool refuses its variables. -/
theorem created_subrequest_abandoned :
    ¬ NgxSubRequest.AllOrNothing true 1 none 0 (parentQueues [true, true, false]) := by
  rintro ⟨-, posted, -⟩
  exact absurd posted (by decide)

end Create

end NgxCpp
