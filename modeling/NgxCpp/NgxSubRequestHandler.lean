import NgxCpp.Exception
import NgxCpp.Foundation.Heap
import NgxCpp.Foundation.Runs

/-! `NgxSubRequestHandler`: what the end of a subrequest does to its parent. The user's
callbacks are a parameter; they return any code or throw, and they have a state of
their own. -/

namespace NgxCpp
open Foundation

inductive Phase where
  | content
  | other
deriving Repr, DecidableEq

inductive WriteEventHandler where
  | runPhases
  | parentPost
  | other
deriving Repr, DecidableEq

/-- `ngx_http_post_subrequest_t`; its handler is `sub_post` for the phase. -/
structure NgxHttpPostSubrequest where
  phase : Phase
  data : Nat
deriving Repr, DecidableEq

/-- What the handler touches of an `ngx_http_request_t`. -/
structure PostRequest where
  parent : Option Nat
  postSubrequest : Option NgxHttpPostSubrequest := none
  writeEventHandler : WriteEventHandler := .other
deriving Repr, DecidableEq

/-- The class `T`. -/
structure PostCallback (σ : Type) where
  subPost : Nat → Nat → Int → σ → Except NgxException Int × σ
  parentPost : Nat → σ → Except NgxException Int × σ

/-- What happened so far: nginx ended a subrequest, `T::parent_post` was called on a
parent, or `ngx_http_finalize_request` was. -/
inductive PostEvent where
  | completed (sr : Nat)
  | parentPost (r : Nat)
  | finalized (r : Nat) (rc : Int)
deriving Repr, DecidableEq

structure PostWorld (σ : Type) where
  requests : Heap PostRequest
  user : σ
  grants : List Bool := []
  log : List PostEvent := []

variable {σ : Type}

namespace PostWorld

def setWriteEventHandler (w : PostWorld σ) (r : Nat) (request : PostRequest)
    (h : WriteEventHandler) : PostWorld σ :=
  { w with requests := w.requests.write r { request with writeEventHandler := h } }

def finalizations (w : PostWorld σ) (r : Nat) : List Int :=
  w.log.filterMap fun
    | .finalized q rc => if q = r then some rc else none
    | _ => none

end PostWorld

open PostWorld

def note (e : PostEvent) : Ngx (PostWorld σ) Unit :=
  Exec.modify fun w => { w with log := w.log ++ [e] }

def callUser (f : σ → Except NgxException Int × σ) : Ngx (PostWorld σ) Int := fun w =>
  match f w.user with
  | (.ok rc, user) => .ok rc { w with user }
  | (.error e, user) => .raised e { w with user }

def readPostRequest (r : Nat) : Ngx (PostWorld σ) PostRequest :=
  Exec.deref fun w => w.requests.read r

def parentOf (r : Nat) : Ngx (PostWorld σ) Nat :=
  Exec.deref fun w => (w.requests.read r).bind PostRequest.parent

def postPalloc : Ngx (PostWorld σ) Bool := fun w =>
  match w.grants with
  | [] => .ok true w
  | granted :: rest => .ok granted { w with grants := rest }

def ngxHttpFinalizeRequest (r : Nat) (rc : Int) : Ngx (PostWorld σ) Unit := note (.finalized r rc)

namespace NgxSubRequestHandler

variable (T : PostCallback σ)

/-- `sub_post`, of either template. -/
def subPost (ph : Phase) (r data : Nat) (rc : Int) : Ngx (PostWorld σ) Int :=
  Exec.catching (do
    let pr ← parentOf r
    let request ← readPostRequest pr
    Exec.modify fun w => w.setWriteEventHandler pr request (match ph with
      | .content => .parentPost
      | .other => .runPhases)
    callUser (T.subPost r data rc)) fun e => pure e.code

/-- `parent_post`, which catches everything. -/
def parentPost (r : Nat) : Ngx (PostWorld σ) Unit :=
  Exec.catching (do
    note (.parentPost r)
    let rc ← callUser (T.parentPost r)
    ngxHttpFinalizeRequest r rc) fun _ => pure ()

/-- What `NgxSubRequest::create` does for the callbacks. -/
def create (ph : Phase) (data r : Nat) : Ngx (PostWorld σ) Nat := do
  let psr ← postPalloc
  NgxException.requireCond psr
  if ← postPalloc then
    let sr ← Exec.gets fun w => w.requests.size
    Exec.modify fun w =>
      { w with requests := w.requests.alloc ⟨some r, some ⟨ph, data⟩, .other⟩ }
    pure sr
  else NgxException.raise

def createAll (ph : Phase) (r : Nat) : List Nat → Ngx (PostWorld σ) (List Nat)
  | [] => pure []
  | data :: rest => do
    let sr ← create ph data r
    let srs ← createAll ph r rest
    pure (sr :: srs)

/-- nginx runs the `write_event_handler` of a request. -/
def resume (r : Nat) : Ngx (PostWorld σ) Unit := do
  let request ← readPostRequest r
  match request.writeEventHandler with
  | .parentPost => parentPost T r
  | _ => pure ()

def complete (c : Nat × Int) : Ngx (PostWorld σ) Unit := do
  note (.completed c.1)
  let request ← readPostRequest c.1
  let _ ← (match request.postSubrequest with
    | some psr => subPost T psr.phase c.1 psr.data c.2
    | none => pure c.2)
  let pr ← parentOf c.1
  resume T pr

def Awaits (w : PostWorld σ) (pr sr data : Nat) : Prop :=
  (∃ h, w.requests.read sr = some ⟨some pr, some ⟨.content, data⟩, h⟩) ∧
    ∃ request, w.requests.read pr = some request

variable {T} {w w' : PostWorld σ} {pr sr data : Nat} {rc : Int} {c : Nat × Int}

theorem callUser_eq (f : σ → Except NgxException Int × σ) (w : PostWorld σ) :
    callUser f w = match (f w.user).1 with
      | .ok rc => .ok rc { w with user := (f w.user).2 }
      | .error e => .raised e { w with user := (f w.user).2 } := by
  unfold callUser
  rcases f w.user with ⟨_ | _, user⟩ <;> rfl

theorem postPalloc_ok {granted : Bool} (h : postPalloc w = .ok granted w') :
    ∃ grants, w' = { w with grants } := by
  unfold postPalloc at h
  split at h
  · obtain ⟨-, rfl⟩ := Outcome.ok.inj h
    exact ⟨_, rfl⟩
  · obtain ⟨-, rfl⟩ := Outcome.ok.inj h
    exact ⟨_, rfl⟩

theorem create_ok {ph : Phase} (h : create ph data pr w = .ok sr w') :
    sr = w.requests.size ∧ ∃ grants, w' = { w with
      requests := w.requests.alloc ⟨some pr, some ⟨ph, data⟩, .other⟩
      grants } := by
  obtain ⟨psr, mid, asked, h⟩ := Exec.bind_eq_ok.mp h
  obtain ⟨some1, rfl⟩ := postPalloc_ok asked
  obtain ⟨_, mid, required, h⟩ := Exec.bind_eq_ok.mp h
  obtain rfl : { w with grants := some1 } = mid := by
    cases psr with
    | true => exact (Outcome.ok.inj required).2
    | false => simp [NgxException.requireCond, NgxException.raise] at required
  obtain ⟨granted, mid, asked, h⟩ := Exec.bind_eq_ok.mp h
  obtain ⟨grants, rfl⟩ := postPalloc_ok asked
  cases granted with
  | true =>
    obtain ⟨rfl, rfl⟩ := Outcome.ok.inj h
    exact ⟨rfl, grants, rfl⟩
  | false => simp [NgxException.raise] at h

theorem Awaits.create {ph : Phase} {sr' data' : Nat} (awaits : Awaits w pr sr data)
    (h : create ph data' pr w = .ok sr' w') : Awaits w' pr sr data := by
  obtain ⟨-, grants, rfl⟩ := create_ok h
  obtain ⟨⟨handler, found⟩, request, parent⟩ := awaits
  exact ⟨⟨handler, Heap.read_alloc found⟩, request, Heap.read_alloc parent⟩

theorem create_awaits {request : PostRequest} (parent : w.requests.read pr = some request)
    (h : NgxSubRequestHandler.create .content data pr w = .ok sr w') :
    Awaits w' pr sr data ∧ w'.requests.read pr = some request := by
  obtain ⟨rfl, grants, rfl⟩ := create_ok h
  have kept := Heap.read_alloc (a := ⟨some pr, some ⟨.content, data⟩, .other⟩) parent
  exact ⟨⟨⟨_, Heap.read_alloc_self⟩, _, kept⟩, kept⟩

theorem createAll_awaits {datas srs : List Nat} {request : PostRequest}
    (parent : w.requests.read pr = some request)
    (h : createAll .content pr datas w = .ok srs w') :
    srs.length = datas.length ∧ (∀ sr ∈ srs, ∃ data, Awaits w' pr sr data) ∧
      ∀ sr data, Awaits w pr sr data → Awaits w' pr sr data := by
  induction datas generalizing w srs with
  | nil =>
    obtain ⟨rfl, rfl⟩ := Outcome.ok.inj h
    exact ⟨rfl, by simp, fun _ _ awaits => awaits⟩
  | cons data rest ih =>
    obtain ⟨sr, mid, made, h⟩ := Exec.bind_eq_ok.mp h
    obtain ⟨srs, mid', others, h⟩ := Exec.bind_eq_ok.mp h
    obtain ⟨rfl, rfl⟩ := Outcome.ok.inj h
    obtain ⟨new, kept⟩ := create_awaits parent made
    obtain ⟨count, waiting, lasting⟩ := ih kept others
    refine ⟨congrArg (· + 1) count, ?_, fun sr data awaits =>
      lasting sr data (awaits.create made)⟩
    intro sr' member
    rcases List.mem_cons.mp member with rfl | member
    · exact ⟨data, lasting _ _ new⟩
    · exact waiting sr' member

/-- The world after `sub_post`, however the user's callback ended. -/
def subPosted (T : PostCallback σ) (w : PostWorld σ) (pr : Nat) (request : PostRequest)
    (sr data : Nat) (rc : Int) : PostWorld σ :=
  { w.setWriteEventHandler pr request .parentPost with
    user := (T.subPost sr data rc w.user).2 }

theorem subPost_eq {request : PostRequest} (T : PostCallback σ) (data : Nat) (rc : Int)
    (child : (w.requests.read sr).bind PostRequest.parent = some pr)
    (parent : w.requests.read pr = some request) :
    ∃ code, subPost T .content sr data rc w = .ok code (subPosted T w pr request sr data rc) := by
  let w1 := w.setWriteEventHandler pr request .parentPost
  have found : parentOf sr w = .ok pr w :=
    Exec.deref_some (f := fun w : PostWorld σ => (w.requests.read sr).bind PostRequest.parent) child
  have read : readPostRequest pr w = .ok request w :=
    Exec.deref_some (f := fun w : PostWorld σ => w.requests.read pr) parent
  have set : (Exec.modify fun w => w.setWriteEventHandler pr request .parentPost :
      Ngx (PostWorld σ) Unit) w = .ok () w1 := rfl
  unfold subPost Exec.catching
  rw [Exec.bind_ok _ found, Exec.bind_ok _ read]
  dsimp only
  rw [Exec.bind_ok _ set, callUser_eq]
  have user : w1.user = w.user := rfl
  rw [user]
  cases ended : T.subPost sr data rc w.user with
  | mk result user => cases result with
    | ok code => exact ⟨code, by simp [subPosted, ended, w1]⟩
    | error e => exact ⟨e.code, by simp [subPosted, ended, w1]⟩

/-- The world after `parent_post`, which finalizes the parent unless the user's
callback throws. -/
def parentPosted (T : PostCallback σ) (w : PostWorld σ) (pr : Nat) : PostWorld σ :=
  { w with
    user := (T.parentPost pr w.user).2
    log := w.log ++ .parentPost pr :: match (T.parentPost pr w.user).1 with
      | .ok rc => [.finalized pr rc]
      | .error _ => [] }

theorem parentPost_eq (T : PostCallback σ) (w : PostWorld σ) (pr : Nat) :
    parentPost T pr w = .ok () (parentPosted T w pr) := by
  have noted : note (.parentPost pr) w = .ok () { w with log := w.log ++ [.parentPost pr] } := rfl
  unfold parentPost Exec.catching parentPosted
  rw [Exec.bind_ok _ noted, Exec.bind_apply, callUser_eq]
  dsimp only
  cases T.parentPost pr w.user with
  | mk result user => cases result with
    | ok rc => simp [ngxHttpFinalizeRequest, note]
    | error e => rfl

theorem complete_eq (awaits : Awaits w pr c.1 data) :
    ∃ request, w.requests.read pr = some request ∧ complete T c w = .ok () (parentPosted T
      (subPosted T { w with log := w.log ++ [.completed c.1] } pr request c.1 data c.2) pr) := by
  obtain ⟨⟨handler, child⟩, request, parent⟩ := awaits
  let w1 : PostWorld σ := { w with log := w.log ++ [.completed c.1] }
  have noted : note (.completed c.1) w = .ok () w1 := rfl
  have read : readPostRequest c.1 w1 = .ok ⟨some pr, some ⟨.content, data⟩, handler⟩ w1 :=
    Exec.deref_some (f := fun w : PostWorld σ => w.requests.read c.1) child
  obtain ⟨code, posted⟩ := subPost_eq (w := w1) T data c.2 (by rw [child]; rfl) parent
  let w2 := subPosted T w1 pr request c.1 data c.2
  have written : w2.requests.read pr = some { request with writeEventHandler := .parentPost } :=
    Heap.read_write_self parent
  have kept : (w2.requests.read c.1).bind PostRequest.parent = some pr := by
    by_cases same : c.1 = pr
    · have itself : request.parent = some pr := by
        rw [same, parent] at child
        rw [Option.some.inj child]
      rw [same, written]
      exact itself
    · have other : w2.requests.read c.1 = w.requests.read c.1 := Heap.read_write_ne same
      rw [other, child]
      rfl
  have found : parentOf c.1 w2 = .ok pr w2 :=
    Exec.deref_some (f := fun w : PostWorld σ => (w.requests.read c.1).bind PostRequest.parent) kept
  have at_parent := Exec.deref_some (ε := NgxException)
    (f := fun w : PostWorld σ => w.requests.read pr) written
  refine ⟨request, parent, ?_⟩
  rw [complete, Exec.bind_ok _ noted, Exec.bind_ok _ read]
  dsimp only
  rw [Exec.bind_ok _ posted, Exec.bind_ok _ found, resume, readPostRequest,
    Exec.bind_ok _ at_parent]
  exact parentPost_eq T _ pr

theorem Awaits.complete {sr' data' : Nat} (awaits : Awaits w pr c.1 data)
    (other : Awaits w pr sr' data')
    (h : complete T c w = .ok () w') : Awaits w' pr sr' data' := by
  obtain ⟨request, parent, completed⟩ := complete_eq (T := T) awaits
  obtain ⟨-, rfl⟩ := Outcome.ok.inj (completed.symm.trans h)
  obtain ⟨⟨handler, found⟩, -⟩ := other
  have written : (w.requests.write pr { request with writeEventHandler := .parentPost }).read pr =
      some { request with writeEventHandler := .parentPost } := Heap.read_write_self parent
  refine ⟨?_, _, written⟩
  by_cases same : sr' = pr
  · rw [same, parent] at found
    obtain rfl := Option.some.inj found
    exact ⟨.parentPost, by rw [same]; exact written⟩
  · exact ⟨handler, (Heap.read_write_ne same).trans found⟩

theorem complete_log (awaits : Awaits w pr c.1 data) (h : complete T c w = .ok () w') :
    w'.log = w.log ++ .completed c.1 :: .parentPost pr ::
      match (T.parentPost pr (T.subPost c.1 data c.2 w.user).2).1 with
        | .ok code => [.finalized pr code]
        | .error _ => [] := by
  obtain ⟨request, parent, completed⟩ := complete_eq (T := T) awaits
  obtain ⟨-, rfl⟩ := Outcome.ok.inj (completed.symm.trans h)
  simp [parentPosted, subPosted, setWriteEventHandler]

end NgxSubRequestHandler

open NgxSubRequestHandler

section Finish

variable {T : PostCallback σ} {w w1 w2 : PostWorld σ} {pr sr data : Nat} {request : PostRequest}

/-- However the subrequest ends, the parent is finalized once exactly when the user's
`parent_post` does not throw. -/
theorem parent_finalized_iff (parent : w.requests.read pr = some request)
    (created : create .content data pr w = .ok sr w1) (later : w2.requests = w1.requests)
    (rc : Int) :
    ∃ w3, complete T (sr, rc) w2 = .ok () w3 ∧
      ((w3.finalizations pr).length = (w2.finalizations pr).length + 1 ↔
        ∃ code, (T.parentPost pr (T.subPost sr data rc w2.user).2).1 = .ok code) := by
  obtain ⟨⟨child, kept⟩, -⟩ := create_awaits parent created
  have awaits : Awaits w2 pr sr data := ⟨later ▸ child, later ▸ kept⟩
  obtain ⟨_, -, completed⟩ := complete_eq (T := T) (c := (sr, rc)) awaits
  refine ⟨_, completed, ?_⟩
  rw [finalizations, complete_log awaits completed, List.filterMap_append, finalizations]
  cases (T.parentPost pr (T.subPost sr data rc w2.user).2).1 with
  | ok code => simp
  | error e => simp

/-- A user whose `sub_post` passes the result on and whose `parent_post` throws. -/
private def thrower : PostCallback Unit where
  subPost _ _ rc _ := (.ok rc, ())
  parentPost _ _ := (.error ⟨ngxError⟩, ())

private def returner : PostCallback Unit where
  subPost _ _ rc _ := (.ok rc, ())
  parentPost _ _ := (.ok 200, ())

private def oneParent : PostWorld Unit := ⟨⟨[⟨none, none, .other⟩]⟩, (), [], []⟩

private def oneChild : PostWorld Unit :=
  ⟨⟨[⟨none, none, .other⟩, ⟨some 0, some ⟨.content, 7⟩, .other⟩]⟩, (), [], []⟩

private theorem oneChild_created : create .content 7 0 oneParent = .ok 1 oneChild := rfl

theorem parent_finalized_ok :
    ∃ w3, complete returner (1, ngxOk) oneChild = .ok () w3 ∧
      (w3.finalizations 0).length = 1 := by
  have later : oneChild.requests = oneChild.requests := rfl
  obtain ⟨w3, done, once⟩ :=
    parent_finalized_iff (T := returner) rfl oneChild_created later ngxOk
  exact ⟨w3, done, once.mpr ⟨200, rfl⟩⟩

/-- The parent of a subrequest that ended is resumed and never finalized. -/
theorem parent_never_finalized :
    create .content 7 0 oneParent = .ok 1 oneChild ∧
      ∃ w3, complete thrower (1, ngxOk) oneChild = .ok () w3 ∧ w3.finalizations 0 = [] :=
  ⟨oneChild_created, _, rfl, rfl⟩

end Finish

section Order

variable {T : PostCallback σ} {w w' : PostWorld σ} {pr : Nat}

/-- Of the events, the ends of subrequests and the calls of `T::parent_post`. -/
def PostEvent.progress : PostEvent → Bool
  | .finalized _ _ => false
  | _ => true

/-- `T::parent_post` ran once on the parent, and no subrequest ended after that. -/
def Waited (pr : Nat) (log : List PostEvent) : Prop :=
  log.count (.parentPost pr) = 1 ∧
    ∀ before after, log = before ++ .parentPost pr :: after → ∀ sr, .completed sr ∉ after

theorem each_complete (T : PostCallback σ) (cs : List (Nat × Int))
    (awaits : ∀ c ∈ cs, ∃ data, Awaits w pr c.1 data) :
    ∃ w' events, Exec.each (complete T) cs w = .ok () w' ∧ w'.log = w.log ++ events ∧
      events.filter PostEvent.progress =
        cs.flatMap fun c => [.completed c.1, .parentPost pr] := by
  induction cs generalizing w with
  | nil => exact ⟨w, [], rfl, by simp, rfl⟩
  | cons c cs ih =>
    obtain ⟨data, first⟩ := awaits c (by simp)
    obtain ⟨request, -, completed⟩ := complete_eq (T := T) first
    obtain ⟨w', events, rest, log, progress⟩ := ih fun c' member => by
      obtain ⟨data', waiting⟩ := awaits c' (List.mem_cons_of_mem _ member)
      exact ⟨data', first.complete waiting completed⟩
    rw [complete_log first completed, List.append_assoc] at log
    refine ⟨w', _, (Exec.each_cons_ok completed).trans rest, log, ?_⟩
    cases (T.parentPost pr (T.subPost c.1 data c.2 w.user).2).1 with
    | ok code => simp [List.filter_cons, PostEvent.progress, progress]
    | error e => simp [List.filter_cons, PostEvent.progress, progress]

theorem count_progress (events : List PostEvent) :
    events.count (.parentPost pr) = (events.filter PostEvent.progress).count (.parentPost pr) :=
  (List.count_filter (by rfl)).symm

theorem count_parentPost (cs : List (Nat × Int)) :
    (cs.flatMap fun c => [PostEvent.completed c.1, .parentPost pr]).count (.parentPost pr) =
      cs.length := by
  induction cs with
  | nil => rfl
  | cons c cs ih => simp [ih]

/-- A parent is resumed into `parent_post` at each end of a subrequest of its own, so
that runs once and after all of them exactly when there is one. -/
theorem parent_post_per_subrequest {w1 w2 : PostWorld σ} {request : PostRequest}
    {datas srs : List Nat} (parent : w.requests.read pr = some request)
    (created : createAll .content pr datas w = .ok srs w1)
    (later : w2.requests = w1.requests) {order : List (Nat × Int)}
    (ended : (order.map Prod.fst).Perm srs) :
    ∃ w3 events, Exec.each (complete T) order w2 = .ok () w3 ∧ w3.log = w2.log ++ events ∧
      events.filter PostEvent.progress =
        order.flatMap (fun c => [.completed c.1, .parentPost pr]) ∧
      (Waited pr events ↔ datas.length = 1) := by
  obtain ⟨count, waiting, -⟩ := createAll_awaits parent created
  obtain ⟨w3, events, run, log, progress⟩ := each_complete (w := w2) T order fun c member => by
      obtain ⟨data, ⟨h, child⟩, kept⟩ :=
        waiting c.1 (ended.mem_iff.mp (List.mem_map_of_mem member))
      exact ⟨data, ⟨h, later ▸ child⟩, later ▸ kept⟩
  have ends : order.length = datas.length := by
    rw [← count, ← ended.length_eq, List.length_map]
  have posts : events.count (.parentPost pr) = datas.length := by
    rw [count_progress, progress, count_parentPost, ends]
  refine ⟨w3, events, run, log, progress, ?_⟩
  constructor
  · intro waited
    exact posts.symm.trans waited.1
  · intro one
    refine ⟨posts.trans one, ?_⟩
    intro before after split sr late
    obtain ⟨c, rfl⟩ := List.length_eq_one_iff.mp (ends.trans one)
    rw [split, List.filter_append, List.filter_cons_of_pos (by rfl)] at progress
    have second : .completed sr ∈ after.filter PostEvent.progress :=
      List.mem_filter.mpr ⟨late, rfl⟩
    obtain ⟨first, rest, tail⟩ := List.append_of_mem second
    rw [tail] at progress
    cases heads : before.filter PostEvent.progress with
    | nil => simp [heads] at progress
    | cons e es =>
      rw [heads] at progress
      have long := congrArg List.length progress
      simp at long
      omega

private def twoChildren : PostWorld Unit :=
  ⟨⟨[⟨none, none, .other⟩, ⟨some 0, some ⟨.content, 7⟩, .other⟩,
    ⟨some 0, some ⟨.content, 8⟩, .other⟩]⟩, (), [], []⟩

private theorem twoChildren_created :
    createAll .content 0 [7, 8] oneParent = .ok [1, 2] twoChildren := rfl

theorem parent_post_after_each :
    ∃ w3, Exec.each (complete returner) [(2, ngxOk), (1, ngxOk)] twoChildren = .ok () w3 ∧
      w3.log.filter PostEvent.progress =
        [.completed 2, .parentPost 0, .completed 1, .parentPost 0] := by
  have ended : ([(2, ngxOk), (1, ngxOk)].map Prod.fst).Perm [1, 2] := List.Perm.swap 1 2 []
  have later : twoChildren.requests = twoChildren.requests := rfl
  obtain ⟨w3, events, run, log, progress, -⟩ :=
    parent_post_per_subrequest (T := returner) rfl twoChildren_created later ended
  have quiet : twoChildren.log = [] := rfl
  rw [quiet, List.nil_append] at log
  exact ⟨w3, run, log ▸ progress⟩

/-- With two subrequests `T::parent_post` runs after the first. -/
theorem parent_post_not_waiting :
    createAll .content 0 [7, 8] oneParent = .ok [1, 2] twoChildren ∧
      ∃ w3, Exec.each (complete returner) [(1, ngxOk), (2, ngxOk)] twoChildren = .ok () w3 ∧
        ¬ Waited 0 w3.log := by
  refine ⟨twoChildren_created, _, rfl, ?_⟩
  intro waited
  exact absurd waited.1 (by decide)

end Order

end NgxCpp
