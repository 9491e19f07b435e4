import NgxCpp.NgxHeaders
import NgxCpp.NgxListShared

/-! `NgxSubRequest::create` and the request headers of a parent and its
subrequest. The pool's answers are those of the header memory. -/

namespace NgxCpp
open Foundation

variable {V : Type}

/-- What `create` reads and writes of `ngx_http_request_t`: the list of
`headers_in`, `variables`, the parent and the postponed subrequests. -/
structure NgxHttpRequest where
  headersIn : Nat
  vars : Nat
  parent : Option Nat := none
  postponed : List Nat := []
deriving Repr, DecidableEq

structure RequestMem (V : Type) where
  headers : ListMem NgxTableElt
  requests : Heap NgxHttpRequest := {}
  vars : Heap (List V) := {}
deriving Repr, DecidableEq

def onHeaders {α : Type} (x : Ngx (ListMem NgxTableElt) α) : Ngx (RequestMem V) α :=
  Exec.zoom RequestMem.headers (fun headers w => { w with headers }) x

def readRequest (r : Nat) : Ngx (RequestMem V) NgxHttpRequest :=
  Exec.deref fun w => w.requests.read r

def setRequest (r : Nat) (request : NgxHttpRequest) : Ngx (RequestMem V) Unit :=
  Exec.modify fun w => { w with requests := w.requests.write r request }

def newRequest (request : NgxHttpRequest) : Ngx (RequestMem V) Nat := fun w =>
  .ok w.requests.size { w with requests := w.requests.alloc request }

/-- `ngx_http_subrequest`: the subrequest gets a copy of the struct `headers_in`
and the variables themselves, and is queued on its parent. -/
def ngxHttpSubrequest (r : Nat) : Ngx (RequestMem V) (Except Int Nat) := do
  let request ← readRequest r
  if ← onHeaders palloc then
    let hdr ← onHeaders (readList request.headersIn)
    let part ← onHeaders (readPart hdr.part)
    let first ← onHeaders (newPart part)
    let headersIn ← onHeaders (newList { hdr with part := first })
    let sr ← newRequest { headersIn, vars := request.vars, parent := some r }
    setRequest r { request with postponed := request.postponed ++ [sr] }
    pure (.ok sr)
  else pure (.error ngxError)

namespace NgxSubRequest

/-- `copy_variables`, for `n` indexed variables. -/
def copyVariables (n : Nat) (r sr : Nat) : Ngx (RequestMem V) Unit := do
  let request ← readRequest r
  let values ← Exec.deref fun w => w.vars.read request.vars
  if ← onHeaders palloc then
    let sub ← readRequest sr
    let vars ← Exec.gets fun w => w.vars.size
    Exec.modify fun w => { w with vars := w.vars.alloc (values.take n) }
    setRequest sr { sub with vars }
  else NgxException.raise

/-- The repair of the copied `last` in `create`. -/
def fixLast (r sr : Nat) : Ngx (RequestMem V) Unit := do
  let request ← readRequest r
  let hdr ← onHeaders (readList request.headersIn)
  if hdr.last = hdr.part then
    let sub ← readRequest sr
    let copy ← onHeaders (readList sub.headersIn)
    onHeaders (Exec.modify fun m => m.setList sub.headersIn { copy with last := copy.part })
  else pure ()

def create (copyVars : Bool) (n : Nat) (r : Nat) : Ngx (RequestMem V) Nat := do
  let psr ← onHeaders palloc
  NgxException.requireCond psr
  let rc ← ngxHttpSubrequest r
  match rc with
  | .error rc => NgxException.raise rc
  | .ok sr =>
    fixLast r sr
    let _ ← (if copyVars then copyVariables n r sr else pure ())
    pure sr

end NgxSubRequest

section Create

variable {w w' : RequestMem V} {r sr n : Nat} {rq sub : NgxHttpRequest}
  {sh : ListShape NgxTableElt} {copyVars : Bool}

theorem onHeaders_ok {α : Type} {x : Ngx (ListMem NgxTableElt) α} {a : α}
    {m : ListMem NgxTableElt} (h : x w.headers = .ok a m) :
    onHeaders x w = .ok a { w with headers := m } :=
  Exec.zoom_ok h

theorem onHeaders_palloc {granted : Bool} (h : onHeaders palloc w = .ok granted w') :
    ∃ grants, w' = { w with headers := { w.headers with grants } } := by
  obtain ⟨m, asked, rfl⟩ := Exec.zoom_eq_ok.mp h
  obtain ⟨grants, rfl, -⟩ := palloc_ok asked
  exact ⟨grants, rfl⟩

theorem readRequest_ok (h : w.requests.read r = some rq) : readRequest r w = .ok rq w :=
  Exec.deref_some h

/-- The requests' memory after `ngx_http_subrequest`. -/
def RequestMem.subrequest (w : RequestMem V) (r : Nat) (rq : NgxHttpRequest) (hdr : NgxListT)
    (part : NgxListPart) (grants : List Bool) : RequestMem V where
  headers :=
    { lists := w.headers.lists.alloc { hdr with part := w.headers.parts.size }
      parts := w.headers.parts.alloc part
      arrays := w.headers.arrays
      grants }
  requests := (w.requests.alloc ⟨w.headers.lists.size, rq.vars, some r, []⟩).write r
    { rq with postponed := rq.postponed ++ [w.requests.size] }
  vars := w.vars

theorem ngxHttpSubrequest_ok {hdr : NgxListT} {part : NgxListPart}
    (request : w.requests.read r = some rq) (header : w.headers.lists.read rq.headersIn = some hdr)
    (found : w.headers.parts.read hdr.part = some part)
    (h : ngxHttpSubrequest r w = .ok (.ok sr) w') :
    sr = w.requests.size ∧ ∃ grants, w' = w.subrequest r rq hdr part grants := by
  rw [ngxHttpSubrequest, Exec.bind_ok _ (readRequest_ok request), Exec.bind_eq_ok] at h
  obtain ⟨granted, mid, asked, h⟩ := h
  obtain ⟨grants, rfl⟩ := onHeaders_palloc asked
  cases granted with
  | false =>
    rw [if_neg (by simp)] at h
    exact absurd (Outcome.ok.inj h).1 (by simp)
  | true =>
    have at_list := onHeaders_ok (w := { w with headers := { w.headers with grants } })
      (readList_ok (m := { w.headers with grants }) header)
    have at_part := onHeaders_ok (w := { w with headers := { w.headers with grants } })
      (readPart_ok (m := { w.headers with grants }) found)
    rw [if_pos rfl, Exec.bind_ok _ at_list, Exec.bind_ok _ at_part] at h
    obtain ⟨same, rfl⟩ := Outcome.ok.inj h
    injection same with same
    exact ⟨same.symm, grants, rfl⟩

theorem copyVariables_ok (h : NgxSubRequest.copyVariables n r sr w = .ok () w') :
    ∃ grants request values sub, w'.headers = { w.headers with grants } ∧
      w.requests.read r = some request ∧ w.vars.read request.vars = some values ∧
      w.requests.read sr = some sub ∧
      w'.requests = w.requests.write sr { sub with vars := w.vars.size } ∧
      w'.vars = w.vars.alloc (values.take n) := by
  obtain ⟨request, mid, read, h⟩ := Exec.bind_eq_ok.mp h
  obtain ⟨parent, rfl⟩ := Exec.deref_eq_ok.mp read
  obtain ⟨values, mid, read, h⟩ := Exec.bind_eq_ok.mp h
  obtain ⟨copied, rfl⟩ := Exec.deref_eq_ok.mp read
  obtain ⟨granted, mid, asked, h⟩ := Exec.bind_eq_ok.mp h
  obtain ⟨grants, rfl⟩ := onHeaders_palloc asked
  cases granted with
  | false => simp [NgxException.raise] at h
  | true =>
    rw [if_pos rfl] at h
    obtain ⟨sub, mid, read, h⟩ := Exec.bind_eq_ok.mp h
    obtain ⟨found, rfl⟩ := Exec.deref_eq_ok.mp read
    obtain ⟨-, rfl⟩ := Outcome.ok.inj h
    exact ⟨grants, request, values, sub, rfl, parent, copied, found, rfl, rfl⟩

theorem fixLast_ok {hdr copy : NgxListT} (request : w.requests.read r = some rq)
    (header : w.headers.lists.read rq.headersIn = some hdr)
    (made : w.requests.read sr = some sub)
    (copied : w.headers.lists.read sub.headersIn = some copy) :
    NgxSubRequest.fixLast r sr w = .ok () { w with
      headers := if hdr.last = hdr.part
        then w.headers.setList sub.headersIn { copy with last := copy.part } else w.headers } := by
  rw [NgxSubRequest.fixLast, Exec.bind_ok _ (readRequest_ok request),
    Exec.bind_ok _ (onHeaders_ok (readList_ok header))]
  by_cases single : hdr.last = hdr.part
  · rw [if_pos single, if_pos single, Exec.bind_ok _ (readRequest_ok made),
      Exec.bind_ok _ (onHeaders_ok (readList_ok copied))]
    rfl
  · rw [if_neg single, if_neg single]
    rfl

theorem subrequest_reads (hdr : NgxListT) (part : NgxListPart) (grants : List Bool)
    (request : w.requests.read r = some rq) :
    (w.subrequest r rq hdr part grants).requests.read r =
        some { rq with postponed := rq.postponed ++ [w.requests.size] } ∧
      (w.subrequest r rq hdr part grants).requests.read w.requests.size =
        some ⟨w.headers.lists.size, rq.vars, some r, []⟩ := by
  have old := Nat.ne_of_lt (Heap.read_lt request)
  exact ⟨Heap.read_write_self (Heap.read_alloc request),
    (Heap.read_write_ne old.symm).trans Heap.read_alloc_self⟩

theorem fixLast_subrequest {hdr : NgxListT} {part : NgxListPart} (grants : List Bool)
    (request : w.requests.read r = some rq)
    (header : w.headers.lists.read rq.headersIn = some hdr) :
    NgxSubRequest.fixLast r w.requests.size (w.subrequest r rq hdr part grants) =
      .ok () { w.subrequest r rq hdr part grants with
        headers := w.headers.copied hdr part grants } := by
  obtain ⟨kept, made⟩ := subrequest_reads hdr part grants request
  rw [fixLast_ok kept (Heap.read_alloc header) made Heap.read_alloc_self]
  by_cases single : hdr.last = hdr.part
  · simp [single, ListMem.setList, RequestMem.subrequest, ListMem.copied, Heap.write_alloc]
  · simp [single, RequestMem.subrequest, ListMem.copied]

theorem create_steps (h : NgxSubRequest.create copyVars n r w = .ok sr w') :
    ∃ grants w1 w2,
      ngxHttpSubrequest r { w with headers := { w.headers with grants } } = .ok (.ok sr) w1 ∧
      NgxSubRequest.fixLast r sr w1 = .ok () w2 ∧
      (if copyVars then NgxSubRequest.copyVariables n r sr else pure ()) w2 = .ok () w' := by
  obtain ⟨psr, mid, asked, h⟩ := Exec.bind_eq_ok.mp h
  obtain ⟨grants, rfl⟩ := onHeaders_palloc asked
  obtain ⟨_, mid, required, h⟩ := Exec.bind_eq_ok.mp h
  obtain rfl : { w with headers := { w.headers with grants } } = mid := by
    cases psr with
    | true => exact (Outcome.ok.inj required).2
    | false => simp [NgxException.requireCond, NgxException.raise] at required
  obtain ⟨rc, w1, made, h⟩ := Exec.bind_eq_ok.mp h
  cases rc with
  | error rc => simp [NgxException.raise] at h
  | ok new =>
    obtain ⟨_, w2, fixed, h⟩ := Exec.bind_eq_ok.mp h
    obtain ⟨_, last, copied, h⟩ := Exec.bind_eq_ok.mp h
    obtain ⟨rfl, rfl⟩ := Outcome.ok.inj h
    exact ⟨grants, w1, w2, made, fixed, copied⟩

theorem create_ok (request : w.requests.read r = some rq)
    (rep : Represents w.headers rq.headersIn sh)
    (h : NgxSubRequest.create copyVars n r w = .ok sr w') :
    ∃ part grants rq' sub, w.headers.parts.read sh.hdr.part = some part ∧
      w'.headers = w.headers.copied sh.hdr part grants ∧
      w'.requests.read r = some rq' ∧ rq'.headersIn = rq.headersIn ∧
      w'.requests.read sr = some sub ∧ sub.headersIn = w.headers.lists.size := by
  obtain ⟨v, after, -, -, found⟩ := rep.first_part
  obtain ⟨some1, _, _, made, fixed, copied⟩ := create_steps h
  let w1 : RequestMem V := { w with headers := { w.headers with grants := some1 } }
  obtain ⟨rfl, grants, rfl⟩ := ngxHttpSubrequest_ok (w := w1) request rep.header found made
  rw [fixLast_subrequest (w := w1) grants request rep.header] at fixed
  obtain ⟨-, rfl⟩ := Outcome.ok.inj fixed
  have old := Nat.ne_of_lt (Heap.read_lt request)
  obtain ⟨kept, made⟩ := subrequest_reads (w := w1) sh.hdr
    ⟨some v.array, v.elems.length, (after.map PartView.addr).head?⟩ grants request
  cases copyVars with
  | false =>
    obtain ⟨-, rfl⟩ := Outcome.ok.inj copied
    exact ⟨_, grants, _, _, found, rfl, kept, rfl, made, rfl⟩
  | true =>
    obtain ⟨some2, _, _, sub, headers, -, -, at_sub, requests, -⟩ := copyVariables_ok copied
    obtain rfl := Option.some.inj (at_sub.symm.trans made)
    refine ⟨_, some2, { rq with postponed := rq.postponed ++ [w.requests.size] },
      ⟨w.headers.lists.size, w.vars.size, some r, []⟩, found, headers, ?_, rfl, ?_, rfl⟩
    · rw [requests]
      exact (Heap.read_write_ne old).trans kept
    · rw [requests]
      exact Heap.read_write_self made

theorem fixLast_keeps (h : NgxSubRequest.fixLast r sr w = .ok () w') :
    w'.requests = w.requests ∧ w'.vars = w.vars := by
  obtain ⟨request, mid, read, h⟩ := Exec.bind_eq_ok.mp h
  obtain ⟨-, rfl⟩ := Exec.deref_eq_ok.mp read
  obtain ⟨hdr, mid, read, h⟩ := Exec.bind_eq_ok.mp h
  obtain ⟨m, -, rfl⟩ := Exec.zoom_eq_ok.mp read
  by_cases single : hdr.last = hdr.part
  · rw [if_pos single] at h
    obtain ⟨sub, mid, read, h⟩ := Exec.bind_eq_ok.mp h
    obtain ⟨-, rfl⟩ := Exec.deref_eq_ok.mp read
    obtain ⟨copy, mid, read, h⟩ := Exec.bind_eq_ok.mp h
    obtain ⟨m', -, rfl⟩ := Exec.zoom_eq_ok.mp read
    obtain ⟨m', -, rfl⟩ := Exec.zoom_eq_ok.mp h
    exact ⟨rfl, rfl⟩
  · rw [if_neg single] at h
    obtain ⟨-, rfl⟩ := Outcome.ok.inj h
    exact ⟨rfl, rfl⟩

theorem ngxHttpSubrequest_requests (h : ngxHttpSubrequest r w = .ok (.ok sr) w') :
    ∃ rq hdr part grants, w.requests.read r = some rq ∧ sr = w.requests.size ∧
      w' = w.subrequest r rq hdr part grants := by
  obtain ⟨rq, mid, read, h'⟩ := Exec.bind_eq_ok.mp h
  obtain ⟨request, rfl⟩ := Exec.deref_eq_ok.mp read
  obtain ⟨granted, mid, asked, h'⟩ := Exec.bind_eq_ok.mp h'
  obtain ⟨grants, rfl⟩ := onHeaders_palloc asked
  cases granted with
  | false => exact absurd (Outcome.ok.inj h').1 (by simp)
  | true =>
    rw [if_pos rfl] at h'
    obtain ⟨hdr, mid, read, h'⟩ := Exec.bind_eq_ok.mp h'
    obtain ⟨m, list, rfl⟩ := Exec.zoom_eq_ok.mp read
    obtain ⟨header, rfl⟩ := Exec.deref_eq_ok.mp list
    obtain ⟨part, mid, read', -⟩ := Exec.bind_eq_ok.mp h'
    obtain ⟨m, cell, -⟩ := Exec.zoom_eq_ok.mp read'
    obtain ⟨found, -⟩ := Exec.deref_eq_ok.mp cell
    obtain ⟨same, grants', after⟩ := ngxHttpSubrequest_ok request header found h
    exact ⟨rq, hdr, part, grants', request, same, after⟩

theorem create_variables (h : NgxSubRequest.create true n r w = .ok sr w') :
    ∃ rq values rq' sub, w.requests.read r = some rq ∧ w.vars.read rq.vars = some values ∧
      w'.requests.read r = some rq' ∧ rq'.vars = rq.vars ∧
      w'.requests.read sr = some sub ∧ sub.vars = w.vars.size ∧
      w'.vars = w.vars.alloc (values.take n) := by
  obtain ⟨some1, _, _, made, fixed, copied⟩ := create_steps h
  let w1 : RequestMem V := { w with headers := { w.headers with grants := some1 } }
  obtain ⟨rq, hdr, part, grants, request, rfl, rfl⟩ := ngxHttpSubrequest_requests (w := w1) made
  obtain ⟨requests, vars⟩ := fixLast_keeps fixed
  obtain ⟨kept, made⟩ := subrequest_reads hdr part grants request
  obtain ⟨_, request', values, sub, -, at_parent, copy, at_sub, written, fresh⟩ :=
    copyVariables_ok copied
  rw [requests] at at_parent at_sub written
  rw [vars] at copy fresh written
  obtain rfl := Option.some.inj (at_parent.symm.trans kept)
  have old := Nat.ne_of_lt (Heap.read_lt request)
  refine ⟨rq, values, { rq with postponed := rq.postponed ++ [w.requests.size] },
    { sub with vars := w.vars.size }, request, copy, ?_, rfl, ?_, rfl, fresh⟩
  · rw [written]
    exact (Heap.read_write_ne old).trans kept
  · rw [written]
    exact Heap.read_write_self at_sub

end Create

/-- After these adds on the headers of a request and of its subrequest, iterating
each list yields `xs` and its own adds, in order. -/
def HeadersIsolated (w : RequestMem V) (r sr : Nat) (xs : List NgxTableElt)
    (adds : List (Side × NgxTableElt)) : Prop :=
  ∃ request sub m, w.requests.read r = some request ∧ w.requests.read sr = some sub ∧
    Exec.each (fun add => NgxHeaders.add (add.1.list request.headersIn sub.headersIn) add.2) adds
      w.headers = .ok () m ∧
    m.shown request.headersIn = some (xs ++ (Side.parent.own adds).map NgxTableElt.hashed) ∧
    m.shown sub.headersIn = some (xs ++ (Side.child.own adds).map NgxTableElt.hashed)

section Headers

variable {w : RequestMem V} {r sr : Nat} {request sub : NgxHttpRequest}
  {xs : List NgxTableElt} {adds : List (Side × NgxTableElt)}

theorem each_add_eq_pushes (l l' : Nat) (adds : List (Side × NgxTableElt)) :
    Exec.each (fun add => NgxHeaders.add (add.1.list l l') add.2) adds =
      pushes l l' (adds.map fun add => (add.1, add.2.hashed)) := by
  induction adds with
  | nil => rfl
  | cons add adds ih =>
    funext m
    rw [Exec.each, List.map_cons, pushes, Exec.each, ih, Exec.bind_apply, Exec.bind_apply,
      add_eq_push]
    rfl

theorem own_hashed (side : Side) (adds : List (Side × NgxTableElt)) :
    side.own (adds.map fun add => (add.1, add.2.hashed)) =
      (side.own adds).map NgxTableElt.hashed := by
  induction adds with
  | nil => rfl
  | cons add adds ih =>
    by_cases same : add.1 = side <;> simp [Side.own_cons, same, ih]

theorem headersIsolated_iff (xs : List NgxTableElt) (adds : List (Side × NgxTableElt))
    (found : w.requests.read r = some request)
    (found' : w.requests.read sr = some sub) :
    HeadersIsolated w r sr xs adds ↔ Isolated w.headers request.headersIn sub.headersIn xs
      (adds.map fun add => (add.1, add.2.hashed)) := by
  simp only [HeadersIsolated, Isolated, each_add_eq_pushes, own_hashed, found, found',
    Option.some.injEq]
  constructor
  · rintro ⟨_, _, m, rfl, rfl, rest⟩
    exact ⟨m, rest⟩
  · rintro ⟨m, rest⟩
    exact ⟨_, _, m, rfl, rfl, rest⟩

end Headers

/-- Adds on a parent and its subrequest stay apart, whatever the headers, exactly
when there are none, or when the parent had one part of headers and that was full
or all adds are on one side. -/
theorem subrequest_headers_isolated_iff {w w' : RequestMem V} {r sr n : Nat} {rq : NgxHttpRequest}
    {sh : ListShape NgxTableElt} {copyVars : Bool} (request : w.requests.read r = some rq)
    (rep : Represents w.headers rq.headersIn sh)
    (created : NgxSubRequest.create copyVars n r w = .ok sr w') (generous : w'.headers.Generous)
    (sides : List Side) :
    (∀ adds, adds.map Prod.fst = sides → HeadersIsolated w' r sr sh.elems adds) ↔
      sides = [] ∨ sh.front = [] ∧ (sh.tail.elems.length = sh.hdr.nalloc ∨
        ∀ s ∈ sides, ∀ s' ∈ sides, s = s') := by
  obtain ⟨part, grants, rq', sub, found, headers, kept, same, made, copy⟩ :=
    create_ok request rep created
  have iff := fun adds => headersIsolated_iff sh.elems adds kept made
  simp only [iff, headers, same, copy]
  constructor
  · intro isolated
    let pick : Side → NgxTableElt := fun s =>
      ⟨if s = .parent then 1 else 2, ngxNullString, ngxNullString⟩
    have distinct : pick .parent ≠ pick .child := by decide
    have schedule : (sides.map fun s => (s, pick s)).map Prod.fst = sides := by
      rw [List.map_map]
      exact List.map_id' sides
    have hashed : ∀ s, (pick s).hashed = pick s := by
      intro s
      cases s <;> rfl
    have shown : Isolated (w.headers.copied sh.hdr part grants) rq.headersIn w.headers.lists.size
        sh.elems (sides.map fun s => (s, pick s)) := by
      simpa [Function.comp_def, hashed] using isolated _ schedule
    exact rep.harmless_of_isolated found distinct shown
  · intro harmless adds schedule
    have answers : ∀ g ∈ grants, g = true := fun g member => by
      rw [headers] at generous
      exact generous g member
    refine rep.isolated found answers _ (harmless.imp (fun none => ?_) fun ⟨single, cause⟩ =>
      ⟨single, cause.imp id fun oneSided => ?_⟩)
    · subst none
      simpa using schedule
    · intro add member add' member'
      rw [← schedule] at oneSided
      obtain ⟨a, inside, rfl⟩ := List.mem_map.mp member
      obtain ⟨b, inside', rfl⟩ := List.mem_map.mp member'
      exact oneSided a.1 (List.mem_map_of_mem inside) b.1 (List.mem_map_of_mem inside')

/-- One request whose header list has one part of two elements, none of them used. -/
private def oneRequest : RequestMem Unit where
  headers := { lists := ⟨[⟨0, 0, 2⟩]⟩, parts := ⟨[⟨some 0, 0, none⟩]⟩, arrays := ⟨[[none, none]]⟩ }
  requests := ⟨[⟨0, 0, none, []⟩]⟩
  vars := ⟨[[]]⟩

private def twoRequests : RequestMem Unit where
  headers :=
    { lists := ⟨[⟨0, 0, 2⟩, ⟨1, 1, 2⟩]⟩
      parts := ⟨[⟨some 0, 0, none⟩, ⟨some 0, 0, none⟩]⟩
      arrays := ⟨[[none, none]]⟩ }
  requests := ⟨[⟨0, 0, none, [1]⟩, ⟨1, 0, some 0, []⟩]⟩
  vars := ⟨[[]]⟩

theorem subrequest_headers_isolated_parent : HeadersIsolated twoRequests 0 1 []
    [(.parent, ⟨1, ⟨1, 8⟩, ⟨1, 9⟩⟩), (.parent, ⟨1, ⟨2, 8⟩, ⟨1, 9⟩⟩)] := by
  have rep : Represents oneRequest.headers 0 ⟨⟨0, 0, 2⟩, [], ⟨0, 0, []⟩⟩ :=
    Represents.of_empty rfl rfl rfl rfl (by decide)
  have created : NgxSubRequest.create false 0 0 oneRequest = .ok 1 twoRequests := by decide
  have generous : twoRequests.headers.Generous := fun g member => by simp [twoRequests] at member
  have request : oneRequest.requests.read 0 = some ⟨0, 0, none, []⟩ := rfl
  exact (subrequest_headers_isolated_iff request rep created generous _).mpr
    (.inr ⟨rfl, .inr (by decide)⟩) _ rfl

/-- The subrequest's first add overwrites the parent's. -/
theorem subrequest_add_overwrites_parent :
    NgxSubRequest.create false 0 0 oneRequest = .ok 1 twoRequests ∧
      ¬ HeadersIsolated twoRequests 0 1 []
        [(.parent, ⟨1, ⟨1, 8⟩, ⟨1, 9⟩⟩), (.child, ⟨1, ⟨2, 8⟩, ⟨1, 9⟩⟩)] := by
  refine ⟨by decide, ?_⟩
  rintro ⟨request, sub, m, found, made, done, shown, -⟩
  cases found
  cases made
  cases done
  revert shown
  decide

end NgxCpp
