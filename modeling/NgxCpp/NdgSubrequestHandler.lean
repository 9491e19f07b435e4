import NgxCpp.NdgEchoHandler
import NgxCpp.NdgUpstreamHandler
import NgxCpp.NgxChainTraversal
import NgxCpp.NgxListMerge

/-! `NdgSubrequestCallback`: a request is answered with what its subrequest brought, the
headers and a body of at most one buffer in memory, and with a message of its own. -/

namespace NgxCpp
open Foundation

/-- What the callback reads of the subrequest. Its header list and its chain lie in the
memory of the request. -/
structure HttpSubrequest where
  status : Nat
  headersOut : Nat
  out : Option Nat
deriving Repr, DecidableEq

def ResponseWorld.setHeaders (w : ResponseWorld) (m : ListMem NgxTableElt) : ResponseWorld :=
  { w with filter := { w.filter with headers := m } }

namespace NdgSubrequestCallback

def text : List UInt8 := [115, 117, 98, 114, 101, 113, 117, 101, 115, 116]

/-- The visitor: `resp.headers().add(x)`. -/
def copyHeader (slot : Slot) : Ngx ResponseWorld Unit := do
  let headersOut ← Exec.gets fun w => w.filter.headersOut
  onFilter (NdgFilterHandler.onHeaders (loadSlot slot >>= NgxHeaders.add headersOut))

/-- `parent_post`, where `msg` is the string of the message and `postponed` the request of
`r->postponed`. -/
def parentPost (tops : TopFilters) (msg : NgxStr) (postponed : Option HttpSubrequest) :
    Ngx ResponseWorld Int := do
  let sr ← Exec.deref fun _ => postponed
  if sr.status ≠ ngxHttpOk then pure ngxHttpInternalServerError
  else
    let b ← onPool (NgxChainNode.data sr.out)
    let buf ← onPool (readBuf b)
    NgxResponse.length (msg.len + NgxBuf.sizeT buf : Nat)
    NgxList.visit (fun w => w.filter.headers) sr.headersOut copyHeader
    let b ← onPool (NgxChainNode.data sr.out)
    let buf ← onPool (readBuf b)
    if NgxBuf.last buf then
      onPool (NgxBuf.update b (NgxBuf.finish false))
      let _ ← NgxResponse.sendChain tops sr.out
      let _ ← NgxResponse.sendStr tops msg
      let _ ← NgxResponse.eof tops
      pure ngxOk
    else Exec.undefined

section Headers

variable {w : ResponseWorld} {s : Nat} {shd shs : ListShape NgxTableElt}

theorem copyHeader_eq {slot : Slot} {x : NgxTableElt}
    (pair : NgxList.Pair w.filter.headers w.filter.headersOut s shd shs)
    (different : w.filter.headersOut ≠ s) (generous : w.filter.headers.Generous)
    (shown : w.filter.headers.load slot = some x) :
    ∃ m sh', copyHeader slot w = .ok () (w.setHeaders m) ∧ m.Generous ∧
      NgxList.Pair m w.filter.headersOut s sh' shs ∧ sh'.elems = shd.elems ++ [x.hashed] := by
  obtain ⟨m, pushed, generous'⟩ := pair.left.push_generous generous x.hashed
  obtain ⟨sh', pair', elems⟩ := pair.push different pushed
  have loaded : loadSlot slot w.filter.headers = .ok x w.filter.headers := Exec.deref_some shown
  have added : (loadSlot slot >>= NgxHeaders.add w.filter.headersOut) w.filter.headers =
      .ok () m := by
    rw [Exec.bind_ok _ loaded, add_eq_push, pushed]
  have inner : NdgFilterHandler.onHeaders (loadSlot slot >>= NgxHeaders.add w.filter.headersOut)
      w.filter = .ok () { w.filter with headers := m } := Exec.zoom_ok added
  refine ⟨m, sh', ?_, generous', pair', elems⟩
  rw [copyHeader, Exec.bind_ok _ (Exec.gets_apply _ w)]
  exact NgxResponse.onFilter_ok inner

theorem each_copyHeader {slots : List Slot} {ys : List NgxTableElt}
    (pair : NgxList.Pair w.filter.headers w.filter.headersOut s shd shs)
    (different : w.filter.headersOut ≠ s) (generous : w.filter.headers.Generous)
    (loads : ∀ m : ListMem NgxTableElt, Represents m s shs →
      List.Forall₂ (fun slot y => m.load slot = some y) slots ys) :
    ∃ m sh', Exec.each copyHeader slots w = .ok () (w.setHeaders m) ∧ m.Generous ∧
      NgxList.Pair m w.filter.headersOut s sh' shs ∧
      sh'.elems = shd.elems ++ ys.map NgxTableElt.hashed := by
  have here := loads w.filter.headers pair.right
  induction slots generalizing w ys shd with
  | nil =>
    cases here
    exact ⟨w.filter.headers, shd, rfl, generous, pair, by simp⟩
  | cons slot slots ih =>
    cases here with
    | @cons _ y _ ys shown rest =>
      obtain ⟨m, sh1, done, generous1, pair1, elems1⟩ :=
        copyHeader_eq pair different generous shown
      have later : ∀ m : ListMem NgxTableElt, Represents m s shs →
          List.Forall₂ (fun slot y => m.load slot = some y) slots ys :=
        fun m rep => (List.forall₂_cons.mp (loads m rep)).2
      obtain ⟨m2, sh2, run, generous2, pair2, elems2⟩ :=
        ih (w := w.setHeaders m) pair1 different generous1 later (later m pair1.right)
      refine ⟨m2, sh2, (Exec.each_cons_ok done).trans run, generous2, pair2, ?_⟩
      simp [elems2, elems1]

theorem visit_copyHeader (pair : NgxList.Pair w.filter.headers w.filter.headersOut s shd shs)
    (different : w.filter.headersOut ≠ s) (generous : w.filter.headers.Generous) :
    ∃ m sh', NgxList.visit (fun w => w.filter.headers) s copyHeader w =
        .ok () (w.setHeaders m) ∧
      m.Generous ∧ NgxList.Pair m w.filter.headersOut s sh' shs ∧
      sh'.elems = shd.elems ++ shs.elems.map NgxTableElt.hashed := by
  let Inv : ResponseWorld → Prop := fun v =>
    ∃ m sh, v = w.setHeaders m ∧ NgxList.Pair m w.filter.headersOut s sh shs ∧ m.Generous
  have rep : ∀ v, Inv v → Represents v.filter.headers s shs := by
    rintro _ ⟨m, sh, rfl, pair, -⟩
    exact pair.right
  have kept : ∀ slot ∈ slotsOf shs.views, ∀ v v', Inv v → copyHeader slot v = .ok () v' →
      Inv v' := by
    rintro slot member _ v' ⟨m, sh, rfl, pair, generous⟩ done
    obtain ⟨i, inSlots, rfl⟩ := List.getElem_of_mem member
    have shown := (List.forall₂_iff_get.mp pair.right.slots_load).2 i inSlots
      (length_slotsOf shs.views ▸ inSlots)
    obtain ⟨m', sh', copied, generous', pair', -⟩ :=
      copyHeader_eq (w := w.setHeaders m) pair different generous shown
    obtain ⟨-, rfl⟩ := Outcome.ok.inj (done.symm.trans copied)
    exact ⟨m', sh', rfl, pair', generous'⟩
  have visited : NgxList.visit (fun w => w.filter.headers) s copyHeader w =
      Exec.each copyHeader (slotsOf shs.views) w :=
    visit_eq Inv rep kept ⟨w.filter.headers, shd, rfl, pair, generous⟩
  rw [visited]
  exact each_copyHeader pair different generous fun m rep => rep.slots_load

end Headers

/-- A subrequest that ended well, and the request it answers: nothing is sent, the pools do
not run dry, the header lists are two, and the body lies in at most one buffer in memory. -/
structure Completed (w : ResponseWorld) (sr : HttpSubrequest) (msg : NgxStr)
    (sh shs : ListShape NgxTableElt) (views : List LinkView) : Prop where
  status : sr.status = ngxHttpOk
  unsent : w.headerSent = false
  whole : w.headerOnly = false
  fresh : w.filter.Fresh sh
  pair : NgxList.Pair w.filter.headers w.filter.headersOut sr.headersOut sh shs
  different : w.filter.headersOut ≠ sr.headersOut
  chained : Chained w.filter.chains sr.out views
  single : views.length ≤ 1
  inMemory : ∀ v ∈ views, v.value.inMemory = true
  last : ∀ v ∈ views, v.value.lastBuf = true
  window : ∀ v ∈ views, v.value.pos ≤ v.value.last ∧ v.value.last ≤ w.bytes.brk
  room : w.bytes.brk ≤ 2 ^ 47
  text : NgxString.bytes w.bytes.ram msg = text

/-- The response with the headers of both, the body of the subrequest and the message. -/
def Answers (disk : Nat → Ram) (rc : Int) (w : ResponseWorld) (sr : HttpSubrequest) (msg : NgxStr)
    (headers : List NgxTableElt) (views : List LinkView) : Prop :=
  ∃ w', parentPost (NdgEchoHandler.recorders rc) msg (some sr) w = .ok ngxOk w' ∧
    NdgEchoHandler.WellFormed ⟨w'.bytes.ram, disk⟩ w'.filter headers
      (views.flatMap (fun v => v.value.bytes ⟨w.bytes.ram, disk⟩) ++ text)

section Answer

variable {w : ResponseWorld} {sr : HttpSubrequest} {msg : NgxStr}
  {sh shs : ListShape NgxTableElt} {views : List LinkView} {v : LinkView}

theorem parentPost_null (tops : TopFilters) (status : sr.status = ngxHttpOk)
    (null : sr.out = none) : parentPost tops msg (some sr) w = .undefined := by
  rw [parentPost, Exec.bind_ok _ (Exec.deref_given sr w), if_neg (not_not_intro status), null]
  rfl

theorem sizeT_window (c : Completed w sr msg sh shs views) (member : v ∈ views) :
    (NgxBuf.sizeT v.value : Int) = v.value.size ∧ NgxBuf.sizeT v.value ≤ 2 ^ 47 ∧
      ∀ disk, (v.value.bytes ⟨w.bytes.ram, disk⟩).length = NgxBuf.sizeT v.value := by
  obtain ⟨ordered, placed⟩ := c.window v member
  have room := c.room
  have size : v.value.size = (v.value.last : Int) - v.value.pos := by
    rw [NgxBufT.size, if_pos (c.inMemory v member)]
  have whole : (v.value.size % 2 ^ 64) = v.value.size := Int.emod_eq_of_lt (by omega) (by omega)
  rw [NgxBuf.sizeT, whole]
  refine ⟨by omega, by omega, fun disk => ?_⟩
  rw [NgxBufT.bytes, if_pos (c.inMemory v member), Ram.length_span]
  omega

theorem data_eq {m : ChainMem} {u : ResponseWorld} (same : u.filter.chains = m)
    (link : m.links.read v.addr = some ⟨v.buf, none⟩)
    (stored : m.bufs.read v.buf = some v.value) :
    onPool (NgxChainNode.data (some v.addr)) u = .ok v.buf u ∧
      onPool (readBuf v.buf) u = .ok v.value u := by
  subst same
  have data := NgxChainNode.data_ok link
  exact ⟨NgxResponse.onPool_ok data, NgxResponse.onPool_ok (readBuf_ok stored)⟩

theorem chained_finish {m : ChainMem} {head : Option Nat} (chained : Chained m head [v]) :
    head = some v.addr ∧ m.links.read v.addr = some ⟨v.buf, none⟩ ∧
      m.bufs.read v.buf = some v.value ∧
      ({ m with bufs := m.bufs.write v.buf (NgxBuf.finish false v.value) } : ChainMem).shown head =
        some [NgxBuf.finish false v.value] := by
  have start := chained.linked.head_eq
  have whole : Chained m head ([] ++ [v]) := chained
  have link := whole.last_link
  obtain ⟨-, -, stored⟩ := chained.held v (by simp)
  have finished : Chained { m with bufs := m.bufs.write v.buf (NgxBuf.finish false v.value) } head
      [⟨v.addr, v.buf, NgxBuf.finish false v.value⟩] := by
    refine ⟨chained.linked, fun u member => ?_⟩
    obtain rfl := List.mem_singleton.mp member
    exact ⟨none, link, Heap.read_write_self stored⟩
  exact ⟨start.symm, link, stored, finished.shown⟩

theorem send_one {total : Int} {b : NgxBufT} {head : Nat}
    (underway : w.Underway sh total id sh.elems (fun _ => True) [])
    (shown : w.filter.chains.shown (some head) = some [b]) (unset : b.lastBuf = false)
    (msg : NgxStr) (rc : Int) : ∃ w₁ w₂ w' calls,
      NgxResponse.sendChain (NdgEchoHandler.recorders rc) (some head) w = .ok rc w₁ ∧
      NgxResponse.sendStr (NdgEchoHandler.recorders rc) msg w₁ = .ok rc w₂ ∧
      NgxResponse.eof (NdgEchoHandler.recorders rc) w₂ = .ok rc w' ∧
      w'.filter.contentLength = total ∧
      w'.filter.log = .header total (some sh.elems) :: calls ∧
      calls.map NextCall.taken =
        ([[b], [NgxBuf.ofStr msg]] ++ [[Special.last.buf]]).map some ∧
      w'.bytes = w.bytes := by
  have takes := NdgEchoHandler.recorders_take sh rc
  obtain ⟨w₁, first, sent₁, bytes₁⟩ := NgxResponse.sendChain_pass takes underway shown unset
  obtain ⟨w₂, second, sent₂, bytes₂⟩ := NgxResponse.sendStr_pass takes (.sent sent₁) msg
  obtain ⟨w', calls, third, length, log, taken, bytes⟩ := NgxResponse.eof_last takes sent₂
  exact ⟨w₁, w₂, w', calls, first, second, third, length, log, taken,
    bytes.trans (bytes₂.trans bytes₁)⟩

/-- What `parent_post` hands on when the subrequest has a body: the header with all the
elements, the body and the message, and the end. -/
theorem parentPost_one (c : Completed w sr msg sh shs [v]) (rc : Int) :
    ∃ w' calls, parentPost (NdgEchoHandler.recorders rc) msg (some sr) w = .ok ngxOk w' ∧
      w'.filter.contentLength = (msg.len + NgxBuf.sizeT v.value : Nat) ∧
      w'.filter.log = .header (msg.len + NgxBuf.sizeT v.value : Nat)
        (some (sh.elems ++ shs.elems.map NgxTableElt.hashed)) :: calls ∧
      calls.map NextCall.taken = ([[NgxBuf.finish false v.value], [NgxBuf.ofStr msg]] ++
        [[Special.last.buf]]).map some ∧
      w'.bytes = w.bytes := by
  obtain ⟨out, link, stored, shown⟩ := chained_finish c.chained
  rw [out] at shown
  obtain ⟨-, bound, -⟩ := sizeT_window c List.mem_cons_self
  have len : msg.len = 10 := by
    have same := congrArg List.length c.text
    simpa [text] using same
  let total : Nat := msg.len + NgxBuf.sizeT v.value
  let w₁ : ResponseWorld := { w with filter := { w.filter with contentLength := total } }
  have announced : NgxResponse.length total w = .ok () w₁ := NgxResponse.length_ok (by omega)
  obtain ⟨m, sh', visited, generous, pair, elems⟩ :=
    visit_copyHeader (w := w₁) c.pair c.different c.fresh.generous
  have all : sh'.elems = sh.elems ++ shs.elems.map NgxTableElt.hashed := elems
  let w₂ := w₁.setHeaders m
  let w₃ := w₂.setChains { w.filter.chains with
    bufs := w.filter.chains.bufs.write v.buf (NgxBuf.finish false v.value) }
  have fresh : w₃.filter.Fresh sh' :=
    ⟨c.fresh.ctx, c.fresh.log, pair.left, generous, c.fresh.pool⟩
  have underway : w₃.Underway sh' total id sh'.elems (fun _ => True) [] :=
    .fresh c.unsent c.whole fresh rfl
  obtain ⟨w₄, w₅, w', calls, first, second, third, length, log, taken, bytes⟩ :=
    send_one underway shown rfl msg rc
  rw [all] at log
  refine ⟨w', calls, ?_, length, log, taken, bytes⟩
  have marked : NgxBuf.last v.value = true := by
    rw [NgxBuf.last, c.last v List.mem_cons_self, Bool.true_or]
  have changed : onPool (NgxBuf.update v.buf (NgxBuf.finish false)) w₂ = .ok () w₃ :=
    NgxResponse.onPool_ok (NgxBuf.update_ok stored _)
  have same : w₂.filter.chains = w.filter.chains := rfl
  obtain ⟨data₀, read₀⟩ := data_eq rfl link stored
  obtain ⟨data₂, read₂⟩ := data_eq same link stored
  rw [parentPost, Exec.bind_ok _ (Exec.deref_given sr w), if_neg (not_not_intro c.status), out,
    Exec.bind_ok _ data₀, Exec.bind_ok _ read₀, Exec.bind_ok _ announced,
    Exec.bind_ok _ visited, Exec.bind_ok _ data₂, Exec.bind_ok _ read₂, if_pos marked,
    Exec.bind_ok _ changed, Exec.bind_ok _ first, Exec.bind_ok _ second, Exec.bind_ok _ third]
  rfl

theorem answered_one (c : Completed w sr msg sh shs [v]) (disk : Nat → Ram) {f : FilterWorld}
    {calls : List NextCall} {headers : List NgxTableElt}
    (length : f.contentLength = (msg.len + NgxBuf.sizeT v.value : Nat))
    (log : f.log = .header (msg.len + NgxBuf.sizeT v.value : Nat) (some headers) :: calls)
    (taken : calls.map NextCall.taken = ([[NgxBuf.finish false v.value], [NgxBuf.ofStr msg]] ++
      [[Special.last.buf]]).map some) :
    (Sized f ↔ v.value.size ≠ 0) ∧
      Answered ⟨w.bytes.ram, disk⟩ f headers
        (v.value.bytes ⟨w.bytes.ram, disk⟩ ++ text) := by
  let contents : Contents := ⟨w.bytes.ram, disk⟩
  obtain ⟨-, -, measured⟩ := sizeT_window c List.mem_cons_self
  have message : (NgxBuf.ofStr msg).bytes contents = text := by
    rw [NgxBuf.bytes_ofStr, ← c.text]
  have body : (NgxBuf.finish false v.value).bytes contents = v.value.bytes contents := rfl
  have front : [[NgxBuf.finish false v.value], [NgxBuf.ofStr msg]].flatten.flatMap
      (NgxBufT.bytes contents) = v.value.bytes contents ++ text := by
    simp [message, body]
  have ended : Special.last.buf.bytes contents = [] := NgxBufT.bytes_eq_nil rfl
  have unset : ∀ x ∈ [[NgxBuf.finish false v.value], [NgxBuf.ofStr msg]].flatten,
      x.lastBuf = false := by
    simp [NgxBuf.finish]
  have len : msg.len = text.length := by
    rw [← c.text]
    simp
  obtain ⟨bufs, answered⟩ := answered_of_log contents log length taken rfl unset (by
    rw [front, ended, List.append_nil, List.length_append, measured disk, len, Nat.add_comm])
  rw [front, ended, List.append_nil] at answered
  refine ⟨?_, answered⟩
  have ordinary : (NgxBuf.finish false v.value).special = false := by
    have inMemory : (NgxBuf.finish false v.value).inMemory = true :=
      c.inMemory v List.mem_cons_self
    rw [NgxBufT.special, inMemory, Bool.not_true, Bool.and_false, Bool.false_and]
  have same : (NgxBuf.finish false v.value).size = v.value.size := rfl
  have long : ((NgxBuf.ofStr msg).size : Int) ≠ 0 := by
    rw [NgxBuf.size_ofStr, len]
    decide
  rw [Sized, bufs]
  constructor
  · intro all
    have first := all (NgxBuf.finish false v.value) (by simp)
    rwa [ordinary, same, or_iff_left Bool.false_ne_true] at first
  · intro filled b member
    simp only [List.flatten_cons, List.flatten_nil, List.append_nil, List.mem_cons,
      List.cons_append, List.nil_append, List.not_mem_nil, or_false] at member
    obtain rfl | rfl | rfl := member
    · exact .inl filled
    · exact .inl long
    · exact .inr rfl

/-- The callback answers well exactly when the subrequest has a body and that is not empty. -/
theorem parent_post_answers_iff (c : Completed w sr msg sh shs views) (disk : Nat → Ram)
    (rc : Int) :
    Answers disk rc w sr msg (sh.elems ++ shs.elems.map NgxTableElt.hashed) views ↔
      ∃ v ∈ views, v.value.size ≠ 0 := by
  match views, c with
  | [], c =>
    have null : sr.out = none := by
      have start := c.chained.linked.head_eq
      exact start.symm
    refine iff_of_false ?_ (by simp)
    rintro ⟨w', run, -⟩
    rw [parentPost_null _ c.status null] at run
    cases run
  | [v], c =>
    obtain ⟨w', calls, run, length, log, taken, bytes⟩ := parentPost_one c rc
    obtain ⟨sized, answered⟩ := answered_one c disk length log taken
    constructor
    · rintro ⟨w2, run2, -, sized2⟩
      obtain ⟨-, rfl⟩ := Outcome.ok.inj (run.symm.trans run2)
      exact ⟨v, List.mem_cons_self, sized.mp sized2⟩
    · rintro ⟨u, member, filled⟩
      obtain rfl := List.mem_singleton.mp member
      refine ⟨w', run, ?_, sized.mpr filled⟩
      rwa [bytes, List.flatMap_singleton]
  | _ :: _ :: _, c => exact absurd c.single (by simp)

/-- A subrequest with one header and, where it has a body, one byte of it. -/
private def childHeader : NgxTableElt := ⟨1, ⟨1, 10⟩, ⟨1, 10⟩⟩

private def childBody : NgxBufT :=
  { pos := 10, last := 11, start := 10, past := 11, temporary := true, lastBuf := true }

private def childDone (out : Option Nat) : HttpSubrequest := ⟨ngxHttpOk, 1, out⟩

private def waitingParent : ResponseWorld where
  method := ngxHttpGet
  args := ngxNullString
  bytes := ⟨fun a => (text[a]?).getD 97, 11⟩
  filter :=
    { contentLength := -1
      headersOut := 0
      headers :=
        { lists := ⟨[⟨0, 0, 2⟩, ⟨1, 1, 2⟩]⟩
          parts := ⟨[⟨some 0, 0, none⟩, ⟨some 1, 1, none⟩]⟩
          arrays := ⟨[[none, none], [some childHeader, none]]⟩ }
      chains := { links := ⟨[⟨0, none⟩]⟩, bufs := ⟨[childBody]⟩ } }

private theorem waitingParent_pair : NgxList.Pair waitingParent.filter.headers 0 1
    ⟨⟨0, 0, 2⟩, [], ⟨0, 0, []⟩⟩ ⟨⟨1, 1, 2⟩, [], ⟨1, 1, [childHeader]⟩⟩ where
  left := Represents.of_empty rfl rfl rfl rfl (by decide)
  right :=
    { header := rfl
      linked := .cons rfl .nil
      held := fun v member => by
        obtain rfl := List.mem_singleton.mp member
        exact ⟨_, _, rfl, rfl, rfl, rfl, rfl⟩
      last := rfl
      room := fun v member => by
        obtain rfl := List.mem_singleton.mp member
        exact ⟨_, rfl, rfl⟩
      distinct := List.nodup_singleton _
      filled := .inl rfl
      nalloc_pos := by decide }
  behind v member := by
    obtain rfl := List.mem_singleton.mp member
    exact ⟨by decide, fun same => absurd same (by decide)⟩

theorem parent_post_answers_body : Answers (fun _ _ => 0) 0 waitingParent (childDone (some 0))
    ⟨10, 0⟩ [childHeader] [⟨0, 0, childBody⟩] := by
  have completed : Completed waitingParent (childDone (some 0)) ⟨10, 0⟩
      ⟨⟨0, 0, 2⟩, [], ⟨0, 0, []⟩⟩ ⟨⟨1, 1, 2⟩, [], ⟨1, 1, [childHeader]⟩⟩
      [⟨0, 0, childBody⟩] :=
    { status := rfl
      unsent := rfl
      whole := rfl
      fresh :=
        { ctx := rfl
          log := rfl
          rep := waitingParent_pair.left
          generous := by simp [waitingParent, ListMem.Generous]
          pool := by simp [waitingParent, ChainMem.Generous] }
      pair := waitingParent_pair
      different := by decide
      chained := ⟨.cons rfl .nil, fun v member => by
        obtain rfl := List.mem_singleton.mp member
        exact ⟨none, rfl, rfl⟩⟩
      single := by decide
      inMemory := by decide
      last := by decide
      window := by decide
      room := by decide
      text := by decide }
  exact (parent_post_answers_iff completed (fun _ _ => 0) 0).mpr
    ⟨_, List.mem_cons_self, by decide⟩

/-- A subrequest without a body has no chain, and its data are read all the same. -/
theorem parent_post_without_body : ¬ Answers (fun _ _ => 0) 0 waitingParent (childDone none)
    ⟨10, 0⟩ [childHeader] [] := by
  rintro ⟨w', run, -⟩
  have null : parentPost (NdgEchoHandler.recorders 0) ⟨10, 0⟩ (some (childDone none))
      waitingParent = .undefined := parentPost_null _ rfl rfl
  rw [null] at run
  cases run

end Answer

end NdgSubrequestCallback

end NgxCpp
