import NgxCpp.NdgFilterRun
import NgxCpp.NgxBuf
import NgxCpp.NgxRam

/-! `NgxResponse`: the header of a response is sent with the first part of its body.
A main request is modelled; nginx's top filters are parameters. -/

namespace NgxCpp
open Foundation

def ngxHttpGet : Nat := 2
def ngxHttpOk : Nat := 200
def ngxHttpNotAllowed : Int := 405

/-- `ngx_http_top_header_filter` and `ngx_http_top_body_filter`. -/
structure TopFilters where
  header : Ngx FilterWorld Int
  body : Option Nat → Ngx FilterWorld Int

structure ResponseWorld where
  method : Nat
  args : NgxStr
  headerSent : Bool := false
  headerOnly : Bool := false
  status : Nat := 0
  bytes : ByteMem
  filter : FilterWorld

def onFilter {α : Type} (x : Ngx FilterWorld α) : Ngx ResponseWorld α :=
  Exec.zoom ResponseWorld.filter (fun filter w => { w with filter }) x

def onPool {α : Type} (x : Ngx ChainMem α) : Ngx ResponseWorld α :=
  onFilter (NdgFilterHandler.onChains x)

namespace NgxPool

/-- `dup(string_ref)`. -/
def dup (str : List UInt8) : Ngx ResponseWorld NgxStr := do
  if ← onPool chainPalloc then
    fun w => .ok (w.bytes.stored str) { w with bytes := w.bytes.store str }
  else NgxException.raise

end NgxPool

/-- The flags of `ngx_http_send_special`. -/
inductive Special where
  | flush
  | last
deriving Repr, DecidableEq

def Special.buf : Special → NgxBufT
  | flush => { flush := true }
  | last => { lastBuf := true }

namespace ChainMem

def single (m : ChainMem) (buf : NgxBufT) (grants : List Bool) : ChainMem where
  links := m.links.alloc ⟨m.bufs.size, none⟩
  bufs := m.bufs.alloc buf
  grants

theorem shown_single (m : ChainMem) (buf : NgxBufT) (grants : List Bool) :
    (m.single buf grants).shown (some m.links.size) = some [buf] := by
  have link : (m.single buf grants).links.read m.links.size = some ⟨m.bufs.size, none⟩ :=
    Heap.read_alloc_self
  have chained : Chained (m.single buf grants) (some m.links.size)
      [⟨m.links.size, m.bufs.size, buf⟩] := by
    refine ⟨.cons (by rw [ChainMem.nextLink, link]; rfl) .nil, fun v member => ?_⟩
    obtain rfl := List.mem_singleton.mp member
    exact ⟨none, link, Heap.read_alloc_self⟩
  exact chained.shown

end ChainMem

section Nginx

variable (tops : TopFilters)

/-- `ngx_http_send_header`; a success sets `header_sent`. -/
def ngxHttpSendHeader : Ngx ResponseWorld Int := do
  if ← Exec.gets ResponseWorld.headerSent then pure ngxError
  else
    let rc ← onFilter tops.header
    if rc = ngxOk then
      Exec.modify fun w => { w with headerSent := true }
      pure rc
    else pure rc

def ngxHttpOutputFilter (out : Nat) : Ngx ResponseWorld Int := onFilter (tops.body (some out))

/-- `ngx_http_send_special`, whose link is on the stack. -/
def ngxHttpSendSpecial (flags : Special) : Ngx ResponseWorld Int := do
  if ← onPool chainPalloc then
    let out ← onPool fun m => .ok m.links.size (m.single flags.buf m.grants)
    ngxHttpOutputFilter tops out
  else pure ngxError

end Nginx

namespace NgxResponse

variable (tops : TopFilters)

def status (x : Nat) : Ngx ResponseWorld Unit := Exec.modify fun w => { w with status := x }

/-- `length`, of an unsigned sum. -/
def length (len : Nat) : Ngx ResponseWorld Unit := onFilter (NdgFilterHandler.setLength len)

/-- The status that `send` sets where there is none. -/
def defaultStatus : Ngx ResponseWorld Unit := do
  if (← Exec.gets ResponseWorld.status) = 0 then status ngxHttpOk else pure ()

/-- `send()`. -/
def sendHeader : Ngx ResponseWorld Int := do
  if ← Exec.gets ResponseWorld.headerSent then pure ngxOk
  else
    defaultStatus
    let rc ← ngxHttpSendHeader tops
    NgxException.fail (rc == ngxError || ngxOk < rc) rc
    pure rc

/-- `send(ngx_chain_t*)`. -/
def sendChain (out : Option Nat) : Ngx ResponseWorld Int := do
  let _ ← sendHeader tops
  match out with
  | none => pure ngxOk
  | some p =>
    if ← Exec.gets ResponseWorld.headerOnly then pure ngxOk else ngxHttpOutputFilter tops p

/-- `send(ngx_buf_t*)`. -/
def sendBuf (b : Nat) : Ngx ResponseWorld Int := do
  let ch ← onPool (NgxPool.chain b)
  sendChain tops (some ch)

/-- `send(ngx_str_t*)`. -/
def sendStr (str : NgxStr) : Ngx ResponseWorld Int := do
  let buf ← onPool NgxPool.buffer
  onPool (NgxBuf.update buf (NgxBuf.rangeStr str))
  sendBuf tops buf

/-- `send(string_ref)`. -/
def sendRef (str : List UInt8) : Ngx ResponseWorld Int := do
  let s ← NgxPool.dup str
  sendStr tops s

def flush : Ngx ResponseWorld Int := ngxHttpSendSpecial tops .flush

def eof : Ngx ResponseWorld Int := ngxHttpSendSpecial tops .last

end NgxResponse

def ResponseWorld.setChains (w : ResponseWorld) (m : ChainMem) : ResponseWorld :=
  { w with filter := { w.filter with chains := m } }

def NextCall.taken : NextCall → Option (List NgxBufT)
  | .body (some _) (some bufs) => some bufs
  | _ => none

/-- Top filters that answer well: the header may be changed on its way and the last
buffer may become others; in between, where the context is `due`, buffers pass. -/
structure TopFilters.Takes (tops : TopFilters) (sh : ListShape NgxTableElt) (rc : Int)
    (len : Int → Int) (headers : List NgxTableElt) (due : Option Int → Prop)
    (out : NgxBufT → List NgxBufT) : Prop where
  header : ∀ f : FilterWorld, f.Fresh sh → ∃ ctx m grants, due ctx ∧
    (∀ granted ∈ grants, granted = true) ∧ tops.header f = .ok ngxOk
      { f with
        ctx, headers := m, contentLength := len f.contentLength
        chains := { f.chains with grants }
        log := [.header (len f.contentLength) (some headers)] }
  pass : ∀ (f : FilterWorld) p b, due f.ctx → f.chains.shown (some p) = some [b] →
    b.lastBuf = false → tops.body (some p) f =
      .ok rc { f with log := f.log ++ [.body (some p) (some [b])] }
  last : ∀ (f : FilterWorld) p b, due f.ctx → f.chains.Generous →
    f.chains.shown (some p) = some [b] → b.lastBuf = true → ∃ ctx chains, tops.body (some p) f =
      .ok rc { f with ctx, chains, log := f.log ++ [.body (some p) (some (out b))] }

/-- The header is out, with this content length, and so are these chains of the body. -/
structure ResponseWorld.Sent (len : Int) (headers : List NgxTableElt) (due : Option Int → Prop)
    (w : ResponseWorld) (chains : List (List NgxBufT)) : Prop where
  sent : w.headerSent = true
  whole : w.headerOnly = false
  length : w.filter.contentLength = len
  due : due w.filter.ctx
  pool : w.filter.chains.Generous
  log : ∃ calls, w.filter.log = .header len (some headers) :: calls ∧
    calls.map NextCall.taken = chains.map some

/-- The response between two sends: nothing is out yet and the content length is
`total`, or the header is. -/
inductive ResponseWorld.Underway (sh : ListShape NgxTableElt) (total : Int) (len : Int → Int)
    (headers : List NgxTableElt) (due : Option Int → Prop) (w : ResponseWorld) :
    List (List NgxBufT) → Prop where
  | fresh : w.headerSent = false → w.headerOnly = false → w.filter.Fresh sh →
      w.filter.contentLength = total → Underway sh total len headers due w []
  | sent {chains : List (List NgxBufT)} : w.Sent (len total) headers due chains →
      Underway sh total len headers due w chains

namespace NgxResponse

variable {tops : TopFilters} {sh : ListShape NgxTableElt} {rc total : Int} {len : Int → Int}
  {headers : List NgxTableElt} {due : Option Int → Prop} {out : NgxBufT → List NgxBufT}
  {w : ResponseWorld} {chains : List (List NgxBufT)}

theorem onFilter_ok {α : Type} {x : Ngx FilterWorld α} {a : α} {f : FilterWorld}
    (h : x w.filter = .ok a f) : onFilter x w = .ok a { w with filter := f } :=
  Exec.zoom_ok h

theorem onPool_ok {α : Type} {x : Ngx ChainMem α} {a : α} {m : ChainMem}
    (h : x w.filter.chains = .ok a m) : onPool x w = .ok a (w.setChains m) := by
  have inner : NdgFilterHandler.onChains x w.filter = .ok a { w.filter with chains := m } :=
    Exec.zoom_ok h
  exact onFilter_ok inner

theorem length_ok {n : Nat} (small : n < 2 ^ 63) : length n w =
    .ok () { w with filter := { w.filter with contentLength := n } } := by
  have fits : (n : Int).bmod (2 ^ 64) = n := Int.bmod_eq_of_le (by omega) (by omega)
  have set : NdgFilterHandler.setLength n w.filter =
      .ok () { w.filter with contentLength := n } := by
    rw [NdgFilterHandler.setLength, Exec.modify_apply, fits]
  exact onFilter_ok set

theorem sendStr_eq (generous : w.filter.chains.Generous) (str : NgxStr) :
    sendStr tops str w = sendChain tops (some w.filter.chains.links.size) (w.setChains
      (w.filter.chains.single (NgxBuf.ofStr str) w.filter.chains.grants.tail.tail)) := by
  let m : ChainMem := w.filter.chains
  let filled : ChainMem :=
    { m with bufs := m.bufs.alloc (NgxBuf.ofStr str), grants := m.grants.tail }
  have made : NgxPool.buffer m = .ok m.bufs.size
      { m with bufs := m.bufs.alloc {}, grants := m.grants.tail } := buffer_generous generous
  have fill : NgxBuf.update m.bufs.size (NgxBuf.rangeStr str)
      { m with bufs := m.bufs.alloc {}, grants := m.grants.tail } = .ok () filled := by
    rw [NgxBuf.update_ok Heap.read_alloc_self, Heap.write_alloc]
    rfl
  have linked : NgxPool.chain m.bufs.size filled = .ok m.links.size
      (m.single (NgxBuf.ofStr str) m.grants.tail.tail) :=
    chain_generous (m := filled) generous.tail m.bufs.size
  rw [sendStr, Exec.bind_ok _ (onPool_ok made), Exec.bind_ok _ (onPool_ok fill), sendBuf,
    Exec.bind_ok _ (onPool_ok linked)]
  rfl

theorem sendSpecial_eq (generous : w.filter.chains.Generous) (flags : Special) :
    ngxHttpSendSpecial tops flags w = ngxHttpOutputFilter tops w.filter.chains.links.size
      (w.setChains (w.filter.chains.single flags.buf w.filter.chains.grants.tail)) := by
  rw [ngxHttpSendSpecial, Exec.bind_ok _ (onPool_ok (chainPalloc_generous generous))]
  rfl

theorem Sent.setChains (sent : w.Sent total headers due chains) {m : ChainMem}
    (generous : m.Generous) : (w.setChains m).Sent total headers due chains :=
  ⟨sent.sent, sent.whole, sent.length, sent.due, generous, sent.log⟩

theorem Underway.pool (underway : w.Underway sh total len headers due chains) :
    w.filter.chains.Generous := by
  cases underway with
  | fresh _ _ fresh _ => exact fresh.pool
  | sent sent => exact sent.pool

theorem Underway.setChains (underway : w.Underway sh total len headers due chains) {m : ChainMem}
    (generous : m.Generous) : (w.setChains m).Underway sh total len headers due chains := by
  cases underway with
  | fresh unsent whole fresh length =>
    exact .fresh unsent whole ⟨fresh.ctx, fresh.log, fresh.rep, fresh.generous, generous⟩ length
  | sent sent => exact .sent (Sent.setChains sent generous)

variable (takes : tops.Takes sh rc len headers due out)
include takes

theorem sendHeader_unsent (unsent : w.headerSent = false) (whole : w.headerOnly = false)
    (fresh : w.filter.Fresh sh) (length : w.filter.contentLength = total) :
    ∃ w', sendHeader tops w = .ok ngxOk w' ∧ w'.Sent (len total) headers due [] ∧
      w'.bytes = w.bytes ∧ w'.filter.chains.shown = w.filter.chains.shown := by
  obtain ⟨st, status⟩ : ∃ st, defaultStatus w = .ok () { w with status := st } := by
    by_cases none : w.status = 0
    · exact ⟨ngxHttpOk, by simp [defaultStatus, Exec.bind_apply, none, NgxResponse.status]⟩
    · exact ⟨w.status, by simp [defaultStatus, Exec.bind_apply, none]⟩
  obtain ⟨ctx, m, grants, isDue, generous, answered⟩ := takes.header w.filter fresh
  let f : FilterWorld := { w.filter with
    ctx, headers := m, contentLength := len w.filter.contentLength
    chains := { w.filter.chains with grants }
    log := [.header (len w.filter.contentLength) (some headers)] }
  have filtered : onFilter tops.header { w with status := st } =
      .ok ngxOk { w with status := st, filter := f } :=
    onFilter_ok (w := { w with status := st }) answered
  have called : ngxHttpSendHeader tops { w with status := st } =
      .ok ngxOk { w with status := st, filter := f, headerSent := true } := by
    rw [ngxHttpSendHeader, Exec.bind_ok _ (Exec.gets_apply _ _), if_neg (by simp [unsent]),
      Exec.bind_ok _ filtered, if_pos rfl]
    rfl
  refine ⟨{ w with status := st, filter := f, headerSent := true }, ?_, ?_, rfl,
    funext (ChainMem.shown_grants _ _)⟩
  · rw [sendHeader, Exec.bind_ok _ (Exec.gets_apply _ _), if_neg (by simp [unsent]),
      Exec.bind_ok _ status, Exec.bind_ok _ called]
    rfl
  · exact ⟨rfl, whole, by simp [f, length], isDue, generous, [], by simp [f, length], rfl⟩

theorem output_pass {p : Nat} {b : NgxBufT} (sent : w.Sent (len total) headers due chains)
    (shown : w.filter.chains.shown (some p) = some [b]) (unset : b.lastBuf = false) :
    ∃ w', ngxHttpOutputFilter tops p w = .ok rc w' ∧
      w'.Sent (len total) headers due (chains ++ [[b]]) ∧ w'.bytes = w.bytes := by
  obtain ⟨calls, log, taken⟩ := sent.log
  have passed := takes.pass w.filter p b sent.due shown unset
  refine ⟨_, onFilter_ok passed, ⟨sent.sent, sent.whole, sent.length, sent.due, sent.pool,
    calls ++ [.body (some p) (some [b])], by simp [log], ?_⟩, rfl⟩
  rw [List.map_append, taken]
  simp [NextCall.taken]

theorem sendChain_pass {p : Nat} {b : NgxBufT}
    (underway : w.Underway sh total len headers due chains)
    (shown : w.filter.chains.shown (some p) = some [b]) (unset : b.lastBuf = false) :
    ∃ w', sendChain tops (some p) w = .ok rc w' ∧
      w'.Sent (len total) headers due (chains ++ [[b]]) ∧ w'.bytes = w.bytes := by
  obtain ⟨w1, header, sent, bytes, shown⟩ : ∃ w1, sendHeader tops w = .ok ngxOk w1 ∧
      w1.Sent (len total) headers due chains ∧ w1.bytes = w.bytes ∧
      w1.filter.chains.shown (some p) = some [b] := by
    cases underway with
    | fresh unsent whole fresh length =>
      obtain ⟨w1, header, sent, bytes, same⟩ := sendHeader_unsent takes unsent whole fresh length
      exact ⟨w1, header, sent, bytes, by rw [same, shown]⟩
    | sent sent =>
      refine ⟨w, ?_, sent, rfl, shown⟩
      rw [sendHeader, Exec.bind_ok _ (Exec.gets_apply _ _), if_pos sent.sent]
      rfl
  obtain ⟨w', output, sent', bytes'⟩ := output_pass takes sent shown unset
  refine ⟨w', ?_, sent', bytes'.trans bytes⟩
  rw [sendChain, Exec.bind_ok _ header, Exec.bind_ok _ (Exec.gets_apply _ _),
    if_neg (by simp [sent.whole]), output]

theorem sendStr_pass (underway : w.Underway sh total len headers due chains) (str : NgxStr) :
    ∃ w', sendStr tops str w = .ok rc w' ∧
      w'.Sent (len total) headers due (chains ++ [[NgxBuf.ofStr str]]) ∧ w'.bytes = w.bytes := by
  have generous := Underway.pool underway
  rw [sendStr_eq generous]
  exact sendChain_pass takes (Underway.setChains underway generous.tail.tail)
    (ChainMem.shown_single _ _ _) rfl

theorem sendRef_pass (underway : w.Underway sh total len headers due chains)
    (str : List UInt8) :
    ∃ w', sendRef tops str w = .ok rc w' ∧ w'.Sent (len total) headers due
      (chains ++ [[NgxBuf.ofStr (w.bytes.stored str)]]) ∧ w'.bytes = w.bytes.store str := by
  have generous := Underway.pool underway
  let m : ChainMem := { w.filter.chains with grants := w.filter.chains.grants.tail }
  let w1 : ResponseWorld := { w.setChains m with bytes := w.bytes.store str }
  have copied : NgxPool.dup str w = .ok (w.bytes.stored str) w1 := by
    rw [NgxPool.dup, Exec.bind_ok _ (onPool_ok (chainPalloc_generous generous))]
    rfl
  have underway' : w1.Underway sh total len headers due chains := by
    cases Underway.setChains underway generous.tail with
    | fresh unsent whole fresh length => exact .fresh unsent whole fresh length
    | sent sent =>
      exact .sent ⟨sent.sent, sent.whole, sent.length, sent.due, sent.pool, sent.log⟩
  rw [sendRef, Exec.bind_ok _ copied]
  exact sendStr_pass takes underway' _

theorem flush_pass (sent : w.Sent (len total) headers due chains) :
    ∃ w', flush tops w = .ok rc w' ∧
      w'.Sent (len total) headers due (chains ++ [[Special.flush.buf]]) ∧ w'.bytes = w.bytes := by
  rw [flush, sendSpecial_eq sent.pool]
  exact output_pass takes (Sent.setChains sent sent.pool.tail) (ChainMem.shown_single _ _ _) rfl

theorem eof_last (sent : w.Sent (len total) headers due chains) :
    ∃ w' calls, eof tops w = .ok rc w' ∧ w'.filter.contentLength = len total ∧
      w'.filter.log = .header (len total) (some headers) :: calls ∧
      calls.map NextCall.taken = (chains ++ [out Special.last.buf]).map some ∧
      w'.bytes = w.bytes := by
  obtain ⟨calls, log, taken⟩ := sent.log
  let p := w.filter.chains.links.size
  let m := w.filter.chains.single Special.last.buf w.filter.chains.grants.tail
  let f : FilterWorld := (w.setChains m).filter
  let ended : NextCall := .body (some p) (some (out Special.last.buf))
  obtain ⟨ctx, chains', answered⟩ := takes.last f p _ sent.due sent.pool.tail
    (ChainMem.shown_single w.filter.chains Special.last.buf w.filter.chains.grants.tail) rfl
  let w' : ResponseWorld :=
    { w with filter := { f with ctx, chains := chains', log := f.log ++ [ended] } }
  have done : eof tops w = .ok rc w' := by
    rw [eof, sendSpecial_eq sent.pool]
    exact onFilter_ok (w := w.setChains m) answered
  have logged : w'.filter.log = .header (len total) (some headers) :: (calls ++ [ended]) := by
    change w.filter.log ++ [ended] = _
    rw [log, List.cons_append]
  refine ⟨w', _, done, sent.length, logged, ?_, rfl⟩
  rw [List.map_append, taken]
  simp [ended, NextCall.taken]

end NgxResponse

end NgxCpp
