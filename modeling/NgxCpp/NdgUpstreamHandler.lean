import NgxCpp.NgxModule

/-! `NgxUpstream` and `NdgUpstreamHandler`: a location is proxied by nginx's upstream
module, which calls the handler's callbacks back. -/

namespace NgxCpp
open Foundation

def ngxHttpInternalServerError : Int := 500

def ngxLogErr : Nat := 4
def ngxLogDebug : Nat := 8

/-- The callbacks of `ngx_http_upstream_t` that are set. -/
structure UpstreamCallbacks where
  createRequest : Bool := false
  reinitRequest : Bool := false
  processHeader : Bool := false
  finalizeRequest : Bool := false
deriving Repr, DecidableEq

/-- `ngx_http_upstream_t`, as far as the handler and its callbacks touch it. -/
structure HttpUpstream where
  conf : Option NdgUpstreamConf := none
  buffering : Bool := false
  callbacks : UpstreamCallbacks := {}
  requestBufs : Option Nat := none
  buffer : NgxBufT := {}
  contentLengthN : Int := 0
  statusN : Nat := 0
  stateStatus : Nat := 0
deriving Repr, DecidableEq

/-- A request; `started` counts the calls of `ngx_http_upstream_init`. -/
structure UpstreamRequest where
  method : Nat
  args : NgxStr
  count : Nat := 1
  upstream : Option HttpUpstream := none
  chains : ChainMem := {}
  started : Nat := 0
  logLevel : Nat := ngxLogErr
deriving Repr, DecidableEq

namespace NgxUpstream

def onChains {α : Type} (x : Ngx ChainMem α) : Ngx UpstreamRequest α :=
  Exec.zoom UpstreamRequest.chains (fun chains w => { w with chains }) x

def update (f : HttpUpstream → HttpUpstream) : Ngx UpstreamRequest Unit := do
  let u ← Exec.deref UpstreamRequest.upstream
  Exec.modify fun w => { w with upstream := some (f u) }

def setConf (cf : NdgUpstreamConf) : Ngx UpstreamRequest Unit :=
  update fun u => { u with conf := some cf, buffering := cf.buffering }

def request (bufs : Nat) : Ngx UpstreamRequest Unit := do
  let u ← Exec.deref UpstreamRequest.upstream
  match u.requestBufs with
  | none => update fun u => { u with requestBufs := some bufs }
  | some head => onChains (NgxChain.append head bufs)

end NgxUpstream

namespace NgxUpstreamHelper

/-- `create`, when `ngx_http_upstream_create` ends with `rc`. -/
def create (rc : Int) : Ngx UpstreamRequest Unit := do
  let u ← Exec.gets UpstreamRequest.upstream
  if u.isSome then pure ()
  else
    Exec.modify fun w => if rc = ngxOk then { w with upstream := some {} } else w
    NgxException.requireCond (rc == ngxOk) ngxHttpInternalServerError

/-- The callbacks that `start` sets, with no finalizer of the template's. -/
def setCallbacks (c : UpstreamCallbacks) : UpstreamCallbacks :=
  if c.createRequest then { c with finalizeRequest := true }
  else ⟨true, true, true, true⟩

/-- `start`, without reading the body; nginx discards it with the code `discarded`. -/
def start (discarded : Int) : Ngx UpstreamRequest Int := do
  NgxUpstream.update fun u => { u with callbacks := setCallbacks u.callbacks }
  NgxException.requireCode discarded
  Exec.modify fun w => { w with count := w.count + 1, started := w.started + 1 }
  pure ngxDone

def defaultFinalizeRequest (_rc : Int) : Ngx UpstreamRequest Unit := pure ()

end NgxUpstreamHelper

/-- `NgxLogDebug::print` of a string: the conversion `%V` takes a pointer to one, and it gets the
string itself, whose length it reads from as an address. Below its level it prints nothing. -/
def NgxLogDebug.printStr (_str : NgxStr) : Ngx UpstreamRequest Unit := do
  let level ← Exec.gets UpstreamRequest.logLevel
  if level < ngxLogDebug then pure () else Exec.undefined

namespace NdgUpstreamCallback

/-- `create_request`; `xxxx` is the text that stands in for short arguments. The `print` at its
end is left out: where the log takes it, the one before has not returned. -/
def createRequest (xxxx : NgxStr) : Ngx UpstreamRequest Int := do
  let args ← Exec.gets UpstreamRequest.args
  let msg := if 4 ≤ args.len then { args with len := 4 } else xxxx
  let buf ← NgxUpstream.onChains NgxPool.buffer
  NgxUpstream.onChains (NgxBuf.update buf (NgxBuf.rangeStr msg))
  let ch ← NgxUpstream.onChains (NgxPool.chain buf)
  NgxLogDebug.printStr msg
  NgxUpstream.request ch
  pure ngxOk

/-- The text that is proxied: the first four bytes of the arguments, where they have four. -/
def proxyText (xxxx args : NgxStr) : NgxStr := if 4 ≤ args.len then { args with len := 4 } else xxxx

def requesting (r : UpstreamRequest) (text : NgxStr) : UpstreamRequest :=
  { r with chains := r.chains.single (NgxBuf.ofStr text) r.chains.grants.tail.tail }

def reinitRequest : Ngx UpstreamRequest Int := pure ngxOk

/-- `process_header`: the length of the body comes first, in two bytes. -/
def processHeader (ram : Ram) : Ngx UpstreamRequest Int := do
  let u ← Exec.deref UpstreamRequest.upstream
  if NgxBuf.sizeT u.buffer < 2 then pure ngxAgain
  else
    let p := u.buffer.pos
    NgxUpstream.update fun u => { u with
      contentLengthN := (ram p).toNat * 256 + (ram (p + 1)).toNat
      statusN := ngxHttpOk
      stateStatus := ngxHttpOk
      buffer := NgxBuf.consume 2 u.buffer }
    pure ngxOk

end NdgUpstreamCallback

/-- `NdgUpstreamHandler::handler`, when nginx creates the upstream with the code `created`. -/
def NdgUpstreamHandler.handler (conf : NdgUpstreamConf) (created discarded : Int) :
    Ngx UpstreamRequest Int :=
  Exec.catching (do
    let method ← Exec.gets UpstreamRequest.method
    if method &&& ngxHttpGet = 0 then pure ngxHttpNotAllowed
    else
      NgxUpstreamHelper.create created
      NgxUpstream.setConf conf
      NgxUpstreamHelper.start discarded) fun e => pure e.code

section Throws

open Exec (Throws NoThrow)
open NdgUpstreamCallback

theorem update_noThrow (f : HttpUpstream → HttpUpstream) : NoThrow (NgxUpstream.update f) :=
  .bind (.deref _) fun _ => .modify _

theorem tail_noThrow (fuel p : Nat) : NoThrow (NgxChain.tail fuel p) := by
  induction fuel generalizing p with
  | zero => exact .exhausted
  | succ fuel ih =>
    refine .bind (.deref _) fun link => ?_
    cases link.next with
    | none => exact .pure p
    | some q => exact ih q

theorem append_noThrow (head ch : Nat) : NoThrow (NgxChain.append head ch) :=
  .bind (.gets _) fun _ => .bind (tail_noThrow _ _) fun _ => .bind (.deref _) fun _ => .modify _

theorem request_noThrow (bufs : Nat) : NoThrow (NgxUpstream.request bufs) := by
  refine .bind (.deref _) fun u => ?_
  cases u.requestBufs with
  | none => exact update_noThrow _
  | some head => exact .zoom (append_noThrow head bufs)

theorem printStr_noThrow (str : NgxStr) : NoThrow (NgxLogDebug.printStr str) :=
  .bind (.gets _) fun _ => .ite (.pure ()) .undefined

theorem printStr_quiet {r : UpstreamRequest} (quiet : r.logLevel < ngxLogDebug) (str : NgxStr) :
    NgxLogDebug.printStr str r = .ok () r := by
  rw [NgxLogDebug.printStr, Exec.bind_ok _ (Exec.gets_apply _ _), if_pos quiet]
  rfl

theorem printStr_debug {r : UpstreamRequest} (debug : ngxLogDebug ≤ r.logLevel) (str : NgxStr) :
    NgxLogDebug.printStr str r = .undefined := by
  rw [NgxLogDebug.printStr, Exec.bind_ok _ (Exec.gets_apply _ _), if_neg (Nat.not_lt.mpr debug)]
  rfl

theorem upstream_onChains_ok {α : Type} {x : Ngx ChainMem α} {a : α} {m m' : ChainMem}
    (r : UpstreamRequest) (ran : x m = .ok a m') :
    NgxUpstream.onChains x { r with chains := m } = .ok a { r with chains := m' } := by
  simp only [NgxUpstream.onChains, Exec.zoom, ran]

theorem upstream_onChains_raised {α : Type} {x : Ngx ChainMem α} {e : NgxException}
    {m m' : ChainMem} (r : UpstreamRequest) (threw : x m = .raised e m') :
    NgxUpstream.onChains x { r with chains := m } = .raised e { r with chains := m' } := by
  simp only [NgxUpstream.onChains, Exec.zoom, threw]

theorem createRequest_eq (xxxx : NgxStr) (r : UpstreamRequest) :
    let text := proxyText xxxx r.args
    createRequest xxxx r =
      if granted r.chains.grants then
        if granted r.chains.grants.tail then (do
          NgxLogDebug.printStr text
          NgxUpstream.request r.chains.links.size
          pure ngxOk : Ngx UpstreamRequest Int) (requesting r text)
        else .raised ⟨ngxError⟩ { r with
          chains :=
            { r.chains with
              bufs := r.chains.bufs.alloc (NgxBuf.ofStr text)
              grants := r.chains.grants.tail.tail } }
      else .raised ⟨ngxError⟩ { r with
        chains := { r.chains with grants := r.chains.grants.tail } } := by
  intro text
  have made := buffer_eq r.chains
  rw [createRequest, Exec.bind_ok _ (Exec.gets_apply _ _)]
  cases first : granted r.chains.grants with
  | false =>
    rw [first] at made
    exact Exec.bind_raised _ (upstream_onChains_raised r made)
  | true =>
    let m1 : ChainMem :=
      { r.chains with bufs := r.chains.bufs.alloc {}, grants := r.chains.grants.tail }
    let m2 : ChainMem := { m1 with bufs := r.chains.bufs.alloc (NgxBuf.ofStr text) }
    have ranged : NgxBuf.update r.chains.bufs.size (NgxBuf.rangeStr text) m1 = .ok () m2 := by
      rw [NgxBuf.update_ok Heap.read_alloc_self, Heap.write_alloc]
      rfl
    have linked := chain_eq r.chains.bufs.size m2
    rw [first, if_pos rfl] at made
    rw [if_pos rfl]
    refine (Exec.bind_ok _ (upstream_onChains_ok r made)).trans ?_
    refine (Exec.bind_ok _ (upstream_onChains_ok r ranged)).trans ?_
    cases second : granted r.chains.grants.tail with
    | false =>
      rw [show granted m2.grants = false from second] at linked
      exact Exec.bind_raised _ (upstream_onChains_raised r linked)
    | true =>
      rw [show granted m2.grants = true from second, if_pos rfl] at linked
      exact Exec.bind_ok _ (upstream_onChains_ok r linked)

/-- `create_request` has no handler: a pool that refuses the buffer or the link ends it. -/
theorem createRequest_throws_iff (xxxx : NgxStr) (r : UpstreamRequest) :
    Throws (createRequest xxxx) r ↔
      granted r.chains.grants = false ∨ granted r.chains.grants.tail = false := by
  rw [Throws, createRequest_eq]
  cases granted r.chains.grants with
  | false => simp
  | true =>
    cases granted r.chains.grants.tail with
    | false => simp
    | true =>
      have quiet : NoThrow (do
          NgxLogDebug.printStr (proxyText xxxx r.args)
          NgxUpstream.request r.chains.links.size
          pure ngxOk : Ngx UpstreamRequest Int) :=
        .bind (printStr_noThrow _) fun _ => .bind (request_noThrow _) fun _ => .pure _
      exact iff_of_false (quiet _) (by simp)

theorem processHeader_noThrow (ram : Ram) : NoThrow (NdgUpstreamCallback.processHeader ram) :=
  .bind (.deref _) fun _ => .ite (.pure _) (.bind (update_noThrow _) fun _ => .pure _)

end Throws

end NgxCpp
