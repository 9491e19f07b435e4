import NgxCpp.NdgUpstreamResponse
import NgxCpp.NgxResponse

/-! A request that is proxied to one upstream server after the other: `create_request` is called
once, and each server is sent what it has made. What nginx does with a server is a parameter. -/

namespace NgxCpp
open Foundation

/-- A server that is tried: the number of bytes of the request that it takes, and the reads of
its response. -/
structure UpstreamAttempt where
  sent : Nat
  reads : List (List UInt8)
deriving Repr, DecidableEq

namespace UpstreamWorld

def onRequest {α : Type} (x : Ngx UpstreamRequest α) : Ngx UpstreamWorld α :=
  Exec.zoom UpstreamWorld.request (fun request w => { w with request }) x

def withChains (w : UpstreamWorld) (m : ChainMem) : UpstreamWorld :=
  { w with request := { w.request with chains := m } }

end UpstreamWorld

/-- The upstream as `ngx_http_upstream_reinit` leaves it. -/
def HttpUpstream.restarted (u : HttpUpstream) : HttpUpstream :=
  { u with contentLengthN := -1, statusN := 0, buffer := NgxBuf.reset u.buffer }

/-- What nginx does with a server between the callbacks: it starts over, and hands the server
the chain of the request, of which that takes so many bytes. -/
structure UpstreamServers where
  reinit : Ngx UpstreamWorld Unit
  send : Nat → Ngx UpstreamWorld (List UInt8)

/-- Starting over forgets the last response and has the buffers of the request read from their
starts again; what a server takes moves nothing but where they are read. -/
structure UpstreamServers.Documented (nginx : UpstreamServers) : Prop where
  reinit : ∀ (w : UpstreamWorld) (u : HttpUpstream) (bufs : List NgxBufT),
    w.request.upstream = some u → w.request.chains.shown u.requestBufs = some bufs →
      ∃ m, nginx.reinit w = .ok () ((w.withUpstream u.restarted).withChains m) ∧
        m.shown u.requestBufs = some (bufs.map fun b => { b with pos := b.start })
  send : ∀ (w : UpstreamWorld) (u : HttpUpstream) (bufs : List NgxBufT) (sent : Nat),
    w.request.upstream = some u → w.request.chains.shown u.requestBufs = some bufs →
      ∃ m later, nginx.send sent w =
          .ok (bufs.flatMap (NgxBufT.bytes ⟨w.ram, fun _ => w.ram⟩)) (w.withChains m) ∧
        m.shown u.requestBufs = some later ∧
        List.Forall₂ (fun b b' : NgxBufT => ∃ pos, b' = { b with pos }) bufs later

namespace UpstreamWorld

/-- nginx's start of an upstream: it calls `create_request`, and has a buffer for the
responses at `place`. -/
def ngxHttpUpstreamInit (conf : NdgUpstreamConf) (xxxx : NgxStr) (place : Nat) :
    Ngx UpstreamWorld Unit := do
  let _ ← onRequest (NdgUpstreamCallback.createRequest xxxx)
  onRequest (NgxUpstream.update fun u => { u with
    buffer :=
      { pos := place, last := place, start := place, past := place + conf.bufferSize
        temporary := true } })

variable (nginx : UpstreamServers)

/-- A server is tried; with what it could get and the codes of `process_header`. -/
def attempt (a : UpstreamAttempt) : Ngx UpstreamWorld (List UInt8 × List Int) := do
  let _ ← onRequest NdgUpstreamCallback.reinitRequest
  nginx.reinit
  let out ← nginx.send a.sent
  let rcs ← NdgUpstreamCallback.processReads a.reads
  pure (out, rcs)

def attempts : List UpstreamAttempt → Ngx UpstreamWorld (List (List UInt8 × List Int))
  | [] => pure []
  | a :: as => do
    let first ← attempt nginx a
    let rest ← attempts as
    pure (first :: rest)

def proxied (conf : NdgUpstreamConf) (xxxx : NgxStr) (place : Nat) (as : List UpstreamAttempt) :
    Ngx UpstreamWorld (List (List UInt8 × List Int)) := do
  let _ ← onRequest (NdgUpstreamHandler.handler conf ngxOk ngxOk)
  ngxHttpUpstreamInit conf xxxx place
  attempts nginx as

end UpstreamWorld

namespace NdgUpstreamCallback

/-- The codes of `process_header` for reads that follow `k` bytes. -/
def codes : Nat → List (List UInt8) → List Int
  | _, [] => []
  | k, bytes :: reads =>
    if k + bytes.length < 2 then ngxAgain :: codes (k + bytes.length) reads else [ngxOk]

def lengthOf : List UInt8 → Option Int
  | b0 :: b1 :: _ => some (256 * b0.toNat + b1.toNat)
  | _ => none

/-- What is read into the buffer of an upstream, and what `process_header` makes of it, leaves
all but this buffer and the headers as it is. -/
structure Reads (w w' : UpstreamWorld) (u u' : HttpUpstream) : Prop where
  request : w'.request = { w.request with upstream := some u' }
  bufs : u'.requestBufs = u.requestBufs
  start : u'.buffer.start = u.buffer.start
  past : u'.buffer.past = u.buffer.past
  memory : u'.buffer.inMemory = u.buffer.inMemory
  ram : ∀ s : NgxStr, s.data + s.len ≤ u.buffer.start ∨ u.buffer.past ≤ s.data →
    NgxString.bytes w'.ram s = NgxString.bytes w.ram s

variable {w w' w'' : UpstreamWorld} {u u' u'' : HttpUpstream} {win : Window}
  {reads : List (List UInt8)} {arrived bytes : List UInt8} {n : Nat}

theorem Reads.refl (upstream : w.request.upstream = some u) : Reads w w u u where
  request := by rw [← upstream]
  bufs := rfl
  start := rfl
  past := rfl
  memory := rfl
  ram _ _ := rfl

theorem Reads.trans (first : Reads w w' u u') (second : Reads w' w'' u' u'') :
    Reads w w'' u u'' where
  request := by rw [second.request, first.request]
  bufs := second.bufs.trans first.bufs
  start := second.start.trans first.start
  past := second.past.trans first.past
  memory := second.memory.trans first.memory
  ram s apart :=
    (second.ram s (by rwa [first.start, first.past])).trans (first.ram s apart)

theorem Buffered.reads_receive (buffered : Buffered w u win arrived (bytes.length + n)) :
    Reads w (w.received u bytes) u (u.received bytes.length) where
  request := rfl
  bufs := rfl
  start := rfl
  past := rfl
  memory := rfl
  ram s apart := by
    have room := buffered.room
    have before := win.start_le
    have readable := win.readable
    have bounded := win.bounded
    rw [buffered.frames.start, buffered.frames.past] at apart
    unfold Window.room at room
    refine Ram.span_write ?_
    rw [buffered.frames.last]
    omega

theorem reads_parsed (w : UpstreamWorld) (u : HttpUpstream) (b0 b1 : UInt8) :
    Reads w (w.withUpstream (u.parsed b0 b1)) u (u.parsed b0 b1) :=
  ⟨rfl, rfl, rfl, rfl, rfl, fun _ _ => rfl⟩

theorem lengthOf_few (few : arrived.length < 2) : lengthOf arrived = none := by
  rcases arrived with _ | ⟨b0, _ | ⟨b1, rest⟩⟩
  · rfl
  · rfl
  · simp only [List.length_cons] at few
    omega

theorem exists_two (enough : ¬ bytes.length < 2) : ∃ b0 b1 rest, bytes = b0 :: b1 :: rest := by
  rcases bytes with _ | ⟨b0, _ | ⟨b1, rest⟩⟩
  · simp at enough
  · simp at enough
  · exact ⟨b0, b1, rest, rfl⟩

/-- The reads of one response: the codes depend on their lengths alone, and the length that is
announced on the bytes, wherever they were split. -/
theorem Buffered.processReads (buffered : Buffered w u win arrived n) (few : arrived.length < 2)
    (room : reads.flatten.length ≤ n) : ∃ w' u',
      processReads reads w = .ok (codes arrived.length reads) w' ∧ Reads w w' u u' ∧
        u'.contentLengthN = (lengthOf (arrived ++ reads.flatten)).getD u.contentLengthN := by
  induction reads generalizing w u win arrived n with
  | nil =>
    refine ⟨w, u, rfl, .refl buffered.upstream, ?_⟩
    rw [List.flatten_nil, List.append_nil, lengthOf_few few]
    rfl
  | cons bytes reads ih =>
    rw [List.flatten_cons, List.length_append] at room
    obtain ⟨more, rfl⟩ := Nat.exists_eq_add_of_le (Nat.le_trans (Nat.le_add_right ..) room)
    have next := buffered.receive
    have received := buffered.reads_receive
    have called := receive_ok buffered.upstream bytes
    by_cases again : (arrived ++ bytes).length < 2
    · obtain ⟨w', u', run, later, length⟩ := ih next again (by omega)
      refine ⟨w', u', ?_, received.trans later, ?_⟩
      · rw [NdgUpstreamCallback.processReads, Exec.bind_ok _ called, Exec.bind_ok _ (next.few again),
          if_neg (by decide), Exec.bind_ok _ run, codes,
          if_pos (by rwa [List.length_append] at again), List.length_append]
        rfl
      · rw [length, List.flatten_cons, List.append_assoc]
        rfl
    · obtain ⟨b0, b1, rest, stream⟩ := exists_two again
      rw [stream] at next
      refine ⟨_, _, ?_, received.trans (reads_parsed _ _ b0 b1), ?_⟩
      · rw [NdgUpstreamCallback.processReads, Exec.bind_ok _ called, Exec.bind_ok _ next.enough,
          if_pos rfl, codes, if_neg (by rwa [List.length_append] at again)]
        rfl
      · rw [List.flatten_cons, ← List.append_assoc, stream]
        rfl

end NdgUpstreamCallback

/-- A request for which `create_request` has put the string `s` into the chain, and which has a
buffer of `size` bytes at `place` for the responses. -/
structure Proxying (s : NgxStr) (place size : Nat) (w : UpstreamWorld) (u : HttpUpstream) :
    Prop where
  upstream : w.request.upstream = some u
  chain : ∃ pos, w.request.chains.shown u.requestBufs = some [{ NgxBuf.ofStr s with pos }]
  start : u.buffer.start = place
  past : u.buffer.past = place + size
  memory : u.buffer.inMemory = true

namespace UpstreamWorld
open NdgUpstreamCallback

variable {nginx : UpstreamServers} {w : UpstreamWorld} {u : HttpUpstream} {s : NgxStr}
  {place size : Nat}

theorem attempt_ok (documented : nginx.Documented) (proxying : Proxying s place size w u)
    (addressed : place + size < 2 ^ 64)
    (apart : s.data + s.len ≤ place ∨ place + size ≤ s.data) {a : UpstreamAttempt}
    (fits : a.reads.flatten.length ≤ size) : ∃ w' u',
      attempt nginx a w = .ok (NgxString.bytes w.ram s, codes 0 a.reads) w' ∧
        Proxying s place size w' u' ∧
        u'.contentLengthN = (lengthOf a.reads.flatten).getD (-1) ∧
        NgxString.bytes w'.ram s = NgxString.bytes w.ram s := by
  obtain ⟨upstream, ⟨pos, shown⟩, start, past, memory⟩ := proxying
  obtain ⟨m1, again, whole⟩ := documented.reinit w u _ upstream shown
  let w1 := (w.withUpstream u.restarted).withChains m1
  obtain ⟨m2, later, sent, shown2, moved⟩ :=
    documented.send w1 u.restarted _ a.sent rfl whole
  have out : nginx.send a.sent w1 = .ok (NgxString.bytes w.ram s) (w1.withChains m2) := by
    rw [sent]
    simp [NgxBuf.ofStr, NgxBuf.rangeStr, NgxBuf.boundary, NgxBuf.range, NgxBufT.bytes,
      NgxBufT.inMemory, NgxString.bytes, w1, withChains, UpstreamWorld.withUpstream]
  obtain ⟨pos2, rfl⟩ : ∃ pos, later = [{ NgxBuf.ofStr s with pos }] := by
    obtain ⟨b, bs, ⟨pos2, rfl⟩, rest, rfl⟩ := List.forall₂_cons_left_iff.mp moved
    obtain rfl := List.forall₂_nil_left_iff.mp rest
    exact ⟨pos2, rfl⟩
  have buffered : Buffered (w1.withChains m2) u.restarted
      ⟨place, place, place, place + size, Nat.le_refl _, Nat.le_refl _, Nat.le_add_right ..⟩ []
      size := by
    refine ⟨rfl, ⟨memory, start, start, start, past, addressed⟩, by simp [Ram.span], ?_⟩
    exact Nat.le_of_eq (Nat.add_sub_cancel_left ..).symm
  obtain ⟨w3, u3, run, reads, length⟩ := buffered.processReads (by decide) fits
  have called : onRequest reinitRequest w = .ok ngxOk w := rfl
  refine ⟨w3, u3, ?_, ⟨?_, ⟨pos2, ?_⟩, reads.start.trans start, reads.past.trans past,
    reads.memory.trans memory⟩, ?_, ?_⟩
  · rw [attempt, Exec.bind_ok _ called, Exec.bind_ok _ again, Exec.bind_ok _ out,
      Exec.bind_ok _ run]
    rfl
  · rw [reads.request]
  · rw [reads.request, reads.bufs]
    exact shown2
  · rw [length, List.nil_append]
    rfl
  · exact reads.ram s (by rwa [show u.restarted.buffer.start = place from start,
      show u.restarted.buffer.past = place + size from past])

theorem attempts_ok (documented : nginx.Documented) (proxying : Proxying s place size w u)
    (addressed : place + size < 2 ^ 64)
    (apart : s.data + s.len ≤ place ∨ place + size ≤ s.data) (as : List UpstreamAttempt)
    (fits : ∀ a ∈ as, a.reads.flatten.length ≤ size) : ∃ w' u',
      attempts nginx as w =
        .ok (as.map fun a => (NgxString.bytes w.ram s, codes 0 a.reads)) w' ∧
        w'.request.upstream = some u' ∧
        ∀ a ∈ as.getLast?, u'.contentLengthN = (lengthOf a.reads.flatten).getD (-1) := by
  induction as generalizing w u with
  | nil => exact ⟨w, u, rfl, proxying.upstream, by simp⟩
  | cons a as ih =>
    obtain ⟨w1, u1, first, proxying1, length, same⟩ :=
      attempt_ok documented proxying addressed apart (fits a (List.mem_cons_self ..))
    obtain ⟨w2, u2, rest, upstream, last⟩ :=
      ih proxying1 fun b member => fits b (List.mem_cons_of_mem _ member)
    rw [same] at rest
    cases as with
    | nil =>
      obtain ⟨-, rfl⟩ := Outcome.ok.inj rest
      refine ⟨w1, u1, by rw [attempts, Exec.bind_ok _ first]; rfl, proxying1.upstream, ?_⟩
      simpa using length
    | cons b as =>
      refine ⟨w2, u2, ?_, upstream, by simpa using last⟩
      rw [attempts, Exec.bind_ok _ first, Exec.bind_ok _ rest]
      rfl

end UpstreamWorld

section Proxied
open UpstreamWorld NdgUpstreamCallback

theorem upstream_handler_ok {r : UpstreamRequest} (get : r.method &&& ngxHttpGet ≠ 0)
    (new : r.upstream = none) (conf : NdgUpstreamConf) : ∃ r' u,
      NdgUpstreamHandler.handler conf ngxOk ngxOk r = .ok ngxDone r' ∧ r'.upstream = some u ∧
        u.requestBufs = none ∧ r'.chains = r.chains ∧ r'.args = r.args ∧
        r'.logLevel = r.logLevel := by
  let u : HttpUpstream :=
    { conf := some conf, buffering := conf.buffering, callbacks := ⟨true, true, true, true⟩ }
  refine ⟨{ r with upstream := some u, count := r.count + 1, started := r.started + 1 }, u,
    Exec.catching_ok _ ?_, rfl, rfl, rfl, rfl, rfl⟩
  have made : NgxUpstreamHelper.create ngxOk r = .ok () { r with upstream := some {} } := by
    rw [NgxUpstreamHelper.create, Exec.bind_ok _ (Exec.gets_apply _ _), new]
    rfl
  rw [Exec.bind_ok _ (Exec.gets_apply _ _), if_neg get, Exec.bind_ok _ made]
  rfl

theorem createRequest_generous {r : UpstreamRequest} (pool : r.chains.Generous)
    (xxxx : NgxStr) : createRequest xxxx r = (do
      NgxLogDebug.printStr (proxyText xxxx r.args)
      NgxUpstream.request r.chains.links.size
      pure ngxOk : Ngx UpstreamRequest Int) (requesting r (proxyText xxxx r.args)) := by
  rw [createRequest_eq, if_pos pool.granted, if_pos pool.tail.granted]

theorem createRequest_ok {r : UpstreamRequest} {u : HttpUpstream} (upstream : r.upstream = some u)
    (new : u.requestBufs = none) (pool : r.chains.Generous) (quiet : r.logLevel < ngxLogDebug)
    (xxxx : NgxStr) : ∃ r' p,
      createRequest xxxx r = .ok ngxOk r' ∧ r'.upstream = some { u with requestBufs := some p } ∧
        r'.chains.shown (some p) = some [NgxBuf.ofStr (proxyText xxxx r.args)] := by
  let asking := requesting r (proxyText xxxx r.args)
  have printed : NgxLogDebug.printStr (proxyText xxxx r.args) asking = .ok () asking :=
    printStr_quiet (r := asking) quiet _
  have found : (Exec.deref UpstreamRequest.upstream : Ngx _ _) asking = .ok u asking :=
    Exec.deref_some upstream
  have put : NgxUpstream.request r.chains.links.size asking = .ok ()
      { asking with upstream := some { u with requestBufs := some r.chains.links.size } } := by
    rw [NgxUpstream.request, Exec.bind_ok _ found, new]
    dsimp only
    rw [NgxUpstream.update, Exec.bind_ok _ found]
    rfl
  refine ⟨{ asking with upstream := some { u with requestBufs := some r.chains.links.size } },
    r.chains.links.size, ?_, rfl, r.chains.shown_single _ _⟩
  rw [createRequest_generous pool, Exec.bind_ok _ printed, Exec.bind_ok _ put]
  rfl

theorem createRequest_debug {r : UpstreamRequest} (pool : r.chains.Generous)
    (debug : ngxLogDebug ≤ r.logLevel) (xxxx : NgxStr) : createRequest xxxx r = .undefined := by
  have printed : NgxLogDebug.printStr (proxyText xxxx r.args)
      (requesting r (proxyText xxxx r.args)) = .undefined :=
    printStr_debug (r := requesting r (proxyText xxxx r.args)) debug _
  rw [createRequest_generous pool, Exec.bind_apply, printed]

/-- However many servers are tried, whatever part of the request each of them takes and however
its response is split, below the debug level of the log: every server can get the same text, the
first four bytes of the arguments or the default, and `process_header` answers for each response
on its own, as if there had been no other; the length in the end is that of the last. At the debug
level the process ends before a server is tried. -/
theorem attempts_alike {nginx : UpstreamServers} (documented : nginx.Documented)
    {w : UpstreamWorld} {conf : NdgUpstreamConf} {xxxx : NgxStr} {place : Nat}
    {as : List UpstreamAttempt} (get : w.request.method &&& ngxHttpGet ≠ 0)
    (new : w.request.upstream = none) (pool : w.request.chains.Generous) (four : xxxx.len = 4)
    (addressed : place + conf.bufferSize < 2 ^ 64)
    (apart : ∀ s ∈ [xxxx, w.request.args],
      s.data + s.len ≤ place ∨ place + conf.bufferSize ≤ s.data)
    (fits : ∀ a ∈ as, a.reads.flatten.length ≤ conf.bufferSize) :
    (w.request.logLevel < ngxLogDebug → ∃ w' u',
      proxied nginx conf xxxx place as w = .ok (as.map fun a =>
        (NgxString.bytes w.ram (proxyText xxxx w.request.args), codes 0 a.reads)) w' ∧
      w'.request.upstream = some u' ∧
      ∀ a ∈ as.getLast?, u'.contentLengthN = (lengthOf a.reads.flatten).getD (-1)) ∧
    (ngxLogDebug ≤ w.request.logLevel → proxied nginx conf xxxx place as w = .undefined) := by
  obtain ⟨r1, u1, handled, upstream1, none, chains, args, level⟩ := upstream_handler_ok get new conf
  have started : onRequest (NdgUpstreamHandler.handler conf ngxOk ngxOk) w =
      .ok ngxDone { w with request := r1 } := Exec.zoom_ok handled
  have pool1 : r1.chains.Generous := chains ▸ pool
  rw [← level]
  refine ⟨fun quiet => ?_, fun debug => ?_⟩
  case refine_2 =>
    have ended : ngxHttpUpstreamInit conf xxxx place { w with request := r1 } = .undefined := by
      have asked : onRequest (createRequest xxxx) { w with request := r1 } = .undefined := by
        rw [onRequest, Exec.zoom, createRequest_debug pool1 debug]
      rw [ngxHttpUpstreamInit, Exec.bind_apply, asked]
    rw [proxied, Exec.bind_ok _ started, Exec.bind_apply, ended]
  obtain ⟨r2, p, created, upstream2, shown⟩ :=
    createRequest_ok upstream1 none pool1 quiet xxxx
  rw [args] at shown
  have asked : onRequest (createRequest xxxx) { w with request := r1 } =
      .ok ngxOk { w with request := r2 } := Exec.zoom_ok created
  let u : HttpUpstream :=
    { u1 with
      requestBufs := some p
      buffer :=
        { pos := place, last := place, start := place, past := place + conf.bufferSize
          temporary := true } }
  have init : ngxHttpUpstreamInit conf xxxx place { w with request := r1 } =
      .ok () (UpstreamWorld.withUpstream { w with request := r2 } u) := by
    have found : (Exec.deref UpstreamRequest.upstream : Ngx _ _) r2 =
        .ok { u1 with requestBufs := some p } r2 := Exec.deref_some upstream2
    rw [ngxHttpUpstreamInit, Exec.bind_ok _ asked]
    refine Exec.zoom_ok (s := { r2 with upstream := some u }) ?_
    rw [NgxUpstream.update, Exec.bind_ok _ found]
    rfl
  have proxying : Proxying (proxyText xxxx w.request.args) place conf.bufferSize
      (UpstreamWorld.withUpstream { w with request := r2 } u) u :=
    ⟨rfl, ⟨_, shown⟩, rfl, rfl, rfl⟩
  have short : (proxyText xxxx w.request.args).len = 4 := by
    unfold proxyText
    split
    · rfl
    · exact four
  have outside : (proxyText xxxx w.request.args).data + 4 ≤ place ∨
      place + conf.bufferSize ≤ (proxyText xxxx w.request.args).data := by
    have default := apart xxxx (by simp)
    have given := apart w.request.args (by simp)
    unfold proxyText
    split
    · dsimp only
      omega
    · omega
  obtain ⟨w', u', run, last⟩ :=
    attempts_ok documented proxying addressed (by omega) as fits
  refine ⟨w', u', ?_, last⟩
  rw [proxied, Exec.bind_ok _ started, Exec.bind_ok _ init, run]
  rfl

def ChainMem.mapBufs (m : ChainMem) (f : NgxBufT → NgxBufT) : ChainMem :=
  { m with bufs := m.bufs.map f }

theorem ChainMem.shown_mapBufs {m : ChainMem} {head : Option Nat} {bufs : List NgxBufT}
    (shown : m.shown head = some bufs) (f : NgxBufT → NgxBufT) :
    (m.mapBufs f).shown head = some (bufs.map f) := by
  have collected : ∀ fuel head, (m.mapBufs f).collect fuel head =
      (m.collect fuel head).map (List.map fun v => { v with value := f v.value }) := by
    intro fuel
    induction fuel with
    | zero =>
      intro head
      cases head <;> rfl
    | succ fuel ih =>
      intro head
      cases head with
      | none => rfl
      | some p =>
        have links : (m.mapBufs f).links = m.links := rfl
        have read (b : Nat) : (m.mapBufs f).bufs.read b = (m.bufs.read b).map f := Heap.read_map f
        simp only [collect, links, read, ih]
        cases m.links.read p with
        | none => rfl
        | some link =>
          cases found : m.bufs.read link.buf with
          | none => simp [found]
          | some value => cases rest : m.collect fuel link.next <;> simp [found, rest]
  obtain ⟨views, found, rfl⟩ := Option.map_eq_some_iff.mp shown
  unfold ChainMem.shown
  rw [collected, show (m.mapBufs f).links.size = m.links.size from rfl, found]
  simp [Function.comp_def]

private def oneBuffer : UpstreamServers where
  reinit := do
    let u ← Exec.deref fun w => w.request.upstream
    Exec.modify fun w => (w.withUpstream u.restarted).withChains
      (w.request.chains.mapBufs fun b => { b with pos := b.start })
  send sent := do
    let u ← Exec.deref fun w => w.request.upstream
    let bufs ← Exec.deref fun w => w.request.chains.shown u.requestBufs
    let w ← Exec.gets id
    Exec.modify fun w => w.withChains
      (w.request.chains.mapBufs fun b => { b with pos := b.pos + min sent (b.last - b.pos) })
    pure (bufs.flatMap (NgxBufT.bytes ⟨w.ram, fun _ => w.ram⟩))

private theorem oneBuffer_documented : oneBuffer.Documented where
  reinit w u bufs upstream shown := by
    have found : (Exec.deref fun w : UpstreamWorld => w.request.upstream : Ngx _ _) w = .ok u w :=
      Exec.deref_some upstream
    exact ⟨_, Exec.bind_ok _ found, ChainMem.shown_mapBufs shown _⟩
  send w u bufs sent upstream shown := by
    have found : (Exec.deref fun w : UpstreamWorld => w.request.upstream : Ngx _ _) w = .ok u w :=
      Exec.deref_some upstream
    have read : (Exec.deref fun w : UpstreamWorld => w.request.chains.shown u.requestBufs :
        Ngx _ _) w = .ok bufs w := Exec.deref_some shown
    refine ⟨_, _, (Exec.bind_ok _ found).trans (Exec.bind_ok _ read),
      ChainMem.shown_mapBufs shown _, ?_⟩
    rw [List.forall₂_map_right_iff]
    exact List.forall₂_same.mpr fun b _ => ⟨_, rfl⟩

/-- A server that takes two bytes and never says a length, and one that answers 300. -/
theorem attempts_alike_two : ∃ w' u',
    proxied oneBuffer { bufferSize := 16 } ⟨4, 1⟩ 16 [⟨2, [[], [9]]⟩, ⟨4, [[1], [44, 7], [9]]⟩]
      ⟨fun _ => 120, ⟨2, ⟨6, 8⟩, 1, none, {}, 0, ngxLogErr⟩⟩ =
        .ok [([120, 120, 120, 120], [ngxAgain, ngxAgain]),
          ([120, 120, 120, 120], [ngxAgain, ngxOk])] w' ∧
    w'.request.upstream = some u' ∧
    ∀ a ∈ [⟨2, [[], [9]]⟩, (⟨4, [[1], [44, 7], [9]]⟩ : UpstreamAttempt)].getLast?,
      u'.contentLengthN = (lengthOf a.reads.flatten).getD (-1) :=
  (attempts_alike oneBuffer_documented (by decide) rfl (by simp [ChainMem.Generous]) rfl
    (by decide) (by decide) (by decide)).1 (by decide)

end Proxied

end NgxCpp
