import NgxCpp.NdgUpstreamHandler
import NgxCpp.NgxBufWindow

/-! The response of an upstream starts with its length, in two bytes. nginx appends
what it reads to the upstream's buffer and calls `process_header` until that has seen
them. -/

namespace NgxCpp
open Foundation

structure UpstreamWorld where
  ram : Ram
  request : UpstreamRequest

namespace UpstreamWorld

def withUpstream (w : UpstreamWorld) (u : HttpUpstream) : UpstreamWorld :=
  { w with request := { w.request with upstream := some u } }

end UpstreamWorld

def HttpUpstream.received (u : HttpUpstream) (n : Nat) : HttpUpstream :=
  { u with buffer := { u.buffer with last := u.buffer.last + n } }

def HttpUpstream.parsed (u : HttpUpstream) (b0 b1 : UInt8) : HttpUpstream :=
  { u with
    contentLengthN := 256 * b0.toNat + b1.toNat
    statusN := ngxHttpOk
    stateStatus := ngxHttpOk
    buffer := { u.buffer with pos := u.buffer.pos + 2 } }

namespace UpstreamWorld

def received (w : UpstreamWorld) (u : HttpUpstream) (bytes : List UInt8) : UpstreamWorld :=
  { w with ram := w.ram.write u.buffer.last bytes }.withUpstream (u.received bytes.length)

end UpstreamWorld

/-- nginx reads from the upstream, behind the bytes that the buffer has. -/
def receive (bytes : List UInt8) : Ngx UpstreamWorld Unit := do
  let u ← Exec.deref fun w => w.request.upstream
  Exec.modify fun w => w.received u bytes

namespace NdgUpstreamCallback

/-- `process_header` on the bytes as they are. -/
def processReceived : Ngx UpstreamWorld Int := do
  let ram ← Exec.gets UpstreamWorld.ram
  Exec.zoom UpstreamWorld.request (fun request w => { w with request }) (processHeader ram)

/-- Reads, each with a call of `process_header`, until one succeeds; with their codes. -/
def processReads : List (List UInt8) → Ngx UpstreamWorld (List Int)
  | [] => pure []
  | bytes :: reads => do
    receive bytes
    let rc ← processReceived
    if rc = ngxOk then pure [rc]
    else
      let rcs ← processReads reads
      pure (rc :: rcs)

variable {w : UpstreamWorld} {u : HttpUpstream} {win : Window} {reads : List (List UInt8)}
  {arrived bytes : List UInt8}

theorem receive_ok (upstream : w.request.upstream = some u) (bytes : List UInt8) :
    receive bytes w = .ok () (w.received u bytes) := by
  have found : (Exec.deref fun w : UpstreamWorld => w.request.upstream : Ngx _ _) w = .ok u w :=
    Exec.deref_some upstream
  rw [receive, Exec.bind_ok _ found]
  rfl

theorem received_received (bytes more : List UInt8) :
    (w.received u bytes).received (u.received bytes.length) more =
      w.received u (bytes ++ more) := by
  simp only [UpstreamWorld.received, UpstreamWorld.withUpstream, HttpUpstream.received,
    Ram.write_append, List.length_append, Nat.add_assoc]

theorem received_nil (upstream : w.request.upstream = some u) : w.received u [] = w := by
  obtain ⟨ram, request⟩ := w
  simp only at upstream
  simp only [UpstreamWorld.received, UpstreamWorld.withUpstream, HttpUpstream.received,
    Ram.write_nil, List.length_nil, Nat.add_zero, ← upstream]

/-- The buffer of the upstream has these bytes, and room for `n` more. -/
structure Buffered (w : UpstreamWorld) (u : HttpUpstream) (win : Window) (arrived : List UInt8)
    (n : Nat) : Prop where
  upstream : w.request.upstream = some u
  frames : Frames win u.buffer
  arrived : w.ram.span win.pos win.last = arrived
  room : n ≤ win.room

namespace Buffered

variable {n : Nat}

theorem size (buffered : Buffered w u win arrived n) : win.size = arrived.length := by
  rw [← buffered.arrived, Ram.length_span]
  rfl

theorem receive (buffered : Buffered w u win arrived (bytes.length + n)) :
    Buffered (w.received u bytes) (u.received bytes.length) (win.produce bytes.length)
      (arrived ++ bytes) n := by
  obtain ⟨-, frames, arrived, room⟩ := buffered
  have last : (win.produce bytes.length).last = win.last + bytes.length :=
    congrArg (win.last + ·) (Nat.min_eq_left (by omega))
  have pos : (win.produce bytes.length).pos = win.pos := rfl
  refine ⟨rfl, ?_, ?_, ?_⟩
  · refine ⟨frames.memory, frames.start, frames.pos, ?_, frames.past, frames.addressed⟩
    rw [last]
    exact congrArg (· + bytes.length) frames.last
  · rw [last, pos, ← Ram.span_append win.readable (Nat.le_add_right ..), ← arrived]
    have place : u.buffer.last = win.last := frames.last
    simp only [UpstreamWorld.received, UpstreamWorld.withUpstream, place, Ram.span_write_self]
    exact congrArg (· ++ bytes) (Ram.span_write (.inl (Nat.le_refl _)))
  · unfold Window.room at room ⊢
    rw [last]
    simp only [Window.produce]
    omega

theorem few (buffered : Buffered w u win arrived n) (few : arrived.length < 2) :
    processReceived w = .ok ngxAgain w := by
  have small : NgxBuf.sizeT u.buffer < 2 := by
    rw [buffered.frames.sizeT, buffered.size]
    exact few
  have found : (Exec.deref UpstreamRequest.upstream : Ngx _ _) w.request = .ok u w.request :=
    Exec.deref_some buffered.upstream
  have asked : processHeader w.ram w.request = .ok ngxAgain w.request := by
    rw [processHeader, Exec.bind_ok _ found, if_pos small]
    rfl
  rw [processReceived, Exec.bind_ok _ (Exec.gets_apply _ _)]
  exact Exec.zoom_ok asked

theorem enough {b0 b1 : UInt8} {rest : List UInt8}
    (buffered : Buffered w u win (b0 :: b1 :: rest) n) :
    processReceived w = .ok ngxOk (w.withUpstream (u.parsed b0 b1)) := by
  have size : NgxBuf.sizeT u.buffer = rest.length + 2 := by
    rw [buffered.frames.sizeT, buffered.size]
    rfl
  have consumed : NgxBuf.consume 2 u.buffer = { u.buffer with pos := u.buffer.pos + 2 } := by
    rw [NgxBuf.consume, if_neg (by omega)]
  have at_pos (i : Nat) (inside : i < rest.length + 2) :
      w.ram (u.buffer.pos + i) = (b0 :: b1 :: rest)[i] := by
    have value := List.getElem_of_eq buffered.arrived.symm (i := i) inside
    rw [value, buffered.frames.pos]
    simp [Ram.span]
  have found : (Exec.deref UpstreamRequest.upstream : Ngx _ _) w.request = .ok u w.request :=
    Exec.deref_some buffered.upstream
  have taken : processHeader w.ram w.request =
      .ok ngxOk (w.withUpstream (u.parsed b0 b1)).request := by
    rw [processHeader, Exec.bind_ok _ found, if_neg (by omega), NgxUpstream.update,
      Exec.bind_apply, Exec.bind_ok _ found]
    simp only [Exec.modify_apply, consumed]
    have first := at_pos 0 (by omega)
    have second := at_pos 1 (by omega)
    simp only [Nat.add_zero, List.getElem_cons_zero, List.getElem_cons_succ] at first second
    simp [HttpUpstream.parsed, UpstreamWorld.withUpstream, first, second, mul_comm]
  rw [processReceived, Exec.bind_ok _ (Exec.gets_apply _ _)]
  exact Exec.zoom_ok taken

theorem rest {b0 b1 : UInt8} {rest : List UInt8}
    (buffered : Buffered w u win (b0 :: b1 :: rest) n) (disk : Nat → Ram) :
    (u.parsed b0 b1).buffer.bytes ⟨w.ram, disk⟩ = rest := by
  have size : win.size = rest.length + 2 := buffered.size
  have consumed : (u.parsed b0 b1).buffer = NgxBuf.consume 2 u.buffer := by
    rw [NgxBuf.consume, buffered.frames.sizeT, if_neg (by omega)]
    rfl
  rw [consumed, buffered.frames.bytes_consume, buffered.frames.bytes, buffered.arrived, size,
    Nat.min_eq_left (by omega)]
  rfl

theorem processReads_few {before : List (List UInt8)}
    (buffered : Buffered w u win arrived (before.flatten.length + n))
    (few : arrived.length + before.flatten.length < 2) (more : List (List UInt8)) :
    processReads (before ++ more) w = (do
      let rcs ← processReads more
      pure (List.replicate before.length ngxAgain ++ rcs)) (w.received u before.flatten) := by
  induction before generalizing w u win arrived with
  | nil =>
    rw [List.flatten_nil, received_nil buffered.upstream]
    exact (Exec.bind_pure_apply _ w).symm
  | cons bytes before ih =>
    rw [List.flatten_cons, List.length_append] at few buffered
    have next := (Nat.add_assoc .. ▸ buffered).receive
    have asked := next.few (by rw [List.length_append]; omega)
    have later := ih next (by rw [List.length_append]; omega)
    rw [received_received] at later
    rw [List.cons_append, processReads, Exec.bind_ok _ (receive_ok buffered.upstream bytes),
      Exec.bind_ok _ asked, if_neg (by decide), List.flatten_cons, Exec.bind_apply, later,
      Exec.bind_apply, Exec.bind_apply]
    cases processReads more (w.received u (bytes ++ before.flatten)) <;> rfl

end Buffered

theorem exists_completing (reads : List (List UInt8)) {k : Nat} (few : k < 2)
    (enough : 2 ≤ k + reads.flatten.length) :
    ∃ before bytes after, reads = before ++ bytes :: after ∧ k + before.flatten.length < 2 ∧
      2 ≤ k + (before.flatten ++ bytes).length := by
  induction reads generalizing k with
  | nil =>
    rw [List.flatten_nil, List.length_nil] at enough
    omega
  | cons bytes reads ih =>
    rw [List.flatten_cons, List.length_append] at enough
    by_cases here : 2 ≤ k + bytes.length
    · exact ⟨[], bytes, reads, rfl, few, here⟩
    · obtain ⟨before, more, after, rfl, less, done⟩ :=
        ih (k := k + bytes.length) (by omega) (by omega)
      refine ⟨bytes :: before, more, after, rfl, ?_, ?_⟩
      · rw [List.flatten_cons, List.length_append]
        omega
      · rw [List.flatten_cons, List.append_assoc, List.length_append]
        omega

theorem starts_of_append {bytes after rest : List UInt8} {b0 b1 : UInt8}
    (enough : 2 ≤ bytes.length) (whole : bytes ++ after = b0 :: b1 :: rest) :
    ∃ later, bytes = b0 :: b1 :: later := by
  match bytes with
  | [] | [_] => simp at enough
  | c0 :: c1 :: later =>
    obtain ⟨rfl, rfl, -⟩ : c0 = b0 ∧ c1 = b1 ∧ later ++ after = rest := by simpa using whole
    exact ⟨later, rfl⟩

/-- However the response is split into reads: the calls ask for more and change nothing
while less than two bytes are there. The call after the read that completes them takes
the length from the first two bytes of the response and leaves the others in the
buffer. -/
theorem process_header_any_split (buffered : Buffered w u win [] reads.flatten.length) :
    (reads.flatten.length < 2 → processReads reads w =
      .ok (List.replicate reads.length ngxAgain) (w.received u reads.flatten)) ∧
    ∀ b0 b1 rest, reads.flatten = b0 :: b1 :: rest → ∃ before bytes after later,
      reads = before ++ bytes :: after ∧ before.flatten.length < 2 ∧
      before.flatten ++ bytes = b0 :: b1 :: later ∧
      (let u' := (u.received (later.length + 2)).parsed b0 b1
       let w' := (w.received u (b0 :: b1 :: later)).withUpstream u'
       processReads reads w = .ok (List.replicate before.length ngxAgain ++ [ngxOk]) w' ∧
        ∀ disk, u'.buffer.bytes ⟨w'.ram, disk⟩ = later) := by
  constructor
  · intro few
    have run := Buffered.processReads_few (n := 0) buffered (by simpa using few) []
    rw [List.append_nil] at run
    rw [run]
    simp [processReads, Exec.bind_apply]
  · intro b0 b1 rest stream
    obtain ⟨before, bytes, after, rfl, few, enough⟩ :=
      exists_completing reads (k := 0) (by decide) (by simp [stream])
    have whole : before.flatten ++ bytes ++ after.flatten = b0 :: b1 :: rest := by
      rw [← stream, List.flatten_append, List.flatten_cons, List.append_assoc]
    obtain ⟨later, first⟩ := starts_of_append (by simpa using enough) whole
    have length : before.flatten.length + bytes.length = later.length + 2 := by
      rw [← List.length_append, first]
      rfl
    rw [List.flatten_append, List.flatten_cons, List.length_append, List.length_append] at buffered
    have asked := buffered.processReads_few (by simpa using few) (bytes :: after)
    have arrived := buffered.receive
    have full := arrived.receive
    rw [received_received, List.nil_append, first] at full
    have received : (u.received before.flatten.length).received bytes.length =
        u.received (later.length + 2) := by
      simp only [HttpUpstream.received, Nat.add_assoc, length]
    rw [received] at full
    have called : receive bytes (w.received u before.flatten) =
        .ok () (w.received u (b0 :: b1 :: later)) := by
      rw [receive_ok arrived.upstream, received_received, first]
    refine ⟨before, bytes, after, later, rfl, by simpa using few, first, ?_, full.rest⟩
    rw [asked, Exec.bind_apply, processReads, Exec.bind_ok _ called, Exec.bind_ok _ full.enough,
      if_pos rfl]
    rfl

private def freshUpstream : HttpUpstream where
  buffer := { pos := 16, last := 16, start := 16, past := 32, temporary := true }

private def awaiting : UpstreamWorld where
  ram _ := 0
  request := { method := ngxHttpGet, args := ngxNullString, upstream := some freshUpstream }

private theorem awaiting_buffered : Buffered awaiting freshUpstream
    ⟨16, 16, 16, 32, by decide, by decide, by decide⟩ [] [[], [1], [44, 7], [9]].flatten.length where
  upstream := rfl
  frames := ⟨rfl, rfl, rfl, rfl, rfl, by decide⟩
  arrived := rfl
  room := by decide

/-- A response that starts with the length 300. -/
theorem process_header_split_length :
    ∃ before bytes after later, [[], [1], [44, 7], [9]] = before ++ bytes :: after ∧
      before.flatten.length < 2 ∧ before.flatten ++ bytes = 1 :: 44 :: later ∧
      (let u' := (freshUpstream.received (later.length + 2)).parsed 1 44
       let w' := (awaiting.received freshUpstream (1 :: 44 :: later)).withUpstream u'
       processReads [[], [1], [44, 7], [9]] awaiting =
          .ok (List.replicate before.length ngxAgain ++ [ngxOk]) w' ∧
        ∀ disk, u'.buffer.bytes ⟨w'.ram, disk⟩ = later) :=
  (process_header_any_split awaiting_buffered).2 1 44 [7, 9] rfl

end NdgUpstreamCallback

end NgxCpp
