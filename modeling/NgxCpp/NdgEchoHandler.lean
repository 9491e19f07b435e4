import NgxCpp.NgxResponse
import NgxCpp.NgxScript

/-! The two `NdgEchoHandler`s answer a GET request with its arguments and a message.
The message of the legacy one is evaluated for each request. -/

namespace NgxCpp
open Foundation

structure NdgEchoConf where
  msg : NgxStr
deriving Repr, DecidableEq

def NgxRequest.method (x : Nat) : Ngx ResponseWorld Bool :=
  Exec.gets fun w => w.method &&& x != 0

/-- `NgxRequestBody::discard`, when nginx answers `rc`. -/
def NgxRequestBody.discard {σ : Type} (rc : Int) : Ngx σ Unit := NgxException.requireCode rc

namespace NdgEchoHandler

def comma : List UInt8 := [44]

variable (tops : TopFilters)

def replyLen (msg args : NgxStr) : Nat :=
  if NgxString.empty args then msg.len else msg.len + (args.len + 1)

def sendArgs (args : NgxStr) : Ngx ResponseWorld Unit := do
  if NgxString.empty args then pure ()
  else
    let _ ← NgxResponse.sendStr tops args
    let _ ← NgxResponse.sendRef tops comma

/-- Both handlers from the message on; the legacy one flushes before the end. -/
def reply (msg : NgxStr) (beforeEof : Ngx ResponseWorld Unit) : Ngx ResponseWorld Int := do
  let args ← Exec.gets ResponseWorld.args
  NgxResponse.length (replyLen msg args)
  NgxResponse.status ngxHttpOk
  sendArgs tops args
  let _ ← NgxResponse.sendStr tops msg
  beforeEof
  NgxResponse.eof tops

def handler (conf : NdgEchoConf) (discarded : Int) : Ngx ResponseWorld Int :=
  Exec.catching (do
    if ← NgxRequest.method ngxHttpGet then
      NgxRequestBody.discard discarded
      reply tops conf.msg (pure ())
    else pure ngxHttpNotAllowed) fun e => pure e.code

end NdgEchoHandler

namespace Legacy.NdgEchoHandler

variable (tops : TopFilters)

/-- `process`, when the message evaluates to `value`. -/
def process (discarded : Int) (value : Int × NgxStr) : Ngx ResponseWorld Int :=
  Exec.catching (do
    if ← NgxRequest.method ngxHttpGet then
      NgxRequestBody.discard discarded
      let msg ← NgxComplexValue.str value
      NgxCpp.NdgEchoHandler.reply tops msg (do let _ ← NgxResponse.flush tops)
    else pure ngxHttpNotAllowed) fun e => pure e.code

end Legacy.NdgEchoHandler

def handedBufs (log : List NextCall) : List NgxBufT := log.flatMap fun call => call.taken.getD []

/-- The response that nginx was handed: one header with these elements and the
length of the body, then the body, whose last buffer alone is marked. -/
structure Answered (c : Contents) (f : FilterWorld) (headers : List NgxTableElt)
    (body : List UInt8) : Prop where
  header : ∃ calls, f.log = .header f.contentLength (some headers) :: calls ∧
    ∀ call ∈ calls, call.taken.isSome
  length : f.contentLength = (NdgFilterHandler.handed c f.log).length
  bytes : NdgFilterHandler.handed c f.log = body
  last : ∃ front b, handedBufs f.log = front ++ [b] ∧ b.lastBuf = true ∧
    ∀ x ∈ front, x.lastBuf = false

def Sized (f : FilterWorld) : Prop := ∀ b ∈ handedBufs f.log, b.size ≠ 0 ∨ b.special = true

theorem handed_taken {calls : List NextCall} {chains : List (List NgxBufT)} (c : Contents)
    (taken : calls.map NextCall.taken = chains.map some) : handedBufs calls = chains.flatten ∧
      NdgFilterHandler.handed c calls = chains.flatten.flatMap (NgxBufT.bytes c) := by
  induction chains generalizing calls with
  | nil =>
    obtain rfl := List.map_eq_nil_iff.mp taken
    exact ⟨rfl, rfl⟩
  | cons bs chains ih =>
    obtain ⟨call, calls, rfl, first, rest⟩ := List.map_eq_cons_iff.mp taken
    obtain ⟨bufs, bytes⟩ := ih rest
    have found : ∃ p, call = .body (some p) (some bs) := by
      unfold NextCall.taken at first
      split at first
      · rename_i p bufs
        exact ⟨p, by rw [Option.some.inj first]⟩
      · simp at first
    obtain ⟨p, rfl⟩ := found
    have headBufs : handedBufs (.body (some p) (some bs) :: calls) = bs ++ handedBufs calls := rfl
    have headBytes : NdgFilterHandler.handed c (.body (some p) (some bs) :: calls) =
        bs.flatMap (NgxBufT.bytes c) ++ NdgFilterHandler.handed c calls := rfl
    rw [headBufs, headBytes, bufs, bytes, List.flatten_cons, List.flatMap_append]
    exact ⟨rfl, rfl⟩

theorem answered_of_log {f : FilterWorld} {headers : List NgxTableElt} {calls : List NextCall}
    {front : List (List NgxBufT)} {b : NgxBufT} {len : Int} (c : Contents)
    (log : f.log = .header len (some headers) :: calls) (length : f.contentLength = len)
    (taken : calls.map NextCall.taken = (front ++ [[b]]).map some) (last : b.lastBuf = true)
    (unset : ∀ x ∈ front.flatten, x.lastBuf = false)
    (total : len = (front.flatten.flatMap (NgxBufT.bytes c) ++ b.bytes c).length) :
    handedBufs f.log = front.flatten ++ [b] ∧
      Answered c f headers (front.flatten.flatMap (NgxBufT.bytes c) ++ b.bytes c) := by
  obtain ⟨bufs, bytes⟩ := handed_taken c taken
  have all : handedBufs f.log = front.flatten ++ [b] := by
    rw [log]
    simpa [handedBufs, NextCall.taken] using bufs
  have body : NdgFilterHandler.handed c f.log =
      front.flatten.flatMap (NgxBufT.bytes c) ++ b.bytes c := by
    rw [log]
    simpa [NdgFilterHandler.handed] using bytes
  refine ⟨all, ⟨calls, by rw [log, length], fun call member => ?_⟩, ?_, body,
    _, b, all, last, unset⟩
  · have inside := List.mem_map_of_mem (f := NextCall.taken) member
    rw [taken] at inside
    obtain ⟨bs, -, same⟩ := List.mem_map.mp inside
    simp [← same]
  · rw [body, length, total]

/-- A main request that reaches the handlers: nothing is sent, `header_only` is off,
the pools do not run dry and the strings lie in a user's address space. -/
structure ResponseWorld.EchoRequest (w : ResponseWorld) (sh : ListShape NgxTableElt)
    (msg : NgxStr) : Prop where
  get : (w.method &&& ngxHttpGet != 0) = true
  unsent : w.headerSent = false
  whole : w.headerOnly = false
  fresh : w.filter.Fresh sh
  args : w.args.Placed w.bytes
  msg : msg.Placed w.bytes
  room : w.bytes.brk ≤ 2 ^ 47

namespace NdgEchoHandler

def replyBytes (ram : Ram) (msg args : NgxStr) : List UInt8 :=
  if NgxString.empty args then NgxString.bytes ram msg
  else NgxString.bytes ram args ++ comma ++ NgxString.bytes ram msg

def replyChains (m : ByteMem) (msg args : NgxStr) : List (List NgxBufT) :=
  if NgxString.empty args then [[NgxBuf.ofStr msg]]
  else [[NgxBuf.ofStr args], [NgxBuf.ofStr (m.stored comma)], [NgxBuf.ofStr msg]]

def replied (m : ByteMem) (args : NgxStr) : ByteMem :=
  if NgxString.empty args then m else m.store comma

theorem length_replyBytes (ram : Ram) (msg args : NgxStr) :
    (replyBytes ram msg args).length = replyLen msg args := by
  unfold replyBytes replyLen
  split
  · simp
  · simp [comma]
    omega

theorem replyChains_bytes {m : ByteMem} {msg args : NgxStr} (disk : Nat → Ram)
    (placedMsg : msg.Placed m) (placedArgs : args.Placed m) :
    (replyChains m msg args).flatten.flatMap (NgxBufT.bytes ⟨(replied m args).ram, disk⟩) =
      replyBytes m.ram msg args := by
  unfold replyChains replyBytes replied
  split
  · simp
  · simp [ByteMem.bytes_store placedMsg, ByteMem.bytes_store placedArgs, ByteMem.bytes_stored]

theorem replyChains_unset (m : ByteMem) (msg args : NgxStr) :
    ∀ b ∈ (replyChains m msg args).flatten, b.lastBuf = false := by
  unfold replyChains
  split <;> simp [NgxBuf.ofStr, NgxBuf.rangeStr, NgxBuf.boundary, NgxBuf.range]

theorem replyChains_sized_iff (m : ByteMem) (msg args : NgxStr) :
    (∀ b ∈ (replyChains m msg args).flatten, b.size ≠ 0 ∨ b.special = true) ↔ msg.len ≠ 0 := by
  unfold replyChains
  split
  · simp
  · rename_i given
    have long : args.len ≠ 0 := by
      intro zero
      simp [NgxString.empty, zero] at given
    have one : (m.stored comma).len ≠ 0 := by simp [ByteMem.stored, comma]
    simp [long, one]

def Passes (len : Int) (headers : List NgxTableElt) (due : Option Int → Prop)
    (x : Ngx ResponseWorld Unit) (extra : List (List NgxBufT)) : Prop :=
  ∀ (w : ResponseWorld) chains, w.Sent len headers due chains → ∃ w', x w = .ok () w' ∧
    w'.Sent len headers due (chains ++ extra) ∧ w'.bytes = w.bytes

section Run

variable {tops : TopFilters} {sh : ListShape NgxTableElt} {rc : Int} {len : Int → Int}
  {headers : List NgxTableElt} {due : Option Int → Prop} {out : NgxBufT → List NgxBufT}
  {w : ResponseWorld} {msg : NgxStr} {chains : List (List NgxBufT)}

theorem replyLen_lt (request : w.EchoRequest sh msg) : replyLen msg w.args < 2 ^ 63 := by
  have ⟨_, _, _, _, args, placed, room⟩ := request
  unfold NgxStr.Placed at args placed
  unfold replyLen
  split <;> omega

variable (takes : tops.Takes sh rc len headers due out)
include takes

theorem sendArgs_pass {total : Int} (args : NgxStr)
    (underway : w.Underway sh total len headers due []) :
    ∃ w', sendArgs tops args w = .ok () w' ∧ w'.bytes = replied w.bytes args ∧
      w'.Underway sh total len headers due (if NgxString.empty args then []
        else [[NgxBuf.ofStr args], [NgxBuf.ofStr (w.bytes.stored comma)]]) := by
  unfold sendArgs replied
  by_cases none : NgxString.empty args = true
  · simp only [if_pos none]
    exact ⟨w, rfl, rfl, underway⟩
  · simp only [if_neg none]
    obtain ⟨w1, first, sent1, bytes1⟩ := NgxResponse.sendStr_pass takes underway args
    obtain ⟨w2, second, sent2, bytes2⟩ := NgxResponse.sendRef_pass takes (.sent sent1) comma
    refine ⟨w2, ?_, bytes2.trans (by rw [bytes1]), .sent ?_⟩
    · rw [Exec.bind_ok _ first, Exec.bind_ok _ second]
      rfl
    · rw [bytes1] at sent2
      exact sent2

/-- What a reply hands to the filters: the header, the chains of the reply and of
what comes before the end, and the end. -/
theorem reply_ok (request : w.EchoRequest sh msg) {beforeEof : Ngx ResponseWorld Unit}
    {extra : List (List NgxBufT)}
    (passes : Passes (len (replyLen msg w.args)) headers due beforeEof extra) :
    ∃ w' calls, reply tops msg beforeEof w = .ok rc w' ∧
      w'.filter.contentLength = len (replyLen msg w.args) ∧
      w'.filter.log = .header (len (replyLen msg w.args)) (some headers) :: calls ∧
      calls.map NextCall.taken =
        (replyChains w.bytes msg w.args ++ extra ++ [out Special.last.buf]).map some ∧
      w'.bytes = replied w.bytes w.args := by
  let total : Int := replyLen msg w.args
  let w0 : ResponseWorld :=
    { w with status := ngxHttpOk, filter := { w.filter with contentLength := total } }
  have announced : NgxResponse.length (replyLen msg w.args) w =
      .ok () { w with filter := { w.filter with contentLength := total } } :=
    NgxResponse.length_ok (replyLen_lt request)
  have status : NgxResponse.status ngxHttpOk
      { w with filter := { w.filter with contentLength := total } } = .ok () w0 := rfl
  have start : w0.Underway sh total len headers due [] :=
    .fresh request.unsent request.whole ⟨request.fresh.ctx, request.fresh.log, request.fresh.rep,
      request.fresh.generous, request.fresh.pool⟩ rfl
  obtain ⟨w1, args, bytes1, underway⟩ := sendArgs_pass takes w.args start
  obtain ⟨w2, message, sent2, bytes2⟩ := NgxResponse.sendStr_pass takes underway msg
  obtain ⟨w3, before, sent3, bytes3⟩ := passes w2 _ sent2
  obtain ⟨w4, calls, ended, length, log, taken, bytes4⟩ := NgxResponse.eof_last takes sent3
  refine ⟨w4, calls, ?_, length, log, ?_, ?_⟩
  · rw [reply, Exec.bind_ok _ (Exec.gets_apply _ _), Exec.bind_ok _ announced,
      Exec.bind_ok _ status, Exec.bind_ok _ args, Exec.bind_ok _ message,
      Exec.bind_ok _ before, ended]
  · rw [taken, replyChains]
    split <;> rfl
  · rw [bytes4, bytes3, bytes2, bytes1]

omit takes in
theorem handler_eq (request : w.EchoRequest sh msg) : handler tops ⟨msg⟩ ngxOk w =
    Exec.catching (reply tops msg (pure ())) (fun e => pure e.code) w := by
  have get : NgxRequest.method ngxHttpGet w = .ok true w := by
    rw [NgxRequest.method, Exec.gets_apply, request.get]
  have discarded : NgxRequestBody.discard ngxOk w = .ok () w := rfl
  refine Exec.catching_congr _ ?_
  rw [Exec.bind_ok _ get, if_pos rfl, Exec.bind_ok _ discarded]

omit takes in
theorem process_eq (request : w.EchoRequest sh msg) :
    Legacy.NdgEchoHandler.process tops ngxOk (ngxOk, msg) w = Exec.catching
      (reply tops msg (do let _ ← NgxResponse.flush tops)) (fun e => pure e.code) w := by
  have get : NgxRequest.method ngxHttpGet w = .ok true w := by
    rw [NgxRequest.method, Exec.gets_apply, request.get]
  have discarded : NgxRequestBody.discard ngxOk w = .ok () w := rfl
  have evaluated : NgxComplexValue.str (ngxOk, msg) w = .ok msg w := rfl
  refine Exec.catching_congr _ ?_
  rw [Exec.bind_ok _ get, if_pos rfl, Exec.bind_ok _ discarded, Exec.bind_ok _ evaluated]

theorem flush_passes (length : Int) : Passes (len length) headers due
    (do let _ ← NgxResponse.flush tops) [[Special.flush.buf]] := by
  intro w chains sent
  obtain ⟨w', flushed, sent', bytes⟩ := NgxResponse.flush_pass takes sent
  exact ⟨w', Exec.bind_ok _ flushed, sent', bytes⟩

omit takes in
theorem pure_passes (length : Int) : Passes length headers due (pure ()) [] := by
  intro w chains sent
  rw [List.append_nil]
  exact ⟨w, rfl, sent, rfl⟩

end Run

def recorders (rc : Int) : TopFilters :=
  ⟨NdgFilterHandler.nextHeader ngxOk, NdgFilterHandler.nextBody rc⟩

theorem nextHeader_apply (rc : Int) (f : FilterWorld) : NdgFilterHandler.nextHeader rc f =
    .ok rc { f with
      log := f.log ++ [.header f.contentLength (f.headers.shown f.headersOut)] } := rfl

theorem nextBody_apply (rc : Int) (input : Option Nat) (f : FilterWorld) :
    NdgFilterHandler.nextBody rc input f =
      .ok rc { f with log := f.log ++ [.body input (f.chains.shown input)] } := rfl

theorem recorders_take (sh : ListShape NgxTableElt) (rc : Int) :
    (recorders rc).Takes sh rc id sh.elems (fun _ => True) fun b => [b] where
  header f fresh := by
    have answered := nextHeader_apply ngxOk f
    rw [fresh.log, fresh.rep.shown] at answered
    exact ⟨f.ctx, f.headers, f.chains.grants, trivial, fresh.pool, answered⟩
  pass f p b _ shown _ := by
    have answered := nextBody_apply rc (some p) f
    rwa [shown] at answered
  last f p b _ _ shown _ := by
    have answered := nextBody_apply rc (some p) f
    rw [shown] at answered
    exact ⟨f.ctx, f.chains, answered⟩

/-- The response that an echo handler hands on, and whether nginx's write filter
takes all of it. -/
def WellFormed (c : Contents) (f : FilterWorld) (headers : List NgxTableElt)
    (body : List UInt8) : Prop :=
  Answered c f headers body ∧ Sized f

section Echo

variable {w : ResponseWorld} {sh : ListShape NgxTableElt} {msg : NgxStr}

/-- A reply to nginx's own filters is well-formed but for an empty message. -/
theorem reply_wellFormed_iff (request : w.EchoRequest sh msg) (disk : Nat → Ram) (rc : Int)
    {beforeEof : Ngx ResponseWorld Unit} {extra : List (List NgxBufT)}
    (passes : Passes (replyLen msg w.args) sh.elems (fun _ => True) beforeEof extra)
    (special : ∀ b ∈ extra.flatten, b.special = true ∧ b.lastBuf = false ∧ b.size = 0) :
    ∃ w', reply (recorders rc) msg beforeEof w = .ok rc w' ∧
      (WellFormed ⟨w'.bytes.ram, disk⟩ w'.filter sh.elems (replyBytes w.bytes.ram msg w.args) ↔
        msg.len ≠ 0) := by
  obtain ⟨w', calls, run, length, log, taken, bytes⟩ :=
    reply_ok (recorders_take sh rc) request passes
  refine ⟨w', run, ?_⟩
  let c : Contents := ⟨w'.bytes.ram, disk⟩
  have front : (replyChains w.bytes msg w.args ++ extra).flatten.flatMap (NgxBufT.bytes c) =
      replyBytes w.bytes.ram msg w.args := by
    have silent : extra.flatten.flatMap (NgxBufT.bytes c) = [] :=
      List.flatMap_eq_nil_iff.mpr fun b member => NgxBufT.bytes_eq_nil (special b member).2.2
    have carried := replyChains_bytes disk request.msg request.args
    rw [← bytes] at carried
    rw [List.flatten_append, List.flatMap_append, silent, List.append_nil, carried]
  have unset : ∀ x ∈ (replyChains w.bytes msg w.args ++ extra).flatten, x.lastBuf = false := by
    rw [List.flatten_append]
    intro x member
    rcases List.mem_append.mp member with inReply | inExtra
    · exact replyChains_unset _ _ _ x inReply
    · exact (special x inExtra).2.1
  have ended : Special.last.buf.bytes c = [] := NgxBufT.bytes_eq_nil rfl
  obtain ⟨bufs, answered⟩ := answered_of_log c log length taken rfl unset (by
    rw [front, ended, List.append_nil, length_replyBytes]
    rfl)
  rw [front, ended, List.append_nil] at answered
  have sized : Sized w'.filter ↔ msg.len ≠ 0 := by
    rw [← replyChains_sized_iff w.bytes msg w.args, Sized, bufs, List.flatten_append]
    constructor
    · intro all b member
      exact all b (by simp [member])
    · intro all b member
      simp only [List.mem_append, List.mem_singleton] at member
      obtain (inReply | inExtra) | rfl := member
      · exact all b inReply
      · exact .inr (special b inExtra).1
      · exact .inr rfl
  exact (and_iff_right answered).trans sized

/-- Both handlers answer a GET request with a well-formed response exactly when the
message is not empty. -/
theorem echo_well_formed_iff (request : w.EchoRequest sh msg) (disk : Nat → Ram) (rc : Int) :
    (∃ w', handler (recorders rc) ⟨msg⟩ ngxOk w = .ok rc w' ∧
        (WellFormed ⟨w'.bytes.ram, disk⟩ w'.filter sh.elems (replyBytes w.bytes.ram msg w.args) ↔
          msg.len ≠ 0)) ∧
      ∃ w', Legacy.NdgEchoHandler.process (recorders rc) ngxOk (ngxOk, msg) w = .ok rc w' ∧
        (WellFormed ⟨w'.bytes.ram, disk⟩ w'.filter sh.elems (replyBytes w.bytes.ram msg w.args) ↔
          msg.len ≠ 0) := by
  constructor
  · obtain ⟨w', run, iff⟩ := reply_wellFormed_iff request disk rc (pure_passes _) (by simp)
    exact ⟨w', by rw [handler_eq request, Exec.catching_ok _ run], iff⟩
  · obtain ⟨w', run, iff⟩ := reply_wellFormed_iff request disk rc
      (flush_passes (recorders_take sh rc) _) (by simp [Special.buf, NgxBufT.special,
        NgxBufT.inMemory, NgxBufT.size])
    exact ⟨w', by rw [process_eq request, Exec.catching_ok _ run], iff⟩

/-- A request with room for two headers, in memory that holds the letter "a". -/
def getRequest (args : NgxStr) : ResponseWorld where
  method := ngxHttpGet
  args := args
  bytes := ⟨fun _ => 97, 20⟩
  filter :=
    { contentLength := -1
      headersOut := 0
      headers :=
        { lists := ⟨[⟨0, 0, 2⟩]⟩, parts := ⟨[⟨some 0, 0, none⟩]⟩, arrays := ⟨[[none, none]]⟩ } }

theorem getRequest_reaches {args msg : NgxStr} (placed : args.data + args.len ≤ 20)
    (placed' : msg.data + msg.len ≤ 20) :
    (getRequest args).EchoRequest ⟨⟨0, 0, 2⟩, [], ⟨0, 0, []⟩⟩ msg where
  get := by simp [getRequest, ngxHttpGet]
  unsent := rfl
  whole := rfl
  fresh :=
    { ctx := rfl
      log := rfl
      rep := Represents.of_empty rfl rfl rfl rfl (by decide)
      generous := by simp [getRequest, ListMem.Generous]
      pool := by simp [getRequest, ChainMem.Generous] }
  args := placed
  msg := placed'
  room := by simp [getRequest]

theorem echo_well_formed_args :
    (∃ w', handler (recorders 0) ⟨⟨2, 12⟩⟩ ngxOk (getRequest ⟨3, 14⟩) = .ok 0 w' ∧
        (WellFormed ⟨w'.bytes.ram, fun _ _ => 0⟩ w'.filter [] [97, 97, 97, 44, 97, 97] ↔
          (2 : Nat) ≠ 0)) ∧
      ∃ w', Legacy.NdgEchoHandler.process (recorders 0) ngxOk (ngxOk, ⟨2, 12⟩)
          (getRequest ⟨3, 14⟩) = .ok 0 w' ∧
        (WellFormed ⟨w'.bytes.ram, fun _ _ => 0⟩ w'.filter [] [97, 97, 97, 44, 97, 97] ↔
          (2 : Nat) ≠ 0) :=
  echo_well_formed_iff (getRequest_reaches (by decide) (by decide)) (fun _ _ => 0) 0

/-- The buffer of an empty message is empty and not special. -/
theorem echo_empty_message :
    ¬ ∃ w', handler (recorders 0) ⟨⟨0, 12⟩⟩ ngxOk (getRequest ngxNullString) = .ok 0 w' ∧
      WellFormed ⟨w'.bytes.ram, fun _ _ => 0⟩ w'.filter [] [] := by
  rintro ⟨w', run, -, sized⟩
  obtain ⟨-, rfl⟩ := Outcome.ok.inj run
  have handed := sized (NgxBuf.ofStr ⟨0, 12⟩) (by decide)
  simp at handed

end Echo

end NdgEchoHandler

end NgxCpp
