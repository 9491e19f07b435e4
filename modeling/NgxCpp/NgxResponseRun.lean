import NgxCpp.Foundation.Keeps
import NgxCpp.NdgEchoFilter

/-! Responses that are made by any sends and flushes of `NgxResponse`, up to the end: what
the filters are handed, on the way through `NdgFilterHandler` or straight to nginx's own. -/

namespace NgxCpp
open Foundation

/-- A part of a response: a string, a `string_ref` that is copied, or a flush. -/
inductive ResponsePart where
  | str (s : NgxStr)
  | ref (bytes : List UInt8)
  | flush
deriving Repr, DecidableEq

namespace ResponsePart

variable (tops : TopFilters)

def send : ResponsePart → Ngx ResponseWorld Unit
  | str s => do let _ ← NgxResponse.sendStr tops s
  | ref bytes => do let _ ← NgxResponse.sendRef tops bytes
  | flush => do let _ ← NgxResponse.flush tops

/-- A response of parts, where the length of its body is announced as `total`. -/
def respond (total : Nat) (parts : List ResponsePart) : Ngx ResponseWorld Int := do
  NgxResponse.length total
  Exec.each (send tops) parts
  NgxResponse.eof tops

def text (ram : Ram) : ResponsePart → List UInt8
  | str s => NgxString.bytes ram s
  | ref bytes => bytes
  | flush => []

def Full : ResponsePart → Prop
  | str s => s.len ≠ 0
  | ref bytes => bytes ≠ []
  | flush => True

instance : (part : ResponsePart) → Decidable part.Full
  | str s => inferInstanceAs (Decidable (s.len ≠ 0))
  | ref bytes => inferInstanceAs (Decidable (bytes ≠ []))
  | flush => inferInstanceAs (Decidable True)

def Starts (parts : List ResponsePart) : Prop := ∃ first rest, parts = first :: rest ∧ first ≠ flush

def Placed (m : ByteMem) (parts : List ResponsePart) : Prop := ∀ s, str s ∈ parts → s.Placed m

def stores (m : ByteMem) : ResponsePart → ByteMem
  | ref bytes => m.store bytes
  | _ => m

def carrier (m : ByteMem) : ResponsePart → NgxBufT
  | str s => NgxBuf.ofStr s
  | ref bytes => NgxBuf.ofStr (m.stored bytes)
  | flush => Special.flush.buf

def carriers (m : ByteMem) : List ResponsePart → List NgxBufT
  | [] => []
  | part :: parts => part.carrier m :: carriers (part.stores m) parts

section Bytes

variable {m : ByteMem} {s : NgxStr} {part : ResponsePart} {parts : List ResponsePart}

theorem placed_stores (placed : s.Placed m) (part : ResponsePart) : s.Placed (part.stores m) := by
  cases part with
  | ref bytes => exact ByteMem.placed_store placed bytes
  | _ => exact placed

theorem bytes_stores (placed : s.Placed m) (parts : List ResponsePart) :
    NgxString.bytes (parts.foldl stores m).ram s = NgxString.bytes m.ram s := by
  induction parts generalizing m with
  | nil => rfl
  | cons part parts ih =>
    rw [List.foldl_cons, ih (placed_stores placed part)]
    cases part with
    | ref bytes => exact ByteMem.bytes_store placed bytes
    | _ => rfl

theorem Placed.stores (placed : Placed m parts) (part : ResponsePart) :
    Placed (part.stores m) parts := fun s member => placed_stores (placed s member) part

theorem text_stores (placed : Placed m parts) (part : ResponsePart) :
    parts.flatMap (text (part.stores m).ram) = parts.flatMap (text m.ram) := by
  refine List.flatMap_congr fun other member => ?_
  cases other with
  | str s => exact bytes_stores (placed s member) [part]
  | _ => rfl

theorem carriers_bytes (placed : Placed m parts) (disk : Nat → Ram) :
    (carriers m parts).flatMap (NgxBufT.bytes ⟨(parts.foldl stores m).ram, disk⟩) =
      parts.flatMap (text m.ram) := by
  induction parts generalizing m with
  | nil => rfl
  | cons part parts ih =>
    have rest : Placed m parts := fun s member => placed s (List.mem_cons_of_mem _ member)
    rw [carriers, List.flatMap_cons, List.flatMap_cons, List.foldl_cons, ih (rest.stores part),
      text_stores rest part]
    congr 1
    cases part with
    | str s => exact bytes_stores (placed s (List.mem_cons_self ..)) parts
    | ref bytes =>
      exact (bytes_stores (m.stored_placed bytes) parts).trans (m.bytes_stored bytes)
    | flush => exact NgxBufT.bytes_eq_nil rfl

theorem carriers_unset (m : ByteMem) (parts : List ResponsePart) :
    ∀ b ∈ carriers m parts, b.lastBuf = false := by
  induction parts generalizing m with
  | nil => simp [carriers]
  | cons part parts ih =>
    refine List.forall_mem_cons.mpr ⟨?_, ih _⟩
    cases part <;> rfl

theorem carriers_sized_iff (m : ByteMem) (parts : List ResponsePart) :
    (∀ b ∈ carriers m parts, b.size ≠ 0 ∨ b.special = true) ↔ ∀ part ∈ parts, part.Full := by
  induction parts generalizing m with
  | nil => simp [carriers]
  | cons part parts ih =>
    rw [carriers, List.forall_mem_cons, List.forall_mem_cons, ih]
    refine and_congr_left fun _ => ?_
    cases part with
    | str s => simp [carrier, Full]
    | ref bytes => simp [carrier, Full, ByteMem.stored]
    | flush => simp [carrier, Full, Special.buf, NgxBufT.special, NgxBufT.inMemory]

end Bytes

section Run

variable {tops : TopFilters} {sh : ListShape NgxTableElt} {rc : Int} {len : Int → Int}
  {headers : List NgxTableElt} {due : Option Int → Prop} {out : NgxBufT → List NgxBufT}
  {w : ResponseWorld} {chains : List (List NgxBufT)} {total : Int}
  (takes : tops.Takes sh rc len headers due out)
include takes

theorem send_first (underway : w.Underway sh total len headers due chains) {part : ResponsePart}
    (starts : part ≠ flush) : ∃ w', part.send tops w = .ok () w' ∧
      w'.Sent (len total) headers due (chains ++ [[part.carrier w.bytes]]) ∧
      w'.bytes = part.stores w.bytes := by
  cases part with
  | str s =>
    obtain ⟨w', sent, after, bytes⟩ := NgxResponse.sendStr_pass takes underway s
    exact ⟨w', Exec.bind_ok _ sent, after, bytes⟩
  | ref text =>
    obtain ⟨w', sent, after, bytes⟩ := NgxResponse.sendRef_pass takes underway text
    exact ⟨w', Exec.bind_ok _ sent, after, bytes⟩
  | flush => exact absurd rfl starts

theorem send_next (sent : w.Sent (len total) headers due chains) (part : ResponsePart) :
    ∃ w', part.send tops w = .ok () w' ∧
      w'.Sent (len total) headers due (chains ++ [[part.carrier w.bytes]]) ∧
      w'.bytes = part.stores w.bytes := by
  by_cases starts : part = flush
  · subst starts
    obtain ⟨w', flushed, after, bytes⟩ := NgxResponse.flush_pass takes sent
    exact ⟨w', Exec.bind_ok _ flushed, after, bytes⟩
  · exact send_first takes (.sent sent) starts

theorem send_all (sent : w.Sent (len total) headers due chains) (parts : List ResponsePart) :
    ∃ w', Exec.each (send tops) parts w = .ok () w' ∧
      w'.Sent (len total) headers due (chains ++ (carriers w.bytes parts).map ([·])) ∧
      w'.bytes = parts.foldl stores w.bytes := by
  induction parts generalizing w chains with
  | nil => exact ⟨w, rfl, by simpa [carriers] using sent, rfl⟩
  | cons part parts ih =>
    obtain ⟨w1, first, sent1, bytes1⟩ := send_next takes sent part
    obtain ⟨w2, rest, sent2, bytes2⟩ := ih sent1
    refine ⟨w2, ?_, ?_, by rw [bytes2, bytes1, List.foldl_cons]⟩
    · rw [Exec.each_cons_ok first, rest]
    · rw [bytes1] at sent2
      simpa [carriers] using sent2

end Run

end ResponsePart

/-- A main request that nothing is sent for, with pools that do not run dry. -/
structure ResponseWorld.Ready (w : ResponseWorld) (sh : ListShape NgxTableElt) : Prop where
  unsent : w.headerSent = false
  whole : w.headerOnly = false
  fresh : w.filter.Fresh sh

namespace ResponsePart
open NdgEchoHandler NdgFilterHandler

section Respond

variable {tops : TopFilters} {sh : ListShape NgxTableElt} {rc : Int} {len : Int → Int}
  {headers : List NgxTableElt} {due : Option Int → Prop} {out : NgxBufT → List NgxBufT}
  {w : ResponseWorld} {parts : List ResponsePart} {total : Nat}

theorem announced (ready : w.Ready sh) (fits : total < 2 ^ 63) :
    ∃ w', NgxResponse.length total w = .ok () w' ∧ w'.Ready sh ∧
      w'.filter.contentLength = total ∧ w'.bytes = w.bytes :=
  ⟨_, NgxResponse.length_ok fits, ⟨ready.unsent, ready.whole, ready.fresh.ctx, ready.fresh.log,
    ready.fresh.rep, ready.fresh.generous, ready.fresh.pool⟩, rfl, rfl⟩

theorem respond_ok (takes : tops.Takes sh rc len headers due out) (ready : w.Ready sh)
    (starts : Starts parts) (fits : total < 2 ^ 63) :
    ∃ w' calls, respond tops total parts w = .ok rc w' ∧ w'.filter.contentLength = len total ∧
      w'.filter.log = .header (len total) (some headers) :: calls ∧
      calls.map NextCall.taken =
        ((carriers w.bytes parts).map ([·]) ++ [out Special.last.buf]).map some ∧
      w'.bytes = parts.foldl stores w.bytes := by
  obtain ⟨part, rest, rfl, unflushed⟩ := starts
  obtain ⟨w0, length, ready0, announced, bytes0⟩ := announced ready fits
  obtain ⟨w1, first, sent1, bytes1⟩ := send_first takes
    (.fresh ready0.unsent ready0.whole ready0.fresh announced) unflushed
  obtain ⟨w2, more, sent2, bytes2⟩ := send_all takes sent1 rest
  obtain ⟨w3, calls, ended, total', log, taken, bytes3⟩ := NgxResponse.eof_last takes sent2
  refine ⟨w3, calls, ?_, total', log, ?_, ?_⟩
  · rw [respond, Exec.bind_ok _ length]
    exact (Exec.bind_ok _ ((Exec.each_cons_ok first).trans more)).trans ended
  · rw [taken, bytes1, bytes0, carriers]
    rfl
  · rw [bytes3, bytes2, bytes1, bytes0, List.foldl_cons]

theorem handed_respond {f : FilterWorld} {calls : List NextCall} {b : NgxBufT} {l : Int}
    (log : f.log = .header l (some headers) :: calls)
    (taken : calls.map NextCall.taken =
      ((carriers w.bytes parts).map ([·]) ++ [[b]]).map some)
    (placed : Placed w.bytes parts) (disk : Nat → Ram) :
    let c : Contents := ⟨(parts.foldl stores w.bytes).ram, disk⟩
    handedBufs f.log = carriers w.bytes parts ++ [b] ∧
      handed c f.log = parts.flatMap (text w.bytes.ram) ++ b.bytes c := by
  intro c
  obtain ⟨bufs, bytes⟩ := handed_taken c taken
  have single : ((carriers w.bytes parts).map ([·])).flatten = carriers w.bytes parts := by
    rw [← List.flatMap_def, List.flatMap_singleton']
  rw [List.flatten_append, single, List.flatten_singleton] at bufs bytes
  rw [log]
  refine ⟨by simpa [handedBufs, NextCall.taken] using bufs, ?_⟩
  rw [List.flatMap_append, carriers_bytes placed disk] at bytes
  simpa [handed] using bytes

end Respond

end ResponsePart

def ResponseWorld.Logged (first : List NextCall) (w : ResponseWorld) : Prop :=
  first <+: w.filter.log

/-- Top filters that add to the log; the body filters of a request that nothing is sent
for hand on what they are given. -/
structure TopFilters.Appends (tops : TopFilters) (sh : ListShape NgxTableElt) : Prop where
  header : ∀ first : List NextCall, Exec.Keeps (fun f => first <+: f.log) tops.header
  body : ∀ (first : List NextCall) (p : Option Nat),
    Exec.Keeps (fun f => first <+: f.log) (tops.body p)
  early : ∀ (f : FilterWorld) p, f.Fresh sh → ∃ rc f' bufs,
    tops.body (some p) f = .ok rc f' ∧ f'.log = [.body (some p) bufs]

namespace ResponsePart
open NdgEchoHandler NdgFilterHandler
open Exec (Keeps)

section Late

variable {tops : TopFilters} {sh : ListShape NgxTableElt} {first : List NextCall}
  {w : ResponseWorld} {parts : List ResponsePart} {total : Nat}

theorem keeps_onFilter {α : Type} {x : Ngx FilterWorld α}
    (kept : Keeps (fun f => first <+: f.log) x) :
    Keeps (ResponseWorld.Logged first) (onFilter x) :=
  .zoom_of kept (fun _ logged => logged) fun _ _ _ logged => logged

theorem keeps_onPool {α : Type} (x : Ngx ChainMem α) :
    Keeps (ResponseWorld.Logged first) (onPool x) :=
  keeps_onFilter (.zoom x fun _ _ logged => logged)

variable (appends : tops.Appends sh)
include appends

theorem keeps_sendHeader : Keeps (ResponseWorld.Logged first) (NgxResponse.sendHeader tops) := by
  have status : Keeps (ResponseWorld.Logged first) NgxResponse.defaultStatus :=
    .bind (.gets _) fun _ => .ite (.modify fun _ logged => logged) (.pure ())
  have called : Keeps (ResponseWorld.Logged first) (ngxHttpSendHeader tops) := by
    refine .bind (.gets _) fun _ => .ite (.pure _) ?_
    refine .bind (keeps_onFilter (appends.header first)) fun _ => .ite ?_ (.pure _)
    exact .bind (.modify fun _ logged => logged) fun _ => .pure _
  refine .bind (.gets _) fun _ => .ite (.pure _) (.bind status fun _ => .bind called fun _ => ?_)
  exact .bind (.ite (.raise _) (.pure _)) fun _ => .pure _

theorem keeps_output (p : Nat) :
    Keeps (ResponseWorld.Logged first) (ngxHttpOutputFilter tops p) :=
  keeps_onFilter (appends.body first (some p))

theorem keeps_special (flags : Special) :
    Keeps (ResponseWorld.Logged first) (ngxHttpSendSpecial tops flags) := by
  refine .bind (keeps_onPool _) fun _ => .ite ?_ (.pure _)
  exact .bind (keeps_onPool _) fun _ => keeps_output appends _

theorem keeps_sendStr (s : NgxStr) :
    Keeps (ResponseWorld.Logged first) (NgxResponse.sendStr tops s) := by
  refine .bind (keeps_onPool _) fun _ => .bind (keeps_onPool _) fun _ => ?_
  refine .bind (keeps_onPool _) fun _ => .bind (keeps_sendHeader appends) fun _ => ?_
  exact .bind (.gets _) fun _ => .ite (.pure _) (keeps_output appends _)

theorem keeps_send (part : ResponsePart) :
    Keeps (ResponseWorld.Logged first) (part.send tops) := by
  cases part with
  | str s => exact .bind (keeps_sendStr appends s) fun _ => .pure _
  | ref bytes =>
    have copied : Keeps (ResponseWorld.Logged first) (NgxPool.dup bytes) := by
      refine .bind (keeps_onPool _) fun _ => .ite ?_ (.raise _)
      intro s logged t left
      obtain rfl := Option.some.inj left
      exact logged
    exact .bind (.bind copied fun _ => keeps_sendStr appends _) fun _ => .pure _
  | flush => exact .bind (keeps_special appends .flush) fun _ => .pure _

/-- Of a response without a first part that is sent, a body is the first that the filters
are handed. -/
theorem respond_late (ready : w.Ready sh) (late : ¬ Starts parts) (fits : total < 2 ^ 63)
    {rc : Int} {w' : ResponseWorld} (run : respond tops total parts w = .ok rc w') :
    ∃ p bufs, w'.Logged [.body p bufs] := by
  obtain ⟨w0, length, ready0, -, -⟩ := announced ready fits
  -- the special buffer that comes first
  have special : ∀ flags, ∃ rc' w1 p bufs,
      ngxHttpSendSpecial tops flags w0 = .ok rc' w1 ∧ w1.Logged [.body p bufs] := by
    intro flags
    have generous := ready0.fresh.pool
    let m := w0.filter.chains.single flags.buf w0.filter.chains.grants.tail
    have fresh : (w0.setChains m).filter.Fresh sh := ⟨ready0.fresh.ctx, ready0.fresh.log,
      ready0.fresh.rep, ready0.fresh.generous, generous.tail⟩
    obtain ⟨rc', f', bufs, handed, log⟩ := appends.early _ w0.filter.chains.links.size fresh
    refine ⟨rc', { w0.setChains m with filter := f' }, some w0.filter.chains.links.size, bufs,
      ?_, ?_⟩
    · rw [NgxResponse.sendSpecial_eq generous]
      exact NgxResponse.onFilter_ok (w := w0.setChains m) handed
    · simp [ResponseWorld.Logged, log]
  rw [respond, Exec.bind_ok _ length] at run
  cases parts with
  | nil =>
    obtain ⟨rc', w1, p, bufs, sent, logged⟩ := special .last
    obtain ⟨-, rfl⟩ := Outcome.ok.inj (sent.symm.trans run)
    exact ⟨p, bufs, logged⟩
  | cons part rest =>
    have flushed : part = flush := by
      by_contra sent
      exact late ⟨part, rest, rfl, sent⟩
    subst flushed
    obtain ⟨rc', w1, p, bufs, sent, logged⟩ := special .flush
    have first : send tops flush w0 = .ok () w1 := Exec.bind_ok _ sent
    have more : Keeps (ResponseWorld.Logged [.body p bufs])
        (do Exec.each (send tops) rest; NgxResponse.eof tops) :=
      .bind (.each (keeps_send appends) rest) fun _ => keeps_special appends .last
    refine ⟨p, bufs, more w1 logged w' ?_⟩
    rw [Exec.bind_apply, Exec.each_cons_ok first, ← Exec.bind_apply] at run
    rw [run]
    rfl

end Late

section WellFormed

variable {tops : TopFilters} {sh : ListShape NgxTableElt} {rc : Int} {len : Int → Int}
  {headers : List NgxTableElt} {due : Option Int → Prop} {out : NgxBufT → List NgxBufT}
  {w : ResponseWorld} {parts : List ResponsePart} {total : Nat} {b : NgxBufT}
  {ending : List UInt8}

/-- Where the last buffer becomes one that carries `ending`, a response is well-formed exactly
if its header is due first, the length that goes out is that of all its bytes and no part is
without bytes. -/
theorem respond_wellFormed_iff (takes : tops.Takes sh rc len headers due out)
    (appends : tops.Appends sh) (ready : w.Ready sh) (placed : Placed w.bytes parts)
    (fits : total < 2 ^ 63) (disk : Nat → Ram) (ended : out Special.last.buf = [b])
    (last : b.lastBuf = true) (sized : b.size ≠ 0 ∨ b.special = true)
    (carried : b.bytes ⟨(parts.foldl stores w.bytes).ram, disk⟩ = ending) :
    (∃ w', respond tops total parts w = .ok rc w' ∧ WellFormed ⟨w'.bytes.ram, disk⟩ w'.filter
        headers (parts.flatMap (text w.bytes.ram) ++ ending)) ↔
      Starts parts ∧ len total = (parts.flatMap (text w.bytes.ram) ++ ending).length ∧
        ∀ part ∈ parts, part.Full := by
  by_cases starts : Starts parts
  · obtain ⟨w', calls, run, length, log, taken, bytes⟩ := respond_ok takes ready starts fits
    rw [ended] at taken
    obtain ⟨bufs, handed⟩ := handed_respond log taken placed disk
    rw [carried, ← bytes] at handed
    have marked : ∀ x ∈ carriers w.bytes parts, x.lastBuf = false := carriers_unset _ _
    have full : Sized w'.filter ↔ ∀ part ∈ parts, part.Full := by
      rw [← carriers_sized_iff w.bytes parts, Sized, bufs, List.forall_mem_append]
      exact and_iff_left (List.forall_mem_singleton.mpr sized)
    constructor
    · rintro ⟨w1, run1, answered, allSized⟩
      obtain ⟨-, rfl⟩ := Outcome.ok.inj (run1.symm.trans run)
      have agrees := answered.length
      rw [length, handed] at agrees
      exact ⟨starts, agrees, full.mp allSized⟩
    · rintro ⟨-, agrees, allFull⟩
      refine ⟨w', run, ⟨⟨calls, by rw [log, length], fun call member => ?_⟩, ?_, handed,
        _, b, bufs, last, marked⟩, full.mpr allFull⟩
      · have inside := List.mem_map_of_mem (f := NextCall.taken) member
        rw [taken] at inside
        obtain ⟨bs, -, same⟩ := List.mem_map.mp inside
        simp [← same]
      · rw [length, handed, agrees]
  · refine iff_of_false ?_ fun conditions => starts conditions.1
    rintro ⟨w', run, answered, -⟩
    obtain ⟨p, bufs, calls, logged⟩ := respond_late appends ready starts fits run
    obtain ⟨later, log, -⟩ := answered.header
    rw [← logged] at log
    simp at log

end WellFormed

end ResponsePart

namespace NdgFilterHandler
open Exec (Keeps)

section Log

variable {first : List NextCall} (conf : NdgFilterConf)

theorem keeps_nextHeader (rc : Int) : Keeps (fun f => first <+: f.log) (nextHeader rc) :=
  .bind (.modify fun _ logged => logged.trans (List.prefix_append ..)) fun _ => .pure rc

theorem keeps_nextBody (rc : Int) (input : Option Nat) :
    Keeps (fun f => first <+: f.log) (nextBody rc input) :=
  .bind (.modify fun _ logged => logged.trans (List.prefix_append ..)) fun _ => .pure rc

theorem keeps_flag : Keeps (fun f => first <+: f.log) flag := by
  have made : Keeps (fun f => first <+: f.log) (do
      if ← onChains chainPalloc then
        Exec.modify fun w => { w with ctx := some 0 }
        pure 0
      else NgxException.raise : Ngx FilterWorld Int) := by
    refine .bind (.zoom _ fun _ _ logged => logged) fun _ => .ite ?_ (.raise _)
    exact .bind (.modify fun _ logged => logged) fun _ => .pure _
  intro f logged t left
  rw [flag] at left
  cases set : f.ctx with
  | none =>
    rw [set] at left
    exact made f logged t left
  | some i =>
    rw [set] at left
    obtain rfl := Option.some.inj left
    exact logged

theorem keeps_addHeader (i : Nat) : Keeps (fun f => first <+: f.log) (addHeader conf i) := by
  have got : Keeps (fun f : FilterWorld => first <+: f.log) (NgxKvArray.get conf.headers i) := by
    unfold NgxKvArray.get
    split
    · exact .pure _
    · exact .raise _
  exact .bind got fun _ => .bind (.gets _) fun _ => .zoom _ fun _ _ logged => logged

theorem keeps_headerFilter (rc : Int) :
    Keeps (fun f => first <+: f.log) (headerFilter conf (nextHeader rc)) := by
  have filtered : Keeps (fun f : FilterWorld => first <+: f.log) (doHeaderFilter conf) := by
    refine .bind keeps_flag fun _ => .ite (.pure ()) (.bind (.modify fun _ logged => logged) ?_)
    refine fun _ => .bind (.each (keeps_addHeader conf) _) fun _ => .ite (.pure ()) ?_
    exact .bind (.gets _) fun _ => .ite (.modify fun _ logged => logged) (.pure ())
  exact .catching (.bind filtered fun _ => keeps_nextHeader rc) fun e => .pure e.code

theorem keeps_bodyFilter (rc : Int) (input : Option Nat) :
    Keeps (fun f => first <+: f.log) (bodyFilter conf (nextBody rc) input) := by
  have filtered : Keeps (fun f : FilterWorld => first <+: f.log) (doBodyFilter conf input) := by
    refine .ite (.pure ()) (.bind keeps_flag fun _ => .ite (.pure ()) (.bind (.gets _) ?_))
    refine fun _ => .bind (.zoom _ fun _ _ logged => logged) fun found => ?_
    cases found with
    | none => exact .pure ()
    | some p =>
      exact .bind (.modify fun _ logged => logged) fun _ => .zoom _ fun _ _ logged => logged
  exact .catching (.bind filtered fun _ => keeps_nextBody rc input) fun e => .pure e.code

theorem filters_append (sh : ListShape NgxTableElt) (rc : Int) :
    TopFilters.Appends ⟨headerFilter conf (nextHeader ngxOk), bodyFilter conf (nextBody rc)⟩
      sh where
  header _ := keeps_headerFilter conf ngxOk
  body _ := keeps_bodyFilter conf rc
  early f p fresh := by
    obtain ⟨f', filtered, log⟩ : ∃ f', doBodyFilter conf (some p) f = .ok () f' ∧ f'.log = [] := by
      by_cases empty : NgxString.empty conf.footer = true
      · exact ⟨f, doBodyFilter_empty empty _, fresh.log⟩
      · have seen := flag_fresh fresh.ctx fresh.pool
        let chains : ChainMem := { f.chains with grants := f.chains.grants.tail }
        refine ⟨{ f with ctx := some 0, chains }, ?_, fresh.log⟩
        rw [doBodyFilter, if_neg empty, Exec.bind_ok _ seen, if_pos (by decide)]
        rfl
    exact ⟨rc, _, _, bodyFilter_ok filtered rc, by rw [log]; rfl⟩

end Log

end NdgFilterHandler

namespace ResponsePart
open NdgEchoHandler NdgFilterHandler

variable {sh : ListShape NgxTableElt} {w : ResponseWorld} {parts : List ResponsePart} {total : Nat}

theorem recorders_append (sh : ListShape NgxTableElt) (rc : Int) : (recorders rc).Appends sh where
  header _ := keeps_nextHeader ngxOk
  body _ := keeps_nextBody rc
  early f p fresh := ⟨rc, _, _, nextBody_apply rc (some p) f, by rw [fresh.log]; rfl⟩

theorem text_pos (starts : Starts parts) (full : ∀ part ∈ parts, part.Full) (ram : Ram) :
    0 < (parts.flatMap (text ram)).length := by
  obtain ⟨part, rest, rfl, unflushed⟩ := starts
  have bytes : 0 < (part.text ram).length := by
    have given := full part (List.mem_cons_self ..)
    cases part with
    | str s => simpa [text, Full, Nat.pos_iff_ne_zero] using given
    | ref bytes => exact List.length_pos_iff.mpr given
    | flush => exact absurd rfl unflushed
  rw [List.flatMap_cons, List.length_append]
  omega

theorem getRequest_ready : (getRequest ngxNullString).Ready ⟨⟨0, 0, 2⟩, [], ⟨0, 0, []⟩⟩ :=
  have request : (getRequest ngxNullString).EchoRequest ⟨⟨0, 0, 2⟩, [], ⟨0, 0, []⟩⟩ ngxNullString :=
    getRequest_reaches (by decide) (by decide)
  ⟨request.unsent, request.whole, request.fresh⟩

/-- A response that is made by `length`, then any sends and flushes, then `eof` is well-formed
exactly if it does not begin with a flush or the end, sends no string without bytes, and
announces the bytes that it sends. -/
theorem response_well_formed_iff (ready : w.Ready sh) (placed : Placed w.bytes parts)
    (fits : total < 2 ^ 63) (disk : Nat → Ram) (rc : Int) :
    (∃ w', respond (recorders rc) total parts w = .ok rc w' ∧
        WellFormed ⟨w'.bytes.ram, disk⟩ w'.filter sh.elems (parts.flatMap (text w.bytes.ram))) ↔
      Starts parts ∧ total = (parts.flatMap (text w.bytes.ram)).length ∧
        ∀ part ∈ parts, part.Full := by
  have exact_when := respond_wellFormed_iff (recorders_take sh rc) (recorders_append sh rc) ready
    placed fits disk rfl rfl (.inr rfl) (NgxBufT.bytes_eq_nil rfl)
  rw [List.append_nil, id, Int.ofNat_inj] at exact_when
  exact exact_when

/-- Two bytes, a flush and a comma. -/
theorem response_well_formed_three :
    let parts : List ResponsePart := [.str ⟨2, 12⟩, .flush, .ref [44]]
    (∃ w', respond (recorders 0) 3 parts (getRequest ngxNullString) = .ok 0 w' ∧
        WellFormed ⟨w'.bytes.ram, fun _ _ => 0⟩ w'.filter [] [97, 97, 44]) ↔
      Starts parts ∧ 3 = [97, 97, 44].length ∧ ∀ part ∈ parts, part.Full :=
  response_well_formed_iff getRequest_ready
    (by simp [Placed, NgxStr.Placed, getRequest]) (by decide) (fun _ _ => 0) 0

/-- Through `NdgFilterHandler` a response is well-formed, with the configured headers and the
footer, exactly if it is without the handler. -/
theorem filtered_well_formed_iff (ready : w.Ready sh) (placed : Placed w.bytes parts)
    (conf : NdgFilterConf) (footer : conf.footer.Placed w.bytes)
    (fits : total + conf.footer.len < 2 ^ 63) (g : FilterGlobals Unit) (disk : Nat → Ram)
    (rc : Int) :
    (∃ w', respond (topFilters conf (g.configure [registered]) rc) total parts w = .ok rc w' ∧
        WellFormed ⟨w'.bytes.ram, disk⟩ w'.filter (sh.elems ++ configured conf)
          (parts.flatMap (text w.bytes.ram) ++ footerBytes w.bytes.ram conf.footer)) ↔
      ∃ w', respond (recorders rc) total parts w = .ok rc w' ∧
        WellFormed ⟨w'.bytes.ram, disk⟩ w'.filter sh.elems (parts.flatMap (text w.bytes.ram)) := by
  have plain := respond_wellFormed_iff (recorders_take sh rc) (recorders_append sh rc) ready
    placed (by omega : total < 2 ^ 63) disk rfl rfl (.inr rfl) (NgxBufT.bytes_eq_nil rfl)
  have sized : (endBuf conf).size ≠ 0 ∨ (endBuf conf).special = true := by
    unfold endBuf
    split
    · exact .inr rfl
    · rename_i given
      simp only [NgxString.empty, Bool.or_eq_true, beq_iff_eq, not_or] at given
      refine .inl ?_
      simpa [footerBuf, NgxBufT.size, NgxBufT.inMemory] using given.2
  have carried : (endBuf conf).bytes ⟨(parts.foldl stores w.bytes).ram, disk⟩ =
      footerBytes w.bytes.ram conf.footer := by
    rw [endBuf_bytes]
    unfold footerBytes
    rw [bytes_stores footer]
  have filtered := respond_wellFormed_iff (filters_take conf sh rc) (filters_append conf sh rc)
    ready placed (by omega : total < 2 ^ 63) disk (ended_last conf) (endBuf_last conf) sized carried
  rw [List.append_nil, id] at plain
  rw [topFilters_registered, filtered, plain]
  refine and_congr_right fun starts => and_congr_left fun full => ?_
  -- the footer is counted in, as there are bytes before it
  have long := text_pos starts full w.bytes.ram
  rw [List.length_append]
  by_cases none : total = 0
  · subst none
    have nothing : counted conf ((0 : Nat) : Int) = 0 := by simp [counted]
    rw [nothing]
    omega
  · rw [counted_footer conf w.bytes.ram (Nat.pos_of_ne_zero none) fits]
    omega

/-- The same behind a header and a footer of two bytes, after a reload. -/
theorem filtered_well_formed_three :
    let parts : List ResponsePart := [.str ⟨2, 12⟩, .flush, .ref [44]]
    let conf : NdgFilterConf := ⟨some [⟨⟨1, 8⟩, ⟨1, 9⟩⟩], ⟨2, 10⟩⟩
    (∃ w', respond (topFilters conf (FilterGlobals.configure
          ⟨⟨.of (), fun _ => some .base⟩, ⟨.base, fun _ => none⟩⟩ [registered]) 0) 3 parts
          (getRequest ngxNullString) = .ok 0 w' ∧
        WellFormed ⟨w'.bytes.ram, fun _ _ => 0⟩ w'.filter [⟨1, ⟨1, 8⟩, ⟨1, 9⟩⟩]
          ([97, 97, 44] ++ [97, 97])) ↔
      ∃ w', respond (recorders 0) 3 parts (getRequest ngxNullString) = .ok 0 w' ∧
        WellFormed ⟨w'.bytes.ram, fun _ _ => 0⟩ w'.filter [] [97, 97, 44] :=
  filtered_well_formed_iff getRequest_ready (by simp [Placed, NgxStr.Placed, getRequest])
    ⟨some [⟨⟨1, 8⟩, ⟨1, 9⟩⟩], ⟨2, 10⟩⟩ (by simp [NgxStr.Placed, getRequest]) (by decide) _
    (fun _ _ => 0) 0

end ResponsePart

end NgxCpp
