import NgxCpp.Foundation.Sim
import NgxCpp.NdgFooterRun
import Mathlib.Data.List.Find

/-! `NdgFilterHandler` refines the legacy `NdgFooterHandler`. The legacy filter also sets
the bounds of its buffer's memory, which no reader of a chain looks at, so the two are
compared without them. They take different buffers for the end of a body, and these are
the same ones in a chain whose last buffers all end the response. -/

namespace NgxCpp
open Foundation

def NgxBufT.core (b : NgxBufT) : NgxBufT := { b with start := 0, past := 0 }

/-- What a buffer says to the reader of a chain: its bytes and its end markers. -/
def NgxBufT.reading (c : Contents) (b : NgxBufT) : List UInt8 × Bool × Bool :=
  (b.bytes c, b.lastBuf, b.lastInChain)

theorem NgxBufT.size_core (b : NgxBufT) : b.core.size = b.size := rfl

theorem NgxBufT.reading_core (c : Contents) (b : NgxBufT) : b.core.reading c = b.reading c := rfl

def ChainMem.core (m : ChainMem) : ChainMem := { m with bufs := m.bufs.map NgxBufT.core }

theorem ChainMem.collect_core (m : ChainMem) (fuel : Nat) (head : Option Nat) :
    (m.core.collect fuel head).map (List.map LinkView.value) =
      (m.collect fuel head).map (List.map fun v => v.value.core) := by
  induction fuel generalizing head with
  | zero => cases head <;> rfl
  | succ fuel ih =>
    cases head with
    | none => rfl
    | some p =>
      have links : m.core.links = m.links := rfl
      simp only [collect, links]
      cases m.links.read p with
      | none => rfl
      | some link =>
        have bufs : m.core.bufs.read link.buf = (m.bufs.read link.buf).map NgxBufT.core :=
          Heap.read_map _
        have later := ih link.next
        simp only [Option.bind_eq_bind, Option.bind_some, bufs]
        cases m.bufs.read link.buf with
        | none => rfl
        | some value =>
          simp only [Option.map_some, Option.bind_some]
          cases one : m.core.collect fuel link.next <;> cases two : m.collect fuel link.next <;>
            simp_all

theorem ChainMem.shown_core (m : ChainMem) (head : Option Nat) :
    m.core.shown head = (m.shown head).map (List.map NgxBufT.core) := by
  rw [shown, shown, ChainMem.collect_core, Option.map_map]
  congr 1
  funext views
  simp

namespace NextCall

def core : NextCall → NextCall
  | header len headers => header len headers
  | body input bufs => body input (bufs.map (List.map NgxBufT.core))

/-- What the next filter reads in a call: the headers it is called with, or the buffers. -/
def reading (c : Contents) : NextCall →
    (Int × Option (List NgxTableElt)) ⊕ Option (List (List UInt8 × Bool × Bool))
  | header len headers => .inl (len, headers)
  | body _ bufs => .inr (bufs.map (List.map (NgxBufT.reading c)))

theorem reading_core (c : Contents) (call : NextCall) : call.core.reading c = call.reading c := by
  cases call with
  | header len headers => rfl
  | body input bufs =>
    cases bufs with
    | none => rfl
    | some bs => simp [core, reading, NgxBufT.reading_core]

end NextCall

namespace FilterWorld

def core (w : FilterWorld) : FilterWorld :=
  { w with chains := w.chains.core, log := w.log.map NextCall.core }

/-- Both filters left the same flag, length and headers, and the next filters read the
same in each of their calls. -/
structure Agree (w w' : FilterWorld) : Prop where
  ctx : w.ctx = w'.ctx
  contentLength : w.contentLength = w'.contentLength
  headers : w.headers.shown w.headersOut = w'.headers.shown w'.headersOut
  calls : ∀ c, w.log.map (NextCall.reading c) = w'.log.map (NextCall.reading c)

theorem Agree.of_core {w w' : FilterWorld} (same : w.core = w'.core) : Agree w w' := by
  have fields := same
  simp only [core, FilterWorld.mk.injEq] at fields
  obtain ⟨ctx, len, out, headers, -, log⟩ := fields
  refine ⟨ctx, len, by rw [headers, out], fun c => ?_⟩
  have read := congrArg (List.map (NextCall.reading c)) log
  simpa [Function.comp_def, NextCall.reading_core] using read

end FilterWorld

/-- The memories hold the same chains, up to the bounds of buffers. -/
def ChainMem.Alike (m m' : ChainMem) : Prop := m.core = m'.core

def FilterWorld.Alike (w w' : FilterWorld) : Prop := w.core = w'.core

namespace ChainMem.Alike

variable {m m' : ChainMem}

theorem links (alike : m.Alike m') : m.links = m'.links :=
  (congrArg ChainMem.links (show m.core = m'.core from alike) :)

theorem grants (alike : m.Alike m') : m.grants = m'.grants :=
  (congrArg ChainMem.grants (show m.core = m'.core from alike) :)

theorem bufs (alike : m.Alike m') : m.bufs.map NgxBufT.core = m'.bufs.map NgxBufT.core :=
  (congrArg ChainMem.bufs (show m.core = m'.core from alike) :)

theorem size (alike : m.Alike m') : m.bufs.size = m'.bufs.size := by
  rw [← Heap.size_map NgxBufT.core, alike.bufs, Heap.size_map]

theorem of (links : m.links = m'.links)
    (bufs : m.bufs.map NgxBufT.core = m'.bufs.map NgxBufT.core) (grants : m.grants = m'.grants) :
    m.Alike m' := by
  simp [Alike, core, links, bufs, grants]

theorem shown (alike : m.Alike m') (head : Option Nat) :
    (m.shown head).map (List.map NgxBufT.core) = (m'.shown head).map (List.map NgxBufT.core) := by
  rw [← ChainMem.shown_core, ← ChainMem.shown_core, alike]

end ChainMem.Alike

section Chains

open Exec (Sim)

theorem sim_chainPalloc : Sim ChainMem.Alike (· = ·) chainPalloc chainPalloc := by
  intro m m' alike
  rw [chainPalloc_eq, chainPalloc_eq, alike.grants]
  exact .ok rfl (.of alike.links alike.bufs rfl)

theorem sim_buffer : Sim ChainMem.Alike (· = ·) NgxPool.buffer NgxPool.buffer := by
  refine .bind_eq sim_chainPalloc fun granted => .ite (fun m m' alike => ?_) (.raise _)
  refine .ok alike.size (.of alike.links ?_ alike.grants)
  rw [Heap.map_alloc, Heap.map_alloc, alike.bufs]

theorem sim_chain (b : Nat) : Sim ChainMem.Alike (· = ·) (NgxPool.chain b) (NgxPool.chain b) := by
  refine .bind_eq sim_chainPalloc fun granted => .ite (fun m m' alike => ?_) (.raise _)
  refine .ok (congrArg Heap.size alike.links) (.of ?_ alike.bufs alike.grants)
  rw [alike.links]

theorem sim_readLink (p : Nat) : Sim ChainMem.Alike (· = ·) (readLink p) (readLink p) :=
  .deref (f := id) (g := id) fun m m' alike => by rw [alike.links]

theorem sim_readBuf (b : Nat) :
    Sim ChainMem.Alike (fun buf buf' => buf.core = buf'.core) (readBuf b) (readBuf b) := by
  refine .deref fun m m' alike => ?_
  rw [← Heap.read_map, ← Heap.read_map, alike.bufs]

theorem sim_setLink (p : Nat) (link : NgxChainT) :
    Sim ChainMem.Alike (· = ·) (setLink p link) (setLink p link) :=
  .modify fun m m' alike => .of (by rw [alike.links]) alike.bufs alike.grants

theorem sim_setBuf (b : Nat) {buf buf' : NgxBufT} (same : buf.core = buf'.core) :
    Sim ChainMem.Alike (· = ·) (setBuf b buf) (setBuf b buf') := by
  refine .modify fun m m' alike => .of alike.links ?_ alike.grants
  rw [Heap.map_write, Heap.map_write, alike.bufs, same]

theorem sim_findMark {mark : NgxBufT → Bool} (plain : ∀ b, mark b.core = mark b) (fuel : Nat)
    (head : Option Nat) :
    Sim ChainMem.Alike (· = ·) (findMark mark fuel head) (findMark mark fuel head) := by
  induction fuel generalizing head with
  | zero =>
    cases head with
    | none => exact .pure rfl
    | some p => exact .exhausted
  | succ fuel ih =>
    cases head with
    | none => exact .pure rfl
    | some p =>
      refine .bind_eq (sim_readLink p) fun link => .bind (sim_readBuf _) fun buf buf' same => ?_
      rw [← plain buf, same, plain buf']
      exact .ite (.pure rfl) (ih link.next)

theorem sim_attach {f f' : NgxBufT} (made : f.core = f'.core) (p : Nat) :
    Sim ChainMem.Alike (· = ·) (FooterKind.attach f p) (FooterKind.attach f' p) := by
  refine .bind_eq sim_buffer fun b => .bind_eq (sim_setBuf b made) fun _ => ?_
  refine .bind_eq (sim_readLink p) fun link => .bind (sim_readBuf _) fun buf buf' same => ?_
  rw [← NgxBufT.size_core buf, same, NgxBufT.size_core buf']
  refine .ite (sim_setLink p _) (.bind_eq (sim_chain b) fun n => ?_)
  refine .bind_eq (sim_setLink p _) fun _ => sim_setBuf _ ?_
  have fields := same
  simp only [NgxBufT.core, NgxBufT.mk.injEq] at fields ⊢
  simp [fields]

end Chains

namespace FilterWorld.Alike

variable {w w' : FilterWorld}

theorem chains (alike : w.Alike w') : w.chains.Alike w'.chains :=
  (congrArg FilterWorld.chains (show w.core = w'.core from alike) :)

theorem ctx (alike : w.Alike w') : w.ctx = w'.ctx :=
  (congrArg FilterWorld.ctx (show w.core = w'.core from alike) :)

theorem contentLength (alike : w.Alike w') : w.contentLength = w'.contentLength :=
  (congrArg FilterWorld.contentLength (show w.core = w'.core from alike) :)

theorem headersOut (alike : w.Alike w') : w.headersOut = w'.headersOut :=
  (congrArg FilterWorld.headersOut (show w.core = w'.core from alike) :)

theorem headers (alike : w.Alike w') : w.headers = w'.headers :=
  (congrArg FilterWorld.headers (show w.core = w'.core from alike) :)

theorem log (alike : w.Alike w') : w.log.map NextCall.core = w'.log.map NextCall.core :=
  (congrArg FilterWorld.log (show w.core = w'.core from alike) :)

theorem of (ctx : w.ctx = w'.ctx) (contentLength : w.contentLength = w'.contentLength)
    (headersOut : w.headersOut = w'.headersOut) (headers : w.headers = w'.headers)
    (chains : w.chains.Alike w'.chains)
    (log : w.log.map NextCall.core = w'.log.map NextCall.core) : w.Alike w' := by
  have same : w.chains.core = w'.chains.core := chains
  simp [Alike, core, ctx, contentLength, headersOut, headers, same, log]

theorem logged (alike : w.Alike w') {call call' : NextCall} (same : call.core = call'.core) :
    Alike { w with log := w.log ++ [call] } { w' with log := w'.log ++ [call'] } := by
  refine of alike.ctx alike.contentLength alike.headersOut alike.headers alike.chains ?_
  simp [alike.log, same]

end FilterWorld.Alike

section Filters

open Exec (Sim)
open NdgFilterHandler (flag setFlag setLength onHeaders onChains addHeader doHeaderFilter
  headerFilter nextHeader nextBody)

variable {conf : NdgFilterConf}

theorem sim_onChains {α : Type} {x y : Ngx ChainMem α} (inner : Sim ChainMem.Alike (· = ·) x y) :
    Sim FilterWorld.Alike (· = ·) (onChains x) (onChains y) :=
  .zoom inner (fun _ _ alike => alike.chains) fun _ _ _ _ alike inside =>
    .of alike.ctx alike.contentLength alike.headersOut alike.headers inside alike.log

theorem sim_onHeaders {α : Type} (x : Ngx (ListMem NgxTableElt) α) :
    Sim FilterWorld.Alike (· = ·) (onHeaders x) (onHeaders x) :=
  .zoom (.refl x) (fun _ _ alike => alike.headers) fun _ _ _ _ alike inside =>
    .of alike.ctx alike.contentLength alike.headersOut inside alike.chains alike.log

theorem sim_setFlag (i : Int) : Sim FilterWorld.Alike (· = ·) (setFlag i) (setFlag i) :=
  .modify fun _ _ alike =>
    .of rfl alike.contentLength alike.headersOut alike.headers alike.chains alike.log

theorem sim_flag : Sim FilterWorld.Alike (· = ·) flag flag := by
  intro w w' alike
  unfold flag
  rw [← alike.ctx]
  cases w.ctx with
  | some i => exact .ok rfl alike
  | none =>
    refine Sim.bind_eq (sim_onChains sim_chainPalloc) (fun granted => .ite ?_ (.raise _)) w w' alike
    exact .bind_eq (sim_setFlag 0) fun _ => .pure rfl

theorem sim_addHeader (i : Nat) :
    Sim FilterWorld.Alike (· = ·) (addHeader conf i) (addHeader conf i) := by
  refine .bind_eq ?_ fun header => .bind_eq (.gets fun _ _ alike => alike.headersOut) fun out =>
    sim_onHeaders _
  unfold NgxKvArray.get
  split
  · exact .pure rfl
  · exact .raise _

theorem sim_doHeaderFilter :
    Sim FilterWorld.Alike (· = ·) (doHeaderFilter conf) (doHeaderFilter conf) := by
  refine .bind_eq sim_flag fun i => .ite (.pure rfl) (.bind_eq (sim_setFlag 1) fun _ => ?_)
  refine .bind_eq (.each fun i _ => sim_addHeader i) fun _ => .ite (.pure rfl) ?_
  refine .bind_eq (.gets fun _ _ alike => alike.contentLength) fun len => .ite ?_ (.pure rfl)
  exact .modify fun _ _ alike =>
    .of alike.ctx rfl alike.headersOut alike.headers alike.chains alike.log

theorem sim_headerFilter (rc : Int) : Sim FilterWorld.Alike (· = ·)
    (headerFilter conf (nextHeader rc)) (headerFilter conf (nextHeader rc)) := by
  refine .catching (.bind_eq sim_doHeaderFilter fun _ => .bind_eq (.modify ?_) fun _ => .pure rfl)
    fun e => .pure rfl
  intro w w' alike
  refine alike.logged ?_
  rw [alike.contentLength, alike.headers, alike.headersOut]

/-- Filters that take the same buffer for the end of a body and make the same buffer, up
to its bounds. -/
theorem sim_doBodyFilter (kind kind' : FooterKind) (mark : kind.mark = kind'.mark)
    (plain : ∀ b, kind.mark b.core = kind.mark b)
    (made : (kind.made conf).core = (kind'.made conf).core) (input : Option Nat) :
    Sim FilterWorld.Alike (· = ·) (kind.doBodyFilter conf input)
      (kind'.doBodyFilter conf input) := by
  refine .ite (.pure rfl) (.bind_eq sim_flag fun i => .ite (.pure rfl) ?_)
  refine .bind_eq (.gets fun _ _ alike => congrArg Heap.size alike.chains.links) fun fuel => ?_
  rw [← mark]
  refine .bind_eq (sim_onChains (sim_findMark plain fuel input)) fun p => ?_
  cases p with
  | none => exact .pure rfl
  | some p => exact .bind_eq (sim_setFlag 2) fun _ => sim_onChains (sim_attach made p)

end Filters

namespace FooterKind

open NdgFilterHandler (flag onChains nextBody)

def mixed : FooterKind := ⟨NgxBufT.lastBuf, footer.made⟩

theorem made_core (conf : NdgFilterConf) : (filter.made conf).core = (mixed.made conf).core := rfl

theorem doBodyFilter_marked {conf : NdgFilterConf} {input : Option Nat} {w : FilterWorld}
    {bs : List NgxBufT} (shown : w.chains.shown input = some bs)
    (marked : ∀ b ∈ bs, b.lastInChain = true → b.lastBuf = true) :
    footer.doBodyFilter conf input w = mixed.doBodyFilter conf input w := by
  unfold doBodyFilter
  by_cases empty : NgxString.empty conf.footer = true
  · rw [if_pos empty, if_pos empty]
  · rw [if_neg empty, if_neg empty]
    refine Exec.bind_congr fun i w1 flagged => ?_
    by_cases due : i = 1
    · subst due
      obtain ⟨views, chained, rfl⟩ :=
        Chained.of_shown (((flag_cases flagged).2 input).trans shown)
      have tests : ∀ v ∈ views, NgxBuf.last v.value = v.value.lastBuf := by
        intro v member
        have ends := marked v.value (List.mem_map_of_mem member)
        cases one : v.value.lastBuf <;> cases two : v.value.lastInChain <;>
          simp_all [NgxBuf.last]
      have find : (views.find? fun v => NgxBuf.last v.value) =
          views.find? fun v => v.value.lastBuf := List.find?_congr tests
      have found : findMark NgxBuf.last w1.chains.links.size input w1.chains =
          findMark NgxBufT.lastBuf w1.chains.links.size input w1.chains := by
        rw [findMark_eq chained chained.length_le, findMark_eq chained chained.length_le, find]
      rw [if_neg (by simp), if_neg (by simp), Exec.bind_ok _ (Exec.gets_apply _ _),
        Exec.bind_ok _ (Exec.gets_apply _ _)]
      have same : onChains (findMark NgxBuf.last w1.chains.links.size input) w1 =
          onChains (findMark NgxBufT.lastBuf w1.chains.links.size input) w1 := by
        unfold NdgFilterHandler.onChains Exec.zoom
        rw [found]
      exact Exec.bind_congr_left _ same
    · rw [if_pos due, if_pos due]

theorem sim_mixed (conf : NdgFilterConf) (c : FilterCall) : Exec.Sim FilterWorld.Alike (· = ·)
    (c.run (filter.filters conf)) (c.run (mixed.filters conf)) := by
  cases c with
  | header rc => exact .bind_eq (sim_headerFilter rc) fun _ => .pure rfl
  | body call =>
    refine .bind_eq (.modify fun w w' alike => ?_) fun _ => .bind_eq (.catching ?_ ?_) fun _ =>
      .pure rfl
    · exact .of alike.ctx alike.contentLength alike.headersOut alike.headers rfl alike.log
    · refine .bind_eq (sim_doBodyFilter filter mixed rfl (fun _ => rfl) (made_core conf) _)
        fun _ => ?_
      refine .bind_eq (.modify fun w w' alike => alike.logged ?_) fun _ => .pure rfl
      simp only [NextCall.core]
      rw [alike.chains.shown]
    · exact fun e => .pure rfl

end FooterKind

def FilterCall.Marked (c : FilterCall) : Prop :=
  ∃ bs, c.Shows bs ∧ ∀ b ∈ bs, b.lastInChain = true → b.lastBuf = true

namespace FooterKind

theorem run_marked {c : FilterCall} (marked : c.Marked) (conf : NdgFilterConf) (w : FilterWorld) :
    c.run (footer.filters conf) w = c.run (mixed.filters conf) w := by
  cases c with
  | header rc => rfl
  | body call =>
    obtain ⟨bs, shown, ends⟩ := marked
    refine Exec.bind_congr fun _ w1 called => ?_
    obtain ⟨-, rfl⟩ := Outcome.ok.inj called
    refine Exec.bind_congr_left _ (Exec.catching_congr _ (Exec.bind_congr_left _ ?_))
    exact doBodyFilter_marked shown ends

/-- Over every run on chains whose last buffers all end the response, both filters end in
the same way, with the same flag and headers, and the next filters read the same. -/
theorem filter_refines_footer (conf : NdgFilterConf) (w : FilterWorld) {calls : List FilterCall}
    (marked : ∀ c ∈ calls, c.Marked) : Outcome.Rel FilterWorld.Agree (· = ·)
      (Exec.each (FilterCall.run (NdgFilterHandler.filters conf)) calls w)
      (Exec.each (FilterCall.run (NdgFooterHandler.filters conf)) calls w) := by
  rw [filter_filters, footer_filters]
  have step : ∀ c ∈ calls, Exec.Sim FilterWorld.Alike (· = ·)
      (c.run (filter.filters conf)) (c.run (footer.filters conf)) := by
    intro c member w1 w2 alike
    rw [run_marked (marked c member)]
    exact sim_mixed conf c w1 w2 alike
  exact (Exec.Sim.each step w w rfl).imp fun _ _ alike => .of_core alike

private def halfFooter : NdgFilterConf := ⟨some [⟨⟨1, 30⟩, ⟨1, 31⟩⟩], ⟨2, 10⟩⟩

private def freshRequest : FilterWorld where
  contentLength := 2
  headersOut := 0
  headers := { lists := ⟨[⟨0, 0, 2⟩]⟩, parts := ⟨[⟨some 0, 0, none⟩]⟩, arrays := ⟨[[none, none]]⟩ }

private def lastCall : FilterCall :=
  .body ⟨{ links := ⟨[⟨0, none⟩]⟩
           bufs := ⟨[{ last := 2, memory := true, lastBuf := true, lastInChain := true }]⟩ },
    some 0, 0⟩

theorem filter_refines_footer_once : Outcome.Rel FilterWorld.Agree (· = ·)
    (Exec.each (FilterCall.run (NdgFilterHandler.filters halfFooter)) [.header 0, lastCall]
      freshRequest)
    (Exec.each (FilterCall.run (NdgFooterHandler.filters halfFooter)) [.header 0, lastCall]
      freshRequest) := by
  have marked : ∀ c ∈ [.header 0, lastCall], c.Marked := by
    simp only [List.forall_mem_cons]
    exact ⟨⟨[], rfl, by simp⟩, ⟨[_], rfl, by simp⟩, by simp⟩
  exact filter_refines_footer halfFooter freshRequest marked

end FooterKind

end NgxCpp
