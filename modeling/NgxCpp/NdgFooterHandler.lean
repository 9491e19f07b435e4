import NgxCpp.Foundation.Keeps
import NgxCpp.NdgFilterRun
import NgxCpp.NgxBuf

/-! The legacy `NdgFooterHandler`, and what it and `NdgFilterHandler` have in common. They
differ in the buffer they take for the end of a body and in the one they make. -/

namespace NgxCpp
open Foundation

abbrev NdgFooterConf := NdgFilterConf

namespace NdgFooterHandler

open NdgFilterHandler (flag setFlag onChains)

variable (conf : NdgFooterConf)

def doHeaderFilter : Ngx FilterWorld Unit := NdgFilterHandler.doHeaderFilter conf

def headerFilter (next : Ngx FilterWorld Int) : Ngx FilterWorld Int :=
  Exec.catching (do
    doHeaderFilter conf
    next) fun e => pure e.code

/-- The end of `do_body_filter`, from the allocation of the buffer on. -/
def attachFooter (p : Nat) : Ngx ChainMem Unit := do
  let b ← NgxPool.buffer
  NgxBuf.update b (NgxBuf.rangeStr conf.footer)
  NgxBuf.update b (NgxBuf.finish true)
  let link ← readLink p
  let buf ← readBuf link.buf
  if buf.size = 0 then setLink p { link with buf := b }
  else
    let n ← NgxPool.chain b
    setLink p { link with next := some n }
    NgxBuf.update link.buf (NgxBuf.finish false)

def doBodyFilter (input : Option Nat) : Ngx FilterWorld Unit := do
  if NgxString.empty conf.footer then pure ()
  else
    let flag ← flag
    if flag ≠ 1 then pure ()
    else
      let fuel ← Exec.gets fun w => w.chains.links.size
      let p ← onChains (findMark NgxBuf.last fuel input)
      match p with
      | none => pure ()
      | some p => do
        setFlag 2
        onChains (attachFooter conf p)

def bodyFilter (next : Option Nat → Ngx FilterWorld Int) (input : Option Nat) :
    Ngx FilterWorld Int :=
  Exec.catching (do
    doBodyFilter conf input
    next input) fun e => pure e.code

end NdgFooterHandler

/-- What the two filters differ in: the end of a body, and the footer's buffer. -/
structure FooterKind where
  mark : NgxBufT → Bool
  made : NdgFilterConf → NgxBufT

namespace FooterKind

open NdgFilterHandler (flag setFlag onChains)

def filter : FooterKind := ⟨NgxBufT.lastBuf, NdgFilterHandler.footerBuf⟩

def footer : FooterKind :=
  ⟨NgxBuf.last, fun conf => NgxBuf.finish true (NgxBuf.rangeStr conf.footer {})⟩

def attach (f : NgxBufT) (p : Nat) : Ngx ChainMem Unit := do
  let b ← NgxPool.buffer
  setBuf b f
  let link ← readLink p
  let buf ← readBuf link.buf
  if buf.size = 0 then setLink p { link with buf := b }
  else
    let out ← NgxPool.chain b
    setLink p { link with next := some out }
    setBuf link.buf { buf with lastBuf := false, lastInChain := false }

def doBodyFilter (kind : FooterKind) (conf : NdgFilterConf) (input : Option Nat) :
    Ngx FilterWorld Unit := do
  if NgxString.empty conf.footer then pure ()
  else
    let flag ← flag
    if flag ≠ 1 then pure ()
    else
      let fuel ← Exec.gets fun w => w.chains.links.size
      let p ← onChains (findMark kind.mark fuel input)
      match p with
      | none => pure ()
      | some p => do
        setFlag 2
        onChains (attach (kind.made conf) p)

theorem filter_body (conf : NdgFilterConf) :
    NdgFilterHandler.doBodyFilter conf = filter.doBodyFilter conf := by
  funext input
  unfold NdgFilterHandler.doBodyFilter doBodyFilter
  rw [NdgFilterHandler.findLastBuf_eq_findMark]
  rfl

section Attach

variable {m : ChainMem}

theorem attachFooter_eq (conf : NdgFilterConf) (p : Nat) :
    NdgFooterHandler.attachFooter conf p = attach (footer.made conf) p := by
  funext m
  rw [NdgFooterHandler.attachFooter, attach, Exec.bind_apply, Exec.bind_apply, buffer_eq]
  cases granted m.grants with
  | false => rfl
  | true =>
    let m1 : ChainMem := { m with bufs := m.bufs.alloc {}, grants := m.grants.tail }
    let m2 : ChainMem := { m1 with bufs := m.bufs.alloc (NgxBuf.rangeStr conf.footer {}) }
    let m3 : ChainMem := { m1 with bufs := m.bufs.alloc (footer.made conf) }
    have ranged : NgxBuf.update m.bufs.size (NgxBuf.rangeStr conf.footer) m1 = .ok () m2 := by
      rw [NgxBuf.update_ok (Heap.read_alloc_self (h := m.bufs))]
      simp [m1, m2, Heap.write_alloc]
    have finished : NgxBuf.update m.bufs.size (NgxBuf.finish true) m2 = .ok () m3 := by
      rw [NgxBuf.update_ok (Heap.read_alloc_self (h := m.bufs))]
      simp [m1, m2, m3, footer, Heap.write_alloc]
    have made : setBuf m.bufs.size (footer.made conf) m1 = .ok () m3 := by
      simp [setBuf, m1, m3, Heap.write_alloc]
    simp only [if_pos]
    rw [Exec.bind_ok _ ranged, Exec.bind_ok _ finished, Exec.bind_ok _ made]
    refine Exec.bind_congr fun link m4 _ => Exec.bind_congr fun buf m5 read => ?_
    obtain ⟨found, rfl⟩ := Exec.deref_eq_ok.mp read
    by_cases empty : buf.size = 0
    · rw [if_pos empty, if_pos empty]
    · rw [if_neg empty, if_neg empty]
      refine Exec.bind_congr fun n m6 linked => Exec.bind_congr fun _ m7 set => ?_
      have kept : m7.bufs.read link.buf = some buf := by
        obtain ⟨-, rfl⟩ := Outcome.ok.inj set
        rw [chain_eq] at linked
        cases yes : granted m4.grants with
        | false => simp [yes] at linked
        | true =>
          rw [yes, if_pos rfl] at linked
          obtain ⟨-, rfl⟩ := Outcome.ok.inj linked
          exact found
      rw [NgxBuf.update_ok kept]
      rfl

theorem footer_body (conf : NdgFilterConf) :
    NdgFooterHandler.doBodyFilter conf = footer.doBodyFilter conf := by
  funext input
  unfold NdgFooterHandler.doBodyFilter doBodyFilter
  simp only [attachFooter_eq]
  rfl

def attachedTail (f b : NgxBufT) (rest : List NgxBufT) : List NgxBufT :=
  if b.size = 0 then f :: rest else [{ b with lastBuf := false, lastInChain := false }, f]

theorem attach_shown {m' : ChainMem} {head : Option Nat} {front rest : List LinkView}
    {v : LinkView} {f : NgxBufT} (chained : Chained m head (front ++ v :: rest))
    (apart : ∀ w ∈ front, w.buf ≠ v.buf) (h : attach f v.addr m = .ok () m') :
    m'.shown head = some
      (front.map LinkView.value ++ attachedTail f v.value (rest.map LinkView.value)) := by
  obtain ⟨next, link, at_buf⟩ := chained.held v (by simp)
  have old : ∀ w ∈ front ++ rest, (m.bufs.alloc f).read w.buf = m.bufs.read w.buf := by
    intro w member
    obtain ⟨-, -, at_w⟩ := chained.held w (by
      rcases List.mem_append.mp member with inFront | late
      · simp [inFront]
      · simp [late])
    exact (Heap.read_alloc at_w).trans at_w.symm
  let m1 : ChainMem := { m with bufs := m.bufs.alloc f, grants := m.grants.tail }
  have made : setBuf m.bufs.size f { m with bufs := m.bufs.alloc {}, grants := m.grants.tail } =
      .ok () m1 := by
    simp [setBuf, m1, Heap.write_alloc]
  have at_p : readLink v.addr m1 = .ok ⟨v.buf, next⟩ m1 := readLink_ok link
  have at_b : readBuf v.buf m1 = .ok v.value m1 := readBuf_ok (Heap.read_alloc at_buf)
  rw [attach, Exec.bind_apply, buffer_eq] at h
  cases first : granted m.grants with
  | false => simp [first] at h
  | true =>
    rw [first, if_pos rfl] at h
    dsimp only at h
    rw [Exec.bind_ok _ made, Exec.bind_ok _ at_p, Exec.bind_ok _ at_b] at h
    unfold attachedTail
    by_cases empty : v.value.size = 0
    · rw [if_pos empty] at h ⊢
      obtain ⟨-, rfl⟩ := Outcome.ok.inj h
      have replaced : Chained
          { m1 with links := m.links.write v.addr ⟨m.bufs.size, next⟩ } head
          (front ++ ⟨v.addr, m.bufs.size, f⟩ :: rest) :=
        chained.replace_link link rfl old Heap.read_alloc_self
      refine replaced.shown.trans ?_
      rw [List.map_append, List.map_cons]
    · rw [if_neg empty] at h ⊢
      rw [Exec.bind_apply, chain_eq] at h
      cases second : granted m1.grants with
      | false => simp [second] at h
      | true =>
        rw [second, if_pos rfl] at h
        obtain ⟨-, rfl⟩ := Outcome.ok.inj h
        let m2 : ChainMem :=
          { links := (m.links.alloc ⟨m.bufs.size, none⟩).write v.addr ⟨v.buf, some m.links.size⟩
            bufs := (m.bufs.alloc f).write v.buf
              { v.value with lastBuf := false, lastInChain := false }
            grants := m1.grants.tail }
        have appended : Chained m2 head _ := chained.append_link rfl
          (fun w member => (Heap.read_write_ne (apart w member)).trans
            (old w (List.mem_append_left _ member)))
          (Heap.read_write_self (Heap.read_alloc at_buf))
          ((Heap.read_write_ne (Nat.ne_of_gt (Heap.read_lt at_buf))).trans Heap.read_alloc_self)
        refine appended.shown.trans ?_
        rw [List.map_append]
        rfl

end Attach

def handedOn (mark : NgxBufT → Bool) (f : NgxBufT) : List NgxBufT → List NgxBufT
  | [] => []
  | b :: rest => if mark b then attachedTail f b rest else b :: handedOn mark f rest

section Body

variable {mark : NgxBufT → Bool} {f : NgxBufT} {m : ChainMem} {head : Option Nat}
  {views : List LinkView}

theorem handedOn_split {front rest : List NgxBufT} {b : NgxBufT}
    (unset : ∀ x ∈ front, mark x = false) (marked : mark b = true) :
    handedOn mark f (front ++ b :: rest) = front ++ attachedTail f b rest := by
  induction front with
  | nil => exact if_pos marked
  | cons x front ih =>
    rw [List.cons_append, handedOn, if_neg (by simp [unset x]),
      ih fun y inside => unset y (by simp [inside]), List.cons_append]

theorem flag_cases {w w' : FilterWorld} {i : Int} (h : flag w = .ok i w') :
    (i ≠ 0 → w.ctx = some i) ∧ ∀ head, w'.chains.shown head = w.chains.shown head := by
  unfold flag at h
  cases ctx : w.ctx with
  | some j =>
    rw [ctx] at h
    obtain ⟨rfl, rfl⟩ := Outcome.ok.inj h
    exact ⟨fun _ => rfl, fun _ => rfl⟩
  | none =>
    rw [ctx] at h
    dsimp only at h
    obtain ⟨answer, w1, asked, h⟩ := Exec.bind_eq_ok.mp h
    obtain ⟨m, answered, rfl⟩ := Exec.zoom_eq_ok.mp asked
    cases answer with
    | false => simp [NgxException.raise] at h
    | true =>
      rw [if_pos rfl] at h
      obtain ⟨rfl, rfl⟩ := Outcome.ok.inj h
      refine ⟨fun other => absurd rfl other, fun head => ?_⟩
      rw [chainPalloc_eq] at answered
      obtain ⟨-, rfl⟩ := Outcome.ok.inj answered
      exact ChainMem.shown_grants _ _ head

theorem attach_handedOn {v : LinkView} {m' : ChainMem} (chained : Chained m head views)
    (found : views.find? (fun v => mark v.value) = some v) (h : attach f v.addr m = .ok () m') :
    m'.shown head = some (handedOn mark f (views.map LinkView.value)) := by
  obtain ⟨marked, front, rest, rfl, unset⟩ := List.find?_eq_some_iff_append.mp found
  have others : ∀ w ∈ front, mark w.value = false := fun w member => by simpa using unset w member
  have apart : ∀ w ∈ front, w.buf ≠ v.buf := by
    intro w member same
    obtain ⟨-, -, at_w⟩ := chained.held w (by simp [member])
    obtain ⟨-, -, at_v⟩ := chained.held v (by simp)
    rw [same, at_v] at at_w
    rw [Option.some.inj at_w, others w member] at marked
    simp at marked
  rw [attach_shown chained apart h, List.map_append, List.map_cons,
    handedOn_split (by simpa using others) marked]

theorem doBodyFilter_cases {kind : FooterKind} {conf : NdgFilterConf} {w w' : FilterWorld}
    {input : Option Nat} {bs : List NgxBufT} (shown : w.chains.shown input = some bs)
    (h : kind.doBodyFilter conf input w = .ok () w') :
    w'.chains.shown input = some bs ∨ NgxString.empty conf.footer = false ∧ w.ctx = some 1 ∧
      w'.chains.shown input = some (handedOn kind.mark (kind.made conf) bs) := by
  unfold doBodyFilter at h
  by_cases empty : NgxString.empty conf.footer = true
  · rw [if_pos empty] at h
    obtain ⟨-, rfl⟩ := Outcome.ok.inj h
    exact .inl shown
  · rw [if_neg empty] at h
    obtain ⟨i, w1, flagged, h⟩ := Exec.bind_eq_ok.mp h
    obtain ⟨ctx, chains⟩ := flag_cases flagged
    have shown1 : w1.chains.shown input = some bs := chains input ▸ shown
    by_cases due : i = 1
    · subst due
      obtain ⟨views, chained, rfl⟩ := Chained.of_shown shown1
      have found : onChains (findMark kind.mark w1.chains.links.size input) w1 =
          .ok ((views.find? fun v => kind.mark v.value).map LinkView.addr) w1 :=
        Exec.zoom_ok (findMark_eq chained chained.length_le)
      rw [if_neg (by simp), Exec.bind_ok _ (Exec.gets_apply _ _), Exec.bind_ok _ found] at h
      cases first : views.find? fun v => kind.mark v.value with
      | none =>
        rw [first] at h
        obtain ⟨-, rfl⟩ := Outcome.ok.inj h
        exact .inl shown1
      | some v =>
        rw [first] at h
        dsimp only [Option.map_some] at h
        rw [Exec.bind_ok _ (NdgFilterHandler.setFlag_ok 2 w1)] at h
        obtain ⟨m, attached, rfl⟩ := Exec.zoom_eq_ok.mp h
        exact .inr ⟨by simpa using empty, ctx (by simp), attach_handedOn chained first attached⟩
    · rw [if_pos due] at h
      obtain ⟨-, rfl⟩ := Outcome.ok.inj h
      exact .inl shown1

end Body

end FooterKind

end NgxCpp
