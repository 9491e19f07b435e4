import NgxCpp.NgxHeaders
import NgxCpp.NgxChain

/-! `NdgFilterHandler`: the header filter adds the configured headers and counts
the footer in, the body filter attaches the footer to the last buffer. One main
request is modelled; the next filters are parameters. The lowercase key that
`do_header_filter` leaves unset is not modelled. -/

namespace NgxCpp
open Foundation

structure NgxKeyVal where
  key : NgxStr
  value : NgxStr
deriving Repr, DecidableEq

structure NdgFilterConf where
  headers : Option (List NgxKeyVal)
  footer : NgxStr
deriving Repr, DecidableEq

namespace NgxKvArray

def size (arr : Option (List NgxKeyVal)) : Nat :=
  match arr with
  | some elts => elts.length
  | none => 0

/-- `operator[]`. -/
def get {σ : Type} (arr : Option (List NgxKeyVal)) (i : Nat) : Ngx σ NgxKeyVal :=
  match arr.bind fun elts => elts[i]? with
  | some kv => pure kv
  | none => NgxException.raise

end NgxKvArray

inductive NextCall where
  | header (contentLength : Int) (headers : Option (List NgxTableElt))
  | body (input : Option Nat) (bufs : Option (List NgxBufT))
deriving Repr, DecidableEq

/-- What the handler touches of a request: its module context with the flag,
`headers_out` and the memory of the chains. The log is of the next filters. -/
structure FilterWorld where
  ctx : Option Int := none
  contentLength : Int
  headersOut : Nat
  headers : ListMem NgxTableElt
  chains : ChainMem := {}
  log : List NextCall := []
deriving Repr, DecidableEq

namespace NdgFilterHandler

variable (conf : NdgFilterConf)

def onHeaders {α : Type} (x : Ngx (ListMem NgxTableElt) α) : Ngx FilterWorld α :=
  Exec.zoom FilterWorld.headers (fun headers w => { w with headers }) x

def onChains {α : Type} (x : Ngx ChainMem α) : Ngx FilterWorld α :=
  Exec.zoom FilterWorld.chains (fun chains w => { w with chains }) x

/-- `this_module::data`: the context is made at the first use. -/
def flag : Ngx FilterWorld Int := fun w =>
  match w.ctx with
  | some flag => .ok flag w
  | none => (do
      if ← onChains chainPalloc then
        Exec.modify fun w => { w with ctx := some 0 }
        pure 0
      else NgxException.raise) w

def setFlag (flag : Int) : Ngx FilterWorld Unit := Exec.modify fun w => { w with ctx := some flag }

/-- `NgxResponse::length` of an unsigned sum, as `off_t`. -/
def setLength (len : Int) : Ngx FilterWorld Unit :=
  Exec.modify fun w => { w with contentLength := len.bmod (2 ^ 64) }

def addHeader (i : Nat) : Ngx FilterWorld Unit := do
  let header ← NgxKvArray.get conf.headers i
  let headersOut ← Exec.gets FilterWorld.headersOut
  onHeaders (NgxHeaders.add headersOut ⟨1, header.key, header.value⟩)

def doHeaderFilter : Ngx FilterWorld Unit := do
  let flag ← flag
  if flag ≠ 0 then pure ()
  else
    setFlag 1
    Exec.each (addHeader conf) (List.range (NgxKvArray.size conf.headers))
    if NgxString.empty conf.footer then pure ()
    else
      let len ← Exec.gets FilterWorld.contentLength
      if 0 < len then setLength (len + conf.footer.len) else pure ()

def headerFilter (next : Ngx FilterWorld Int) : Ngx FilterWorld Int :=
  Exec.catching (do
    doHeaderFilter conf
    next) fun e => pure e.code

def findLastBuf : Nat → Option Nat → Ngx ChainMem (Option Nat)
  | _, none => pure none
  | 0, some _ => Exec.exhausted
  | fuel + 1, some p => do
    let link ← readLink p
    let buf ← readBuf link.buf
    if buf.lastBuf then pure (some p) else findLastBuf fuel link.next

def footerBuf : NgxBufT where
  pos := conf.footer.data
  last := conf.footer.data + conf.footer.len
  memory := true
  lastBuf := true
  lastInChain := true

/-- The end of `do_body_filter`, from the allocation of the buffer on. -/
def attachFooter (p : Nat) : Ngx ChainMem Unit := do
  let b ← NgxPool.buffer
  setBuf b (footerBuf conf)
  let link ← readLink p
  let buf ← readBuf link.buf
  if buf.size = 0 then setLink p { link with buf := b }
  else
    let out ← NgxPool.chain b
    setLink p { link with next := some out }
    setBuf link.buf { buf with lastBuf := false, lastInChain := false }

def doBodyFilter (input : Option Nat) : Ngx FilterWorld Unit := do
  if NgxString.empty conf.footer then pure ()
  else
    let flag ← flag
    if flag ≠ 1 then pure ()
    else
      let fuel ← Exec.gets fun w => w.chains.links.size
      let p ← onChains (findLastBuf fuel input)
      match p with
      | none => pure ()
      | some p => do
        setFlag 2
        onChains (attachFooter conf p)

def bodyFilter (next : Option Nat → Ngx FilterWorld Int) (input : Option Nat) :
    Ngx FilterWorld Int :=
  Exec.catching (do
    doBodyFilter conf input
    next input) fun e => pure e.code

section Body

variable {conf} {m : ChainMem} {head : Option Nat} {views : List LinkView} {v : LinkView}

theorem findLastBuf_eq_findMark : findLastBuf = findMark NgxBufT.lastBuf := by
  funext fuel
  induction fuel with
  | zero =>
    funext head
    cases head <;> rfl
  | succ fuel ih =>
    funext head
    cases head with
    | none => rfl
    | some p => simp only [findLastBuf, findMark, ih]

theorem findLastBuf_eq {fuel : Nat} (chained : Chained m head views)
    (enough : views.length ≤ fuel) : findLastBuf fuel head m =
      .ok ((views.find? fun v => v.value.lastBuf).map LinkView.addr) m := by
  rw [findLastBuf_eq_findMark]
  exact findMark_eq chained enough

/-- What becomes of the last buffer: the footer replaces it or follows it. -/
def attached (conf : NdgFilterConf) (b : NgxBufT) : List NgxBufT :=
  if b.size = 0 then [footerBuf conf]
  else [{ b with lastBuf := false, lastInChain := false }, footerBuf conf]

variable (conf) in
def footerMade (m : ChainMem) : ChainMem :=
  { m with bufs := m.bufs.alloc (footerBuf conf), grants := m.grants.tail }

variable (conf) in
def footerLinked (m : ChainMem) (p b : Nat) (buf : NgxBufT) : ChainMem where
  links := (m.links.alloc ⟨m.bufs.size, none⟩).write p ⟨b, some m.links.size⟩
  bufs := (footerMade conf m).bufs.write b { buf with lastBuf := false, lastInChain := false }
  grants := m.grants.tail.tail

variable (conf) in
theorem attachFooter_outcome {p b : Nat} {buf : NgxBufT} {next : Option Nat}
    (link : m.links.read p = some ⟨b, next⟩) (stored : m.bufs.read b = some buf) :
    attachFooter conf p m =
      if granted m.grants then
        if buf.size = 0 then
          .ok () { footerMade conf m with links := m.links.write p ⟨m.bufs.size, next⟩ }
        else if granted m.grants.tail then .ok () (footerLinked conf m p b buf)
        else .raised ⟨ngxError⟩ { footerMade conf m with grants := m.grants.tail.tail }
      else .raised ⟨ngxError⟩ { m with grants := m.grants.tail } := by
  have set : setBuf m.bufs.size (footerBuf conf)
      { m with bufs := m.bufs.alloc {}, grants := m.grants.tail } = .ok () (footerMade conf m) := by
    simp [setBuf, footerMade, Heap.write_alloc]
  have at_p : readLink p (footerMade conf m) = .ok ⟨b, next⟩ (footerMade conf m) :=
    readLink_ok link
  have at_b : readBuf b (footerMade conf m) = .ok buf (footerMade conf m) :=
    readBuf_ok (Heap.read_alloc stored)
  have made := buffer_eq m
  cases refused : granted m.grants with
  | false =>
    rw [refused] at made
    exact Exec.bind_raised _ made
  | true =>
    rw [refused, if_pos rfl] at made
    rw [if_pos rfl, attachFooter, Exec.bind_ok _ made, Exec.bind_ok _ set, Exec.bind_ok _ at_p,
      Exec.bind_ok _ at_b]
    by_cases empty : buf.size = 0
    · rw [if_pos empty, if_pos empty]
      rfl
    · have linked := chain_eq m.bufs.size (footerMade conf m)
      rw [if_neg empty, if_neg empty]
      cases refused' : granted m.grants.tail with
      | false =>
        rw [show granted (footerMade conf m).grants = false from refused'] at linked
        exact Exec.bind_raised _ linked
      | true =>
        rw [show granted (footerMade conf m).grants = true from refused', if_pos rfl] at linked
        rw [if_pos rfl, Exec.bind_ok _ linked]
        rfl

theorem attachFooter_apply {p b : Nat} {buf : NgxBufT} (generous : m.Generous)
    (link : m.links.read p = some ⟨b, none⟩) (stored : m.bufs.read b = some buf) :
    attachFooter conf p m = .ok () (if buf.size = 0 then
      { footerMade conf m with links := m.links.write p ⟨m.bufs.size, none⟩ }
      else footerLinked conf m p b buf) := by
  rw [attachFooter_outcome conf link stored, if_pos generous.granted]
  split
  · rfl
  · rw [if_pos generous.tail.granted]

variable (conf) in
theorem attachFooter_eq (chained : Chained m head (views ++ [v])) (generous : m.Generous)
    (last : v.value.lastBuf = true) (others : ∀ w ∈ views, w.value.lastBuf = false) :
    ∃ m', attachFooter conf v.addr m = .ok () m' ∧
      m'.shown head = some (views.map LinkView.value ++ attached conf v.value) := by
  obtain ⟨-, -, at_buf⟩ := chained.held v (by simp)
  have new : (footerMade conf m).bufs.read m.bufs.size = some (footerBuf conf) :=
    Heap.read_alloc_self
  have old : ∀ w ∈ views, (footerMade conf m).bufs.read w.buf = m.bufs.read w.buf := by
    intro w member
    obtain ⟨-, -, at_w⟩ := chained.held w (by simp [member])
    exact (Heap.read_alloc at_w).trans at_w.symm
  refine ⟨_, attachFooter_apply generous chained.last_link at_buf, ?_⟩
  by_cases empty : v.value.size = 0
  · have replaced : Chained
        { footerMade conf m with links := m.links.write v.addr ⟨m.bufs.size, none⟩ } head
        (views ++ [⟨v.addr, m.bufs.size, footerBuf conf⟩]) :=
      chained.replace_link chained.last_link rfl (by simpa using old) new
    rw [if_pos empty, replaced.shown]
    simp [attached, empty]
  · have apart : ∀ w ∈ views, w.buf ≠ v.buf := by
      intro w member same
      obtain ⟨-, -, at_w⟩ := chained.held w (by simp [member])
      rw [same, at_buf] at at_w
      rw [Option.some.inj at_w, others w member] at last
      simp at last
    have linked : Chained (footerLinked conf m v.addr v.buf v.value) head _ :=
      chained.append_link rfl
        (fun w member => (Heap.read_write_ne (apart w member)).trans (old w member))
        (Heap.read_write_self (Heap.read_alloc at_buf))
        ((Heap.read_write_ne (Nat.ne_of_gt (Heap.read_lt at_buf))).trans new)
    rw [if_neg empty, linked.shown]
    simp [attached, empty]

end Body

end NdgFilterHandler

end NgxCpp
