import NgxCpp.Exception
import NgxCpp.NgxString
import NgxCpp.Foundation.Heap
import NgxCpp.Foundation.Linked

/-! Buffers and chains. A chain pointer denotes the buffers of its links, read in
order; a dangling or cyclic chain denotes nothing. -/

namespace NgxCpp
open Foundation

/-- `ngx_buf_t`, without its tag, its shadow and what the library never reads. -/
structure NgxBufT where
  pos : Nat := 0
  last : Nat := 0
  start : Nat := 0
  past : Nat := 0
  file : Nat := 0
  filePos : Nat := 0
  fileLast : Nat := 0
  temporary : Bool := false
  memory : Bool := false
  mmap : Bool := false
  inFile : Bool := false
  flush : Bool := false
  sync : Bool := false
  lastBuf : Bool := false
  lastInChain : Bool := false
deriving Repr, DecidableEq

structure Contents where
  ram : Ram
  disk : Nat → Ram

namespace NgxBufT

def inMemory (b : NgxBufT) : Bool := b.temporary || b.memory || b.mmap

def size (b : NgxBufT) : Int :=
  if b.inMemory then (b.last : Int) - b.pos else (b.fileLast : Int) - b.filePos

def bytes (c : Contents) (b : NgxBufT) : List UInt8 :=
  if b.inMemory then c.ram.span b.pos b.last else (c.disk b.file).span b.filePos b.fileLast

theorem bytes_eq_nil {c : Contents} {b : NgxBufT} (empty : b.size = 0) : b.bytes c = [] := by
  unfold size at empty
  unfold bytes Ram.span
  split at empty <;> simp [*] <;> omega

end NgxBufT

structure NgxChainT where
  buf : Nat
  next : Option Nat
deriving Repr, DecidableEq

structure ChainMem where
  links : Heap NgxChainT := {}
  bufs : Heap NgxBufT := {}
  grants : List Bool := []
deriving Repr, DecidableEq

structure LinkView where
  addr : Nat
  buf : Nat
  value : NgxBufT
deriving Repr, DecidableEq

namespace ChainMem

def Generous (m : ChainMem) : Prop := ∀ granted ∈ m.grants, granted = true

def nextLink (m : ChainMem) (p : Nat) : Option (Option Nat) := (m.links.read p).map NgxChainT.next

/-- The links from `head` on, when null comes within the fuel. -/
def collect (m : ChainMem) : Nat → Option Nat → Option (List LinkView)
  | _, none => some []
  | 0, some _ => none
  | fuel + 1, some p => do
    let link ← m.links.read p
    let value ← m.bufs.read link.buf
    let rest ← m.collect fuel link.next
    some (⟨p, link.buf, value⟩ :: rest)

def shown (m : ChainMem) (head : Option Nat) : Option (List NgxBufT) :=
  (m.collect m.links.size head).map (List.map LinkView.value)

theorem collect_grants (m : ChainMem) (grants : List Bool) (fuel : Nat) (head : Option Nat) :
    ({ m with grants } : ChainMem).collect fuel head = m.collect fuel head := by
  induction fuel generalizing head with
  | zero => cases head <;> rfl
  | succ fuel ih =>
    cases head with
    | none => rfl
    | some p => simp only [collect, ih]

theorem shown_grants (m : ChainMem) (grants : List Bool) (head : Option Nat) :
    ({ m with grants } : ChainMem).shown head = m.shown head := by
  rw [shown, collect_grants, shown]

end ChainMem

def LinkView.Held (m : ChainMem) (v : LinkView) : Prop :=
  ∃ next, m.links.read v.addr = some ⟨v.buf, next⟩ ∧ m.bufs.read v.buf = some v.value

/-- The chain at `head` has these links. -/
structure Chained (m : ChainMem) (head : Option Nat) (views : List LinkView) : Prop where
  linked : Linked m.nextLink head (views.map LinkView.addr)
  held : ∀ v ∈ views, v.Held m

namespace Chained

variable {m : ChainMem} {head : Option Nat} {views : List LinkView}

theorem of_collect {fuel : Nat} (found : m.collect fuel head = some views) :
    Chained m head views := by
  induction fuel generalizing head views with
  | zero =>
    cases head with
    | none =>
      obtain rfl := Option.some.inj found
      exact ⟨.nil, by simp⟩
    | some p => simp [ChainMem.collect] at found
  | succ fuel ih =>
    cases head with
    | none =>
      obtain rfl := Option.some.inj found
      exact ⟨.nil, by simp⟩
    | some p =>
      simp only [ChainMem.collect, Option.bind_eq_bind, Option.bind_eq_some_iff] at found
      obtain ⟨link, at_p, value, at_buf, rest, tail, same⟩ := found
      obtain rfl := Option.some.inj same
      have later := ih tail
      refine ⟨.cons (by rw [ChainMem.nextLink, at_p]; rfl) later.linked, fun v member => ?_⟩
      rcases List.mem_cons.mp member with rfl | inside
      · exact ⟨link.next, at_p, at_buf⟩
      · exact later.held v inside

theorem uncons {v : LinkView} {rest : List LinkView} (chained : Chained m head (v :: rest)) :
    head = some v.addr ∧ ∃ next, m.links.read v.addr = some ⟨v.buf, next⟩ ∧
      m.bufs.read v.buf = some v.value ∧ Chained m next rest := by
  obtain ⟨next, at_v, at_buf⟩ := chained.held v (by simp)
  have linked := chained.linked
  rw [List.map_cons] at linked
  cases linked with
  | @cons _ q _ found later =>
    obtain rfl : next = q := by
      rw [ChainMem.nextLink, at_v] at found
      exact Option.some.inj found
    exact ⟨rfl, next, at_v, at_buf, later, fun w inside => chained.held w (by simp [inside])⟩

theorem collect {fuel : Nat} (chained : Chained m head views) (enough : views.length ≤ fuel) :
    m.collect fuel head = some views := by
  induction views generalizing head fuel with
  | nil =>
    cases chained.linked
    cases fuel <;> rfl
  | cons v rest ih =>
    obtain ⟨rfl, next, at_v, at_buf, later⟩ := chained.uncons
    cases fuel with
    | zero => simp at enough
    | succ fuel =>
      have tail := ih later (Nat.le_of_succ_le_succ enough)
      simp [ChainMem.collect, at_v, at_buf, tail]

theorem length_le (chained : Chained m head views) : views.length ≤ m.links.size := by
  have inside : views.map LinkView.addr ⊆ List.range m.links.size := by
    intro p member
    obtain ⟨v, isView, rfl⟩ := List.mem_map.mp member
    obtain ⟨next, at_v, -⟩ := chained.held v isView
    exact List.mem_range.mpr (Heap.read_lt at_v)
  simpa using (List.subperm_of_subset chained.linked.nodup inside).length_le

theorem shown (chained : Chained m head views) :
    m.shown head = some (views.map LinkView.value) := by
  rw [ChainMem.shown, chained.collect chained.length_le]
  rfl

theorem of_shown {bufs : List NgxBufT} (shown : m.shown head = some bufs) :
    ∃ views, Chained m head views ∧ views.map LinkView.value = bufs := by
  obtain ⟨views, found, rfl⟩ := Option.map_eq_some_iff.mp shown
  exact ⟨views, of_collect found, rfl⟩

variable {m' : ChainMem} {v : LinkView} {b : Nat} {value : NgxBufT}

theorem last_link (chained : Chained m head (views ++ [v])) :
    m.links.read v.addr = some ⟨v.buf, none⟩ := by
  obtain ⟨next, found, -⟩ := chained.held v (by simp)
  have linked := chained.linked
  rw [List.map_append] at linked
  have ends : m.nextLink v.addr = some none := linked.next_eq
  rw [ChainMem.nextLink, found] at ends
  obtain rfl := Option.some.inj ends
  exact found

variable {rest : List LinkView} {next : Option Nat}

theorem addr_ne (chained : Chained m head (views ++ v :: rest)) :
    (∀ w ∈ views, w.addr ≠ v.addr) ∧ ∀ w ∈ rest, w.addr ≠ v.addr := by
  have distinct := chained.linked.nodup
  rw [List.map_append, List.map_cons, List.nodup_append, List.nodup_cons] at distinct
  refine ⟨fun w member => distinct.2.2 _ (List.mem_map_of_mem member) _ (by simp),
    fun w member same => distinct.2.1.1 ?_⟩
  rw [← same]
  exact List.mem_map_of_mem member

theorem replace_link (chained : Chained m head (views ++ v :: rest))
    (found : m.links.read v.addr = some ⟨v.buf, next⟩)
    (links : m'.links = m.links.write v.addr ⟨b, next⟩)
    (bufs : ∀ w ∈ views ++ rest, m'.bufs.read w.buf = m.bufs.read w.buf)
    (new : m'.bufs.read b = some value) :
    Chained m' head (views ++ ⟨v.addr, b, value⟩ :: rest) := by
  have written : m'.links.read v.addr = some ⟨b, next⟩ := by
    rw [links]
    exact Heap.read_write_self found
  have kept : ∀ p, p ≠ v.addr → m'.links.read p = m.links.read p := by
    intro p other
    rw [links]
    exact Heap.read_write_ne other
  constructor
  · have addrs : (views ++ (⟨v.addr, b, value⟩ : LinkView) :: rest).map LinkView.addr =
        (views ++ v :: rest).map LinkView.addr := by simp
    rw [addrs]
    refine chained.linked.frame fun p _ => ?_
    by_cases same : p = v.addr
    · rw [same, ChainMem.nextLink, ChainMem.nextLink, written, found]
      rfl
    · rw [ChainMem.nextLink, ChainMem.nextLink, kept p same]
  · have stays : ∀ w ∈ views ++ rest, w.addr ≠ v.addr → w.Held m' := by
      intro w member other
      obtain ⟨next, at_w, at_buf⟩ := chained.held w (by
        rcases List.mem_append.mp member with inFront | late
        · simp [inFront]
        · simp [late])
      exact ⟨next, (kept _ other).trans at_w, (bufs w member).trans at_buf⟩
    intro w member
    rcases List.mem_append.mp member with inFront | later
    · exact stays w (List.mem_append_left _ inFront) (chained.addr_ne.1 w inFront)
    · rcases List.mem_cons.mp later with rfl | late
      · exact ⟨next, written, new⟩
      · exact stays w (List.mem_append_right _ late) (chained.addr_ne.2 w late)

theorem append_link {value' : NgxBufT} (chained : Chained m head (views ++ v :: rest))
    (links : m'.links =
      (m.links.alloc ⟨b, none⟩).write v.addr ⟨v.buf, some m.links.size⟩)
    (bufs : ∀ w ∈ views, m'.bufs.read w.buf = m.bufs.read w.buf)
    (last : m'.bufs.read v.buf = some value') (new : m'.bufs.read b = some value) :
    Chained m' head (views ++ [⟨v.addr, v.buf, value'⟩, ⟨m.links.size, b, value⟩]) := by
  obtain ⟨next, found, -⟩ := chained.held v (by simp)
  have written : m'.links.read v.addr = some ⟨v.buf, some m.links.size⟩ := by
    rw [links]
    exact Heap.read_write_self (Heap.read_alloc found)
  have made : m'.links.read m.links.size = some ⟨b, none⟩ := by
    rw [links]
    exact (Heap.read_write_ne (Nat.ne_of_gt (Heap.read_lt found))).trans Heap.read_alloc_self
  have kept : ∀ w ∈ views, m'.links.read w.addr = m.links.read w.addr := by
    intro w member
    obtain ⟨next, at_w, -⟩ := chained.held w (by simp [member])
    rw [links, Heap.read_write_ne (chained.addr_ne.1 w member), Heap.read_alloc at_w, at_w]
  constructor
  · have linked := chained.linked
    rw [List.map_append] at linked ⊢
    refine linked.append (.cons ?_ .nil) (fun p member => ?_) ?_
    · rw [ChainMem.nextLink, made]
      rfl
    · obtain ⟨w, inFront, rfl⟩ := List.mem_map.mp member
      rw [ChainMem.nextLink, ChainMem.nextLink, kept w inFront]
    · rw [ChainMem.nextLink, written]
      rfl
  · intro w member
    rcases List.mem_append.mp member with inFront | isEnd
    · obtain ⟨next, at_w, at_buf⟩ := chained.held w (by simp [inFront])
      exact ⟨next, (kept w inFront).trans at_w, (bufs w inFront).trans at_buf⟩
    · rcases List.mem_cons.mp isEnd with rfl | isNew
      · exact ⟨some m.links.size, written, last⟩
      · obtain rfl := List.mem_singleton.mp isNew
        exact ⟨none, made, new⟩

end Chained

/-- `ngx_palloc`, as far as success goes. -/
def chainPalloc : Ngx ChainMem Bool := fun m =>
  match m.grants with
  | [] => .ok true m
  | granted :: rest => .ok granted { m with grants := rest }

def readLink (p : Nat) : Ngx ChainMem NgxChainT := Exec.deref fun m => m.links.read p

def readBuf (b : Nat) : Ngx ChainMem NgxBufT := Exec.deref fun m => m.bufs.read b

def setLink (p : Nat) (link : NgxChainT) : Ngx ChainMem Unit :=
  Exec.modify fun m => { m with links := m.links.write p link }

def setBuf (b : Nat) (buf : NgxBufT) : Ngx ChainMem Unit :=
  Exec.modify fun m => { m with bufs := m.bufs.write b buf }

def findMark (mark : NgxBufT → Bool) : Nat → Option Nat → Ngx ChainMem (Option Nat)
  | _, none => pure none
  | 0, some _ => Exec.exhausted
  | fuel + 1, some p => do
    let link ← readLink p
    let buf ← readBuf link.buf
    if mark buf then pure (some p) else findMark mark fuel link.next

namespace NgxChain

def tail : Nat → Nat → Ngx ChainMem Nat
  | 0, _ => Exec.exhausted
  | fuel + 1, p => do
    let link ← readLink p
    match link.next with
    | none => pure p
    | some q => tail fuel q

def append (head ch : Nat) : Ngx ChainMem Unit := do
  let fuel ← Exec.gets fun m => m.links.size
  let p ← tail fuel head
  let link ← readLink p
  setLink p { link with next := some ch }

end NgxChain

namespace NgxPool

/-- `buffer` without a size: a buffer of zeros. -/
def buffer : Ngx ChainMem Nat := do
  if ← chainPalloc then
    fun m => .ok m.bufs.size { m with bufs := m.bufs.alloc {} }
  else NgxException.raise

/-- `chain`: the link's buffer is for the caller to set. -/
def chain (buf : Nat) : Ngx ChainMem Nat := do
  if ← chainPalloc then
    fun m => .ok m.links.size { m with links := m.links.alloc ⟨buf, none⟩ }
  else NgxException.raise

end NgxPool

section Steps

variable {m : ChainMem} {p b : Nat} {link : NgxChainT} {buf : NgxBufT}

theorem chainPalloc_eq (m : ChainMem) :
    chainPalloc m = .ok (granted m.grants) { m with grants := m.grants.tail } := by
  obtain ⟨links, bufs, grants⟩ := m
  cases grants <;> rfl

theorem buffer_eq (m : ChainMem) : NgxPool.buffer m =
    if granted m.grants then
      .ok m.bufs.size { m with bufs := m.bufs.alloc {}, grants := m.grants.tail }
    else .raised ⟨ngxError⟩ { m with grants := m.grants.tail } := by
  obtain ⟨links, bufs, grants⟩ := m
  cases grants with
  | nil => rfl
  | cons answer rest => cases answer <;> rfl

theorem chain_eq (b : Nat) (m : ChainMem) : NgxPool.chain b m =
    if granted m.grants then
      .ok m.links.size { m with links := m.links.alloc ⟨b, none⟩, grants := m.grants.tail }
    else .raised ⟨ngxError⟩ { m with grants := m.grants.tail } := by
  obtain ⟨links, bufs, grants⟩ := m
  cases grants with
  | nil => rfl
  | cons answer rest => cases answer <;> rfl

theorem ChainMem.Generous.granted (generous : m.Generous) : NgxCpp.granted m.grants = true := by
  cases answers : m.grants with
  | nil => rfl
  | cons answer rest => exact generous answer (by simp [answers])

theorem chainPalloc_generous (generous : m.Generous) :
    chainPalloc m = .ok true { m with grants := m.grants.tail } := by
  rw [chainPalloc_eq, generous.granted]

theorem ChainMem.Generous.tail (generous : m.Generous) :
    ChainMem.Generous { m with grants := m.grants.tail } :=
  fun granted member => generous granted (List.mem_of_mem_tail member)

theorem readLink_ok (h : m.links.read p = some link) : readLink p m = .ok link m :=
  Exec.deref_some h

theorem readBuf_ok (h : m.bufs.read b = some buf) : readBuf b m = .ok buf m :=
  Exec.deref_some h

theorem buffer_generous (generous : m.Generous) : NgxPool.buffer m =
    .ok m.bufs.size { m with bufs := m.bufs.alloc {}, grants := m.grants.tail } := by
  rw [buffer_eq, if_pos generous.granted]

theorem chain_generous (generous : m.Generous) (b : Nat) : NgxPool.chain b m =
    .ok m.links.size { m with links := m.links.alloc ⟨b, none⟩, grants := m.grants.tail } := by
  rw [chain_eq, if_pos generous.granted]

end Steps

theorem findMark_eq {mark : NgxBufT → Bool} {m : ChainMem} {head : Option Nat}
    {views : List LinkView} {fuel : Nat} (chained : Chained m head views)
    (enough : views.length ≤ fuel) : findMark mark fuel head m =
      .ok ((views.find? fun v => mark v.value).map LinkView.addr) m := by
  induction views generalizing head fuel with
  | nil =>
    cases chained.linked
    cases fuel <;> rfl
  | cons v rest ih =>
    obtain ⟨rfl, next, at_v, at_buf, later⟩ := chained.uncons
    cases fuel with
    | zero => simp at enough
    | succ fuel =>
      rw [findMark, Exec.bind_ok _ (readLink_ok at_v), Exec.bind_ok _ (readBuf_ok at_buf)]
      by_cases last : mark v.value = true
      · rw [if_pos last, List.find?_cons_of_pos (p := fun v : LinkView => mark v.value) last]
        rfl
      · rw [if_neg last, List.find?_cons_of_neg (p := fun v : LinkView => mark v.value) last]
        exact ih later (Nat.le_of_succ_le_succ enough)

end NgxCpp
