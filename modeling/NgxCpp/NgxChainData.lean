import NgxCpp.NgxChainTraversal
import NgxCpp.NgxRam

/-! What `NgxChain` does with the bytes of its buffers. `size` counts those of a buffer
in a file, `copy` and `clear` go by the memory pointers of every buffer. -/

namespace NgxCpp
open Foundation

def NgxBuf.begin (buf : NgxBufT) : Nat := buf.pos

/-- The pointers and offsets of a buffer are in order and in range. -/
def NgxBufT.Ordered (b : NgxBufT) : Prop :=
  if b.inMemory then b.pos ≤ b.last ∧ b.last < 2 ^ 64
  else b.filePos ≤ b.fileLast ∧ b.fileLast < 2 ^ 63

/-- A call of `ngx_copy`. -/
structure CopyCall where
  dst : Nat
  src : Nat
  n : Nat
deriving Repr, DecidableEq

/-- Chains, the memory that they point into and the calls that copied some of it. -/
structure CopyWorld where
  chains : ChainMem
  ram : Ram
  calls : List CopyCall := []

def ngxCopy (dst src n : Nat) : Ngx CopyWorld Nat := fun w =>
  .ok (dst + n) { w with
    ram := w.ram.write dst (w.ram.span src (src + n)), calls := w.calls ++ [⟨dst, src, n⟩] }

theorem NgxBufT.Ordered.sizeT {b : NgxBufT} (ordered : b.Ordered) (memory : b.inMemory = true) :
    b.pos + NgxBuf.sizeT b = b.last := by
  rw [NgxBufT.Ordered, if_pos memory] at ordered
  rw [NgxBuf.sizeT, NgxBufT.size, if_pos memory]
  omega

theorem NgxBufT.Ordered.sizeT_file {b : NgxBufT} (ordered : b.Ordered) (file : b.inMemory = false) :
    (NgxBuf.sizeT b : Int) = b.size := by
  rw [NgxBufT.Ordered, if_neg (by simp [file])] at ordered
  rw [NgxBuf.sizeT, NgxBufT.size, if_neg (by simp [file])]
  omega

theorem NgxBuf.sizeT_zero {b : NgxBufT} (zero : b.size = 0) : NgxBuf.sizeT b = 0 := by
  rw [NgxBuf.sizeT, zero]
  rfl

theorem NgxBuf.size_clear (b : NgxBufT) :
    (NgxBuf.clear b).size = if b.inMemory then 0 else b.size := by
  have same : (NgxBuf.clear b).inMemory = b.inMemory := rfl
  rw [NgxBufT.size, same]
  cases memory : b.inMemory with
  | true => exact Int.sub_self _
  | false => simp [NgxBuf.clear, NgxBufT.size, memory]

namespace NgxChain

def dataBuf (c : Nat) : Ngx ChainMem NgxBufT := do
  let b ← NgxChainNode.data (some c)
  readBuf b

def sizeStep (c len : Nat) : Ngx ChainMem Nat := do
  let buf ← dataBuf c
  pure ((len + NgxBuf.sizeT buf) % 2 ^ 64)

def size (head : Option Nat) : Ngx ChainMem Nat := do
  let fuel ← Exec.gets fun m => m.links.size
  forNodes id sizeStep fuel head 0

def clearStep (c : Nat) : Ngx ChainMem Unit := do
  let b ← NgxChainNode.data (some c)
  NgxBuf.update b NgxBuf.clear

def clear (head : Option Nat) : Ngx ChainMem Unit := visit id head clearStep

def copyStep (c p : Nat) : Ngx CopyWorld Nat := do
  let buf ← Exec.view CopyWorld.chains (dataBuf c)
  ngxCopy p (NgxBuf.begin buf) (NgxBuf.sizeT buf)

def copy (head : Option Nat) (p : Nat) : Ngx CopyWorld Unit := do
  let fuel ← Exec.gets fun w => w.chains.links.size
  let _ ← forNodes CopyWorld.chains copyStep fuel head p

def memoryBytes (ram : Ram) (bufs : List NgxBufT) : List UInt8 :=
  (bufs.filter NgxBufT.inMemory).flatMap fun b => ram.span b.pos b.last

/-- Chain `head` of these buffers: what `copy` to `p` reads and writes, what `size`
counts, and what `clear` leaves. -/
structure DataConsistent (w : CopyWorld) (head : Option Nat) (p : Nat) (bufs : List NgxBufT) :
    Prop where
  copied : ∃ w', copy head p w = .ok () w' ∧ w'.chains = w.chains ∧
    w'.ram = w.ram.write p (memoryBytes w.ram bufs) ∧ ∀ call ∈ w'.calls,
      (p ≤ call.dst ∧ call.dst + call.n ≤ p + (memoryBytes w.ram bufs).length) ∧
      ∀ i < call.n, ∃ b ∈ bufs, b.inMemory = true ∧ b.pos ≤ call.src + i ∧ call.src + i < b.last
  bounded : ∃ n, size head w.chains = .ok n w.chains ∧ (memoryBytes w.ram bufs).length ≤ n
  cleared : ∃ m', clear head w.chains = .ok () m' ∧ size head m' = .ok 0 m' ∧
    m'.links = w.chains.links ∧ ∀ b buf, w.chains.bufs.read b = some buf →
      ∃ buf', m'.bufs.read b = some buf' ∧ buf'.start = buf.start ∧ buf'.past = buf.past

def copyCalls : Nat → List NgxBufT → List CopyCall
  | _, [] => []
  | p, b :: bufs => ⟨p, b.pos, NgxBuf.sizeT b⟩ :: copyCalls (p + NgxBuf.sizeT b) bufs

def copiedRam : Nat → List NgxBufT → Ram → Ram
  | _, [], ram => ram
  | p, b :: bufs, ram =>
    copiedRam (p + NgxBuf.sizeT b) bufs (ram.write p (ram.span b.pos (b.pos + NgxBuf.sizeT b)))

section Sizes

variable {b : NgxBufT} {bufs : List NgxBufT}

theorem memoryBytes_cons (ram : Ram) (b : NgxBufT) (bufs : List NgxBufT) :
    memoryBytes ram (b :: bufs) =
      (if b.inMemory then ram.span b.pos b.last else []) ++ memoryBytes ram bufs := by
  by_cases memory : b.inMemory = true
  · simp [memoryBytes, memory]
  · simp [memoryBytes, memory]

theorem total_sizes (ordered : ∀ b ∈ bufs, b.Ordered) (ram : Ram) :
    (memoryBytes ram bufs).length ≤ (bufs.map NgxBuf.sizeT).sum ∧
      ((bufs.map NgxBuf.sizeT).sum = (memoryBytes ram bufs).length ↔
        ∀ b ∈ bufs, b.inMemory = true ∨ b.size = 0) := by
  induction bufs with
  | nil => simp [memoryBytes]
  | cons b bufs ih =>
    obtain ⟨less, same⟩ := ih fun a member => ordered a (List.mem_cons_of_mem _ member)
    rw [memoryBytes_cons, List.map_cons, List.sum_cons, List.length_append, List.forall_mem_cons,
      ← same]
    by_cases memory : b.inMemory = true
    · have counted := (ordered b (by simp)).sizeT memory
      have width : (ram.span b.pos b.last).length = NgxBuf.sizeT b := by
        rw [Ram.length_span]
        omega
      rw [if_pos memory, width]
      simp only [memory, true_or, true_and]
      omega
    · rw [Bool.not_eq_true] at memory
      have counted := (ordered b (by simp)).sizeT_file memory
      rw [if_neg (by simp [memory]), List.length_nil]
      simp only [memory, Bool.false_eq_true, false_or]
      omega

end Sizes

section Steps

variable {m : ChainMem} {w : CopyWorld} {head : Option Nat} {v : LinkView} {views : List LinkView}

theorem dataBuf_ok (held : v.Held m) : dataBuf v.addr m = .ok v.value m := by
  obtain ⟨next, at_v, at_buf⟩ := held
  rw [dataBuf, Exec.bind_ok _ (NgxChainNode.data_ok at_v)]
  exact readBuf_ok at_buf

theorem dataBuf_keeps {c : Nat} {buf : NgxBufT} {m' : ChainMem} (h : dataBuf c m = .ok buf m') :
    m' = m := by
  obtain ⟨b, mid, data, h⟩ := Exec.bind_eq_ok.mp h
  obtain ⟨p, mid', at_c, data⟩ := Exec.bind_eq_ok.mp data
  obtain ⟨-, rfl⟩ := Exec.deref_eq_ok.mp at_c
  obtain ⟨link, mid', read, data⟩ := Exec.bind_eq_ok.mp data
  obtain ⟨-, rfl⟩ := Exec.deref_eq_ok.mp read
  obtain ⟨-, rfl⟩ := Outcome.ok.inj data
  exact (Exec.deref_eq_ok.mp h).2.symm

theorem sizeSteps (held : ∀ v ∈ views, v.Held m) {len : Nat} (fits : len < 2 ^ 64) :
    (views.map LinkView.addr).foldlM (fun len c => sizeStep c len) len m =
      .ok ((len + (views.map fun v => NgxBuf.sizeT v.value).sum) % 2 ^ 64) m := by
  induction views generalizing len with
  | nil =>
    rw [List.map_nil, List.foldlM_nil, List.map_nil, List.sum_nil, Nat.add_zero,
      Nat.mod_eq_of_lt fits]
    rfl
  | cons v views ih =>
    have step : sizeStep v.addr len m = .ok ((len + NgxBuf.sizeT v.value) % 2 ^ 64) m := by
      rw [sizeStep, Exec.bind_ok _ (dataBuf_ok (held v (by simp)))]
      rfl
    rw [List.map_cons, List.foldlM_cons, Exec.bind_ok _ step,
      ih (fun a member => held a (List.mem_cons_of_mem _ member)) (Nat.mod_lt _ (by decide)),
      List.map_cons, List.sum_cons, Nat.mod_add_mod, Nat.add_assoc]

theorem size_eq (chained : Chained m head views) :
    size head m = .ok ((views.map fun v => NgxBuf.sizeT v.value).sum % 2 ^ 64) m := by
  have keeps : ∀ p x y s s', Linked s.nextLink head (views.map LinkView.addr) →
      sizeStep p x s = .ok y s' → Linked s'.nextLink head (views.map LinkView.addr) := by
    intro p x y s s' linked done
    obtain ⟨buf, mid, read, counted⟩ := Exec.bind_eq_ok.mp done
    obtain rfl := dataBuf_keeps read
    obtain ⟨-, rfl⟩ := Outcome.ok.inj counted
    exact linked
  have loop := forNodes_eq id keeps m.links.size [] rfl chained.linked
    (ChainMem.length_le chained.linked) 0
  rw [chained.linked.head_eq] at loop
  rw [size, Exec.bind_ok _ (Exec.gets_apply _ m), loop, sizeSteps chained.held (by decide)]
  simp

theorem clearSteps (links : ∀ v ∈ views, ∃ next, m.links.read v.addr = some ⟨v.buf, next⟩)
    (bufs : ∀ v ∈ views, ∃ buf, m.bufs.read v.buf = some buf) :
    ∃ m', Exec.each clearStep (views.map LinkView.addr) m = .ok () m' ∧ m'.links = m.links ∧
      ∀ b, m'.bufs.read b = if b ∈ views.map LinkView.buf then
        (m.bufs.read b).map NgxBuf.clear else m.bufs.read b := by
  induction views generalizing m with
  | nil => exact ⟨m, rfl, rfl, by simp⟩
  | cons v views ih =>
    obtain ⟨next, at_v⟩ := links v (by simp)
    obtain ⟨buf, at_buf⟩ := bufs v (by simp)
    let m1 : ChainMem := { m with bufs := m.bufs.write v.buf (NgxBuf.clear buf) }
    have step : clearStep v.addr m = .ok () m1 := by
      rw [clearStep, Exec.bind_ok _ (NgxChainNode.data_ok at_v)]
      exact NgxBuf.update_ok at_buf NgxBuf.clear
    have written : m1.bufs.read v.buf = some (NgxBuf.clear buf) := Heap.read_write_self at_buf
    have others : ∀ b, b ≠ v.buf → m1.bufs.read b = m.bufs.read b :=
      fun b other => Heap.read_write_ne other
    obtain ⟨m', run, same, cleared⟩ := ih (m := m1)
      (fun a member => links a (List.mem_cons_of_mem _ member)) fun a member => by
        by_cases shared : a.buf = v.buf
        · exact ⟨_, shared ▸ written⟩
        · rw [others _ shared]
          exact bufs a (List.mem_cons_of_mem _ member)
    refine ⟨m', ?_, same, fun b => ?_⟩
    · rw [List.map_cons, Exec.each_cons_ok step, run]
    · rw [cleared b]
      by_cases shared : b = v.buf
      · subst shared
        simp [written, at_buf, NgxBuf.clear]
      · simp [others b shared, shared]

theorem clear_ok (chained : Chained m head views) :
    ∃ m', clear head m = .ok () m' ∧ m'.links = m.links ∧
      Chained m' head (views.map fun v => { v with value := NgxBuf.clear v.value }) ∧
      ∀ b, m'.bufs.read b = m.bufs.read b ∨
        m'.bufs.read b = (m.bufs.read b).map NgxBuf.clear := by
  have keeps : KeepsChain id clearStep head (views.map LinkView.addr) := by
    intro p s s' linked done
    obtain ⟨b, mid, data, updated⟩ := Exec.bind_eq_ok.mp done
    obtain ⟨q, mid', at_p, data⟩ := Exec.bind_eq_ok.mp data
    obtain ⟨-, rfl⟩ := Exec.deref_eq_ok.mp at_p
    obtain ⟨link, mid', read, data⟩ := Exec.bind_eq_ok.mp data
    obtain ⟨-, rfl⟩ := Exec.deref_eq_ok.mp read
    obtain ⟨-, rfl⟩ := Outcome.ok.inj data
    obtain ⟨buf, mid, found, updated⟩ := Exec.bind_eq_ok.mp updated
    obtain ⟨-, rfl⟩ := Exec.deref_eq_ok.mp found
    obtain ⟨-, rfl⟩ := Outcome.ok.inj updated
    exact linked
  obtain ⟨m', run, links, bufs⟩ := clearSteps (m := m)
    (fun v member => (chained.held v member).imp fun _ found => found.1)
    fun v member => ⟨v.value, (chained.held v member).choose_spec.2⟩
  refine ⟨m', ?_, links, ⟨?_, ?_⟩, fun b => ?_⟩
  · rw [clear, visit_eq keeps chained.linked, run]
  · rw [List.map_map]
    refine chained.linked.frame fun p _ => ?_
    rw [ChainMem.nextLink, ChainMem.nextLink, links]
  · intro a member
    obtain ⟨v, inside, rfl⟩ := List.mem_map.mp member
    obtain ⟨next, at_v, at_buf⟩ := chained.held v inside
    refine ⟨next, by rw [links, at_v], ?_⟩
    rw [bufs, if_pos (List.mem_map_of_mem inside), at_buf]
    rfl
  · rw [bufs b]
    split
    · exact .inr rfl
    · exact .inl rfl

theorem copySteps (held : ∀ v ∈ views, v.Held w.chains) (p : Nat) :
    (views.map LinkView.addr).foldlM (fun p c => copyStep c p) p w =
      .ok (p + (views.map fun v => NgxBuf.sizeT v.value).sum) { w with
        ram := copiedRam p (views.map LinkView.value) w.ram
        calls := w.calls ++ copyCalls p (views.map LinkView.value) } := by
  induction views generalizing p w with
  | nil =>
    rw [List.map_nil, List.foldlM_nil, List.map_nil]
    simp [copiedRam, copyCalls]
  | cons v views ih =>
    let w1 : CopyWorld := { w with
      ram := w.ram.write p (w.ram.span v.value.pos (v.value.pos + NgxBuf.sizeT v.value))
      calls := w.calls ++ [⟨p, v.value.pos, NgxBuf.sizeT v.value⟩] }
    have step : copyStep v.addr p w = .ok (p + NgxBuf.sizeT v.value) w1 := by
      rw [copyStep, Exec.bind_ok _ (Exec.view_ok (dataBuf_ok (held v (by simp))))]
      rfl
    have rest := ih (w := w1) (fun a member => held a (List.mem_cons_of_mem _ member))
      (p + NgxBuf.sizeT v.value)
    rw [List.map_cons, List.foldlM_cons, Exec.bind_ok _ step, rest]
    simp [w1, copiedRam, copyCalls, Nat.add_assoc]

theorem copy_eq (chained : Chained w.chains head views) (p : Nat) :
    copy head p w = .ok () { w with
      ram := copiedRam p (views.map LinkView.value) w.ram
      calls := w.calls ++ copyCalls p (views.map LinkView.value) } := by
  have keeps : ∀ p x y s s', Linked s.chains.nextLink head (views.map LinkView.addr) →
      copyStep p x s = .ok y s' → Linked s'.chains.nextLink head (views.map LinkView.addr) := by
    intro p x y s s' linked done
    obtain ⟨buf, mid, read, copied⟩ := Exec.bind_eq_ok.mp done
    obtain ⟨_, -, rfl⟩ := Exec.view_eq_ok.mp read
    obtain ⟨-, rfl⟩ := Outcome.ok.inj copied
    exact linked
  have loop := forNodes_eq CopyWorld.chains keeps w.chains.links.size [] rfl
    chained.linked (ChainMem.length_le chained.linked) p
  rw [chained.linked.head_eq, copySteps chained.held] at loop
  rw [copy, Exec.bind_ok _ (Exec.gets_apply _ w), Exec.bind_ok _ loop]
  rfl

end Steps

section Calls

variable {p : Nat} {bufs : List NgxBufT} {ram : Ram} {call : CopyCall}

theorem copyCalls_bounds (member : call ∈ copyCalls p bufs) :
    p ≤ call.dst ∧ call.dst + call.n ≤ p + (bufs.map NgxBuf.sizeT).sum ∧
      ∃ b ∈ bufs, call.src = b.pos ∧ call.n = NgxBuf.sizeT b := by
  induction bufs generalizing p with
  | nil => simp [copyCalls] at member
  | cons b bufs ih =>
    rw [List.map_cons, List.sum_cons]
    rcases List.mem_cons.mp member with rfl | later
    · exact ⟨Nat.le_refl p, by dsimp only; omega, b, by simp, rfl, rfl⟩
    · obtain ⟨low, high, a, inside, found⟩ := ih later
      exact ⟨by omega, by omega, a, List.mem_cons_of_mem _ inside, found⟩

theorem copyCalls_last (some : bufs ≠ []) (p : Nat) :
    ∃ call ∈ copyCalls p bufs, call.dst + call.n = p + (bufs.map NgxBuf.sizeT).sum := by
  induction bufs generalizing p with
  | nil => exact absurd rfl some
  | cons b bufs ih =>
    cases bufs with
    | nil => exact ⟨_, List.mem_singleton_self _, by simp⟩
    | cons a bufs =>
      obtain ⟨call, member, ends⟩ := ih (List.cons_ne_nil a bufs) (p + NgxBuf.sizeT b)
      exact ⟨call, List.mem_cons_of_mem _ member, by
        rw [ends, Nat.add_assoc]
        rfl⟩

theorem copiedRam_behind (copied : List UInt8) (ordered : ∀ b ∈ bufs, b.Ordered)
    (counted : ∀ b ∈ bufs, b.inMemory = true ∨ b.size = 0)
    (apart : ∀ b ∈ bufs, b.inMemory = true →
      b.last ≤ p ∨ p + (copied ++ memoryBytes ram bufs).length ≤ b.pos) :
    copiedRam (p + copied.length) bufs (ram.write p copied) =
      ram.write p (copied ++ memoryBytes ram bufs) := by
  induction bufs generalizing copied with
  | nil => simp [copiedRam, memoryBytes]
  | cons b bufs ih =>
    have later := fun more => ih (copied ++ more) (fun a member => ordered a (.tail _ member))
      (fun a member => counted a (.tail _ member))
    rw [memoryBytes_cons] at apart ⊢
    cases memory : b.inMemory with
    | true =>
      have size := (ordered b (by simp)).sizeT memory
      simp only [memory, if_true] at apart ⊢
      have length : (ram.span b.pos b.last).length = b.last - b.pos := Ram.length_span
      have source : (ram.write p copied).span b.pos b.last = ram.span b.pos b.last := by
        refine Ram.span_write ((apart b (by simp) memory).imp id fun behind => ?_)
        rw [List.length_append] at behind
        omega
      have place : p + copied.length + NgxBuf.sizeT b =
          p + (copied ++ ram.span b.pos b.last).length := by
        rw [List.length_append]
        omega
      rw [copiedRam, size, source, Ram.write_append, place, ← List.append_assoc]
      refine later _ fun a member inside => ?_
      rw [List.append_assoc]
      exact apart a (.tail _ member) inside
    | false =>
      have none := NgxBuf.sizeT_zero ((counted b (by simp)).resolve_left (by simp [memory]))
      simp only [memory, Bool.false_eq_true, if_false, List.nil_append] at apart ⊢
      have source : (ram.write p copied).span b.pos b.pos = [] := by simp [Ram.span]
      have rest := later [] fun a member inside => by
        rw [List.append_nil]
        exact apart a (.tail _ member) inside
      rw [List.append_nil] at rest
      rw [copiedRam, none, Nat.add_zero, Nat.add_zero, source, Ram.write_nil, rest]

end Calls

section Consistent

variable {w : CopyWorld} {head : Option Nat} {p : Nat} {bufs : List NgxBufT}

theorem copyCalls_within {ram : Ram} {call : CopyCall} (ordered : ∀ b ∈ bufs, b.Ordered)
    (counted : ∀ b ∈ bufs, b.inMemory = true ∨ b.size = 0) (member : call ∈ copyCalls p bufs) :
    (p ≤ call.dst ∧ call.dst + call.n ≤ p + (memoryBytes ram bufs).length) ∧
      ∀ i < call.n, ∃ b ∈ bufs, b.inMemory = true ∧ b.pos ≤ call.src + i ∧
        call.src + i < b.last := by
  have total := (total_sizes ordered ram).2.mpr counted
  obtain ⟨low, high, b, inside, src, n⟩ := copyCalls_bounds member
  refine ⟨⟨low, total ▸ high⟩, fun i below => ⟨b, inside, ?_⟩⟩
  rcases counted b inside with memory | none
  · have size := (ordered b inside).sizeT memory
    exact ⟨memory, by omega, by omega⟩
  · have size := NgxBuf.sizeT_zero none
    omega

theorem size_cleared {m : ChainMem} {views : List LinkView}
    (cleared : Chained m head (views.map fun v => { v with value := NgxBuf.clear v.value }))
    (counted : ∀ b ∈ views.map LinkView.value, b.inMemory = true ∨ b.size = 0) :
    size head m = .ok 0 m := by
  have zero : ((views.map fun v => { v with value := NgxBuf.clear v.value }).map
      fun v => NgxBuf.sizeT v.value).sum = 0 := List.sum_eq_zero fun n member => by
    rw [List.map_map] at member
    obtain ⟨v, inside, rfl⟩ := List.mem_map.mp member
    refine NgxBuf.sizeT_zero ((NgxBuf.size_clear v.value).trans ?_)
    rcases counted v.value (List.mem_map_of_mem inside) with memory | none
    · rw [if_pos memory]
    · rw [none, ite_self]
  rw [size_eq cleared, zero]
  rfl

/-- What is copied, counted and cleared is the same thing exactly when a buffer that is
not in memory has nothing in its file either. -/
theorem data_consistent_iff (shown : w.chains.shown head = some bufs) (fresh : w.calls = [])
    (ordered : ∀ b ∈ bufs, b.Ordered) (room : p + (memoryBytes w.ram bufs).length < 2 ^ 64)
    (apart : ∀ b ∈ bufs, b.inMemory = true →
      b.last ≤ p ∨ p + (memoryBytes w.ram bufs).length ≤ b.pos) :
    DataConsistent w head p bufs ↔ ∀ b ∈ bufs, b.inMemory = true ∨ b.size = 0 := by
  obtain ⟨views, chained, rfl⟩ := Chained.of_shown shown
  have sizes := total_sizes ordered w.ram
  have copied := copy_eq chained p
  rw [fresh, List.nil_append] at copied
  constructor
  · intro consistent
    obtain ⟨w', run, -, -, within⟩ := consistent.copied
    obtain ⟨-, rfl⟩ := Outcome.ok.inj (copied.symm.trans run)
    cases views with
    | nil => simp
    | cons v views =>
      obtain ⟨call, member, ends⟩ :=
        copyCalls_last (List.cons_ne_nil _ (views.map LinkView.value)) p
      have bound := (within call member).1.2
      refine sizes.2.mp (Nat.le_antisymm ?_ sizes.1)
      rw [List.map_cons] at bound ⊢
      omega
  · intro counted
    have total := sizes.2.mpr counted
    refine ⟨⟨_, copied, rfl, ?_, fun call => copyCalls_within ordered counted⟩, ?_, ?_⟩
    · have written := copiedRam_behind [] ordered counted (by simpa using apart)
      simpa [Ram.write_nil] using written
    · have sum : (views.map fun v => NgxBuf.sizeT v.value).sum =
          (memoryBytes w.ram (views.map LinkView.value)).length := by
        rw [← total, List.map_map]
        rfl
      exact ⟨_, size_eq chained, Nat.le_of_eq (by rw [sum, Nat.mod_eq_of_lt (by omega)])⟩
    · obtain ⟨m', cleared, links, after, bufs⟩ := clear_ok chained
      refine ⟨m', cleared, size_cleared after counted, links, fun b buf found => ?_⟩
      rcases bufs b with same | same
      · exact ⟨buf, same.trans found, rfl, rfl⟩
      · exact ⟨_, same.trans (congrArg _ found), rfl, rfl⟩

private def memoryChain : CopyWorld where
  chains :=
    { links := ⟨[⟨0, some 1⟩, ⟨1, none⟩]⟩
      bufs := ⟨[{ pos := 8, last := 10, memory := true }, { pos := 9, last := 10, mmap := true }]⟩ }
  ram a := a.toUInt8

theorem data_consistent_two : DataConsistent memoryChain (some 0) 16
    [{ pos := 8, last := 10, memory := true }, { pos := 9, last := 10, mmap := true }] := by
  have shown : memoryChain.chains.shown (some 0) =
      some [{ pos := 8, last := 10, memory := true }, { pos := 9, last := 10, mmap := true }] := rfl
  refine (data_consistent_iff shown rfl ?_ (by decide) ?_).mpr (by decide)
  · simp [NgxBufT.Ordered, NgxBufT.inMemory]
  · simp [memoryBytes, NgxBufT.inMemory, Ram.span]

private def fileChain : CopyWorld where
  chains := { links := ⟨[⟨0, none⟩]⟩, bufs := ⟨[{ fileLast := 1, inFile := true }]⟩ }
  ram _ := 0

/-- The byte that `copy` reads is not one of a buffer in memory. -/
theorem copy_reads_past_file_buffer :
    ¬ DataConsistent fileChain (some 0) 16 [{ fileLast := 1, inFile := true }] := by
  intro consistent
  obtain ⟨w', run, -, -, within⟩ := consistent.copied
  obtain ⟨-, rfl⟩ := Outcome.ok.inj run
  obtain ⟨-, reads⟩ := within ⟨16, 0, 1⟩ (by decide)
  obtain ⟨b, member, memory, -⟩ := reads 0 (by decide)
  obtain rfl := List.mem_singleton.mp member
  simp [NgxBufT.inMemory] at memory

end Consistent

end NgxChain

end NgxCpp
