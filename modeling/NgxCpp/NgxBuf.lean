import NgxCpp.NgxChain

/-! `NgxBuf`: the wrapper's changes of a buffer, and special buffers. -/

namespace NgxCpp
open Foundation

def NgxBufT.special (b : NgxBufT) : Bool :=
  (b.flush || b.lastBuf || b.sync) && !b.inMemory && !b.inFile

namespace NgxBuf

/-- `range(a, b)`. -/
def range (first past : Nat) (buf : NgxBufT) : NgxBufT :=
  { buf with pos := first, last := past, memory := true }

def boundary (first past : Nat) (buf : NgxBufT) : NgxBufT :=
  { buf with start := first, past }

/-- `range(ngx_str_t*)`. -/
def rangeStr (s : NgxStr) (buf : NgxBufT) : NgxBufT :=
  boundary s.data (s.data + s.len) (range s.data (s.data + s.len) buf)

/-- `last`: either end marker is set. -/
def last (buf : NgxBufT) : Bool := buf.lastBuf || buf.lastInChain

def finish (flag : Bool) (buf : NgxBufT) : NgxBufT :=
  { buf with lastBuf := flag, lastInChain := flag }

/-- `size()` of the wrapper. -/
def sizeT (buf : NgxBufT) : Nat := (buf.size % 2 ^ 64).toNat

def consume (n : Nat) (buf : NgxBufT) : NgxBufT :=
  { buf with pos := buf.pos + if sizeT buf < n then sizeT buf else n }

/-- `produce`; a pointer has 64 bits. -/
def produce (n : Nat) (buf : NgxBufT) : NgxBufT :=
  let last := (buf.last + n) % 2 ^ 64
  { buf with last := if buf.past < last then buf.past else last }

/-- `printf`, with what `ngx_slprintf` returns for a place and its end. -/
def printf (slprintf : Nat → Nat → Nat) (buf : NgxBufT) : NgxBufT :=
  { buf with last := slprintf buf.pos buf.past }

def clear (buf : NgxBufT) : NgxBufT := { buf with pos := buf.last }

def reset (buf : NgxBufT) : NgxBufT := { buf with pos := buf.start, last := buf.start }

def empty (buf : NgxBufT) : Bool := buf.pos == buf.last

def full (buf : NgxBufT) : Bool := buf.pos == buf.past

def update (b : Nat) (f : NgxBufT → NgxBufT) : Ngx ChainMem Unit := do
  let buf ← readBuf b
  setBuf b (f buf)

theorem update_ok {m : ChainMem} {b : Nat} {buf : NgxBufT} (found : m.bufs.read b = some buf)
    (f : NgxBufT → NgxBufT) :
    update b f m = .ok () { m with bufs := m.bufs.write b (f buf) } := by
  rw [update, Exec.bind_ok _ (readBuf_ok found)]
  rfl

def ofStr (s : NgxStr) : NgxBufT := rangeStr s {}

@[simp] theorem size_ofStr (s : NgxStr) : (ofStr s).size = s.len := by
  simp [ofStr, rangeStr, boundary, range, NgxBufT.size, NgxBufT.inMemory]

@[simp] theorem special_ofStr (s : NgxStr) : (ofStr s).special = false := by
  simp [ofStr, rangeStr, boundary, range, NgxBufT.special, NgxBufT.inMemory]

@[simp] theorem lastBuf_ofStr (s : NgxStr) : (ofStr s).lastBuf = false := rfl

@[simp] theorem bytes_ofStr (c : Contents) (s : NgxStr) :
    (ofStr s).bytes c = NgxString.bytes c.ram s := rfl

end NgxBuf

end NgxCpp
