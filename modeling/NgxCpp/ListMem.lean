import NgxCpp.Exception
import NgxCpp.Foundation.Heap
import NgxCpp.Foundation.Linked

/-! The memory of nginx lists and the two nginx functions that change it.
A part is a cell of its own even where nginx embeds it in `ngx_list_t`: a list
header knows the address of its first part, so a header copied by value shares
every later part and the element arrays, and nothing else. -/

namespace NgxCpp
open Foundation

structure NgxListPart where
  elts : Option Nat
  nelts : Nat
  next : Option Nat
deriving Repr, DecidableEq

/-- `ngx_list_t`, with the address of the part embedded in it. The element size
is fixed by the element type and the pool is the memory's own. -/
structure NgxListT where
  part : Nat
  last : Nat
  nalloc : Nat
deriving Repr, DecidableEq

/-- Headers, parts and element arrays. A slot that was never written holds
`none`. `grants` says how the coming pool requests end; past its end they
succeed. -/
structure ListMem (T : Type) where
  lists : Heap NgxListT := {}
  parts : Heap NgxListPart := {}
  arrays : Heap (List (Option T)) := {}
  grants : List Bool := []
deriving Repr, DecidableEq

/-- Where `ngx_list_push` lets its caller write. -/
structure Slot where
  array : Nat
  index : Nat
deriving Repr, DecidableEq

namespace ListMem

variable {T : Type}

def nextPart (m : ListMem T) (p : Nat) : Option (Option Nat) :=
  (m.parts.read p).map NgxListPart.next

def load (m : ListMem T) (s : Slot) : Option T :=
  (m.arrays.read s.array).bind fun slots => slots[s.index]?.join

def store (m : ListMem T) (s : Slot) (x : T) : Option (ListMem T) :=
  (m.arrays.read s.array).bind fun slots =>
    if s.index < slots.length then
      some { m with arrays := m.arrays.write s.array (slots.set s.index (some x)) }
    else none

def setPart (m : ListMem T) (p : Nat) (part : NgxListPart) : ListMem T :=
  { m with parts := m.parts.write p part }

def setList (m : ListMem T) (l : Nat) (hdr : NgxListT) : ListMem T :=
  { m with lists := m.lists.write l hdr }

end ListMem

variable {T : Type}

/-- `ngx_palloc`, as far as success goes. -/
def palloc : Ngx (ListMem T) Bool := fun m =>
  match m.grants with
  | [] => .ok true m
  | granted :: rest => .ok granted { m with grants := rest }

def readList (l : Nat) : Ngx (ListMem T) NgxListT := Exec.deref fun m => m.lists.read l

def readPart (p : Nat) : Ngx (ListMem T) NgxListPart := Exec.deref fun m => m.parts.read p

def newArray (n : Nat) : Ngx (ListMem T) Nat := fun m =>
  .ok m.arrays.size { m with arrays := m.arrays.alloc (List.replicate n none) }

def newPart (part : NgxListPart) : Ngx (ListMem T) Nat := fun m =>
  .ok m.parts.size { m with parts := m.parts.alloc part }

def newList (hdr : NgxListT) : Ngx (ListMem T) Nat := fun m =>
  .ok m.lists.size { m with lists := m.lists.alloc hdr }

def storeSlot (s : Slot) (x : T) : Ngx (ListMem T) Unit := fun m =>
  match m.store s x with
  | some m' => .ok () m'
  | none => .undefined

def loadSlot (s : Slot) : Ngx (ListMem T) T := Exec.deref fun m => m.load s

/-- The address of the next element, counted before it is written. In an array
that is missing the address is null plus an offset, which is null at offset 0. -/
def bump (p : Nat) (part : NgxListPart) : Ngx (ListMem T) (Option Slot) := do
  Exec.modify fun m => m.setPart p { part with nelts := part.nelts + 1 }
  match part.elts with
  | some array => pure (some ⟨array, part.nelts⟩)
  | none => if part.nelts = 0 then pure none else Exec.undefined

/-- The branch of `ngx_list_push` for a full last part: allocate a part and its
array, then link them. -/
def growList (l : Nat) (hdr : NgxListT) (last : NgxListPart) :
    Ngx (ListMem T) (Option Slot) := do
  if ← palloc then
    if ← palloc then
      let array ← newArray hdr.nalloc
      let part : NgxListPart := ⟨some array, 0, none⟩
      let fresh ← newPart part
      Exec.modify fun m => m.setPart hdr.last { last with next := some fresh }
      Exec.modify fun m => m.setList l { hdr with last := fresh }
      bump fresh part
    else pure none
  else pure none

/-- `ngx_list_push`; `none` is its null result. -/
def ngxListPush (l : Nat) : Ngx (ListMem T) (Option Slot) := do
  let hdr ← readList l
  let last ← readPart hdr.last
  if last.nelts = hdr.nalloc then growList l hdr last else bump hdr.last last

/-- `ngx_list_init`: the result of the allocation is stored before it is tested. -/
def ngxListInit (l : Nat) (n : Nat) : Ngx (ListMem T) Int := do
  let hdr ← readList l
  let part ← readPart hdr.part
  if ← palloc then
    let array ← newArray n
    Exec.modify fun m => m.setPart hdr.part ⟨some array, 0, none⟩
    Exec.modify fun m => m.setList l { hdr with last := hdr.part, nalloc := n }
    pure ngxOk
  else
    Exec.modify fun m => m.setPart hdr.part { part with elts := none }
    pure ngxError

/-- `ngx_list_create`; `none` is its null result. -/
def ngxListCreate (n : Nat) : Ngx (ListMem T) (Option Nat) := do
  if ← palloc then
    let part ← newPart ⟨none, 0, none⟩
    let l ← newList ⟨part, part, 0⟩
    let rc ← ngxListInit l n
    if rc = ngxOk then pure (some l) else pure none
  else pure none

end NgxCpp
