import NgxCpp.ListMem

/-! `NgxListIterator` and `NgxList` over the memory of nginx lists. References
to elements are slots. Loops run on fuel: a traversal gets one unit for every
element the memory counts and one to see the end. -/

namespace NgxCpp
open Foundation

variable {T σ : Type}

structure NgxListIterator where
  part : Option Nat := none
  data : Option Nat := none
  count : Nat := 0
deriving Repr, DecidableEq

namespace NgxListIterator

def ofList (l : Nat) : Ngx (ListMem T) NgxListIterator := do
  let hdr ← readList l
  let part ← readPart hdr.part
  pure ⟨some hdr.part, part.elts, 0⟩

/-- The negation of `operator!`. -/
def valid (it : NgxListIterator) : Ngx (ListMem T) Bool :=
  match it.part, it.data with
  | some p, some _ => do
    let part ← readPart p
    pure (part.nelts != 0)
  | _, _ => pure false

def dereference (it : NgxListIterator) : Ngx (ListMem T) Slot := do
  let array ← NgxException.requirePtr it.data
  pure ⟨array, it.count⟩

def increment (it : NgxListIterator) : Ngx (ListMem T) NgxListIterator :=
  match it.part, it.data with
  | some p, some _ => do
    let part ← readPart p
    if it.count + 1 < part.nelts then pure { it with count := it.count + 1 }
    else match part.next with
      | none => pure ⟨none, none, 0⟩
      | some q => do
        let next ← readPart q
        pure ⟨some q, next.elts, 0⟩
  | _, _ => pure it

end NgxListIterator

def ListMem.fuel (m : ListMem T) : Nat := (m.parts.cells.map NgxListPart.nelts).sum + 1

namespace NgxList

def create (n : Nat) : Ngx (ListMem T) Nat := do
  let l ← ngxListCreate n
  NgxException.requirePtr l

def prepare (l : Nat) : Ngx (ListMem T) Slot := do
  let tmp ← ngxListPush l
  NgxException.requirePtr tmp

def push (l : Nat) (x : T) : Ngx (ListMem T) Unit := do
  let slot ← prepare l
  storeSlot slot x

def empty (l : Nat) : Ngx (ListMem T) Bool := do
  let hdr ← readList l
  let part ← readPart hdr.part
  pure (part.nelts == 0)

def clear (l : Nat) : Ngx (ListMem T) Unit := do
  let hdr ← readList l
  let part ← readPart hdr.part
  Exec.modify fun m => m.setPart hdr.part { part with nelts := 0, next := none }
  Exec.modify fun m => m.setList l { hdr with last := hdr.part }

/-- `reshape` to the same element type, on the list's own pool. -/
def reshape (l : Nat) (n : Nat := 0) : Ngx (ListMem T) Unit := do
  let hdr ← readList l
  let rc ← ngxListInit l (if n = 0 then hdr.nalloc else n)
  NgxException.requireCode rc

def reinit (l : Nat) (n : Nat := 0) : Ngx (ListMem T) Unit := reshape l n

def beginIter (l : Nat) : Ngx (ListMem T) NgxListIterator := NgxListIterator.ofList l

def endIter : NgxListIterator := {}

/-- The loop of `visit`. The visitor runs on a state that holds the memory. -/
def visitFrom (mem : σ → ListMem T) (v : Slot → Ngx σ Unit) : Nat → NgxListIterator → Ngx σ Unit
  | 0, _ => Exec.exhausted
  | fuel + 1, it => do
    let more ← Exec.view mem it.valid
    if more then
      let slot ← Exec.view mem it.dereference
      v slot
      let next ← Exec.view mem it.increment
      visitFrom mem v fuel next
    else pure ()

def visit (mem : σ → ListMem T) (l : Nat) (v : Slot → Ngx σ Unit) : Ngx σ Unit := do
  let fuel ← Exec.gets fun s => (mem s).fuel
  let it ← Exec.view mem (beginIter l)
  visitFrom mem v fuel it

def merge (l : Nat) (source : Nat) : Ngx (ListMem T) Unit :=
  visit id source fun v => do
    let slot ← prepare l
    let x ← loadSlot v
    storeSlot slot x

/-- The loop of `find`. -/
def findFrom (p : T → Bool) : Nat → NgxListIterator → Ngx (ListMem T) NgxListIterator
  | 0, _ => Exec.exhausted
  | fuel + 1, it => do
    let more ← it.valid
    if more then
      let slot ← it.dereference
      let x ← loadSlot slot
      if p x then pure it
      else
        let next ← it.increment
        findFrom p fuel next
    else pure endIter

def find (l : Nat) (p : T → Bool) : Ngx (ListMem T) NgxListIterator := do
  let fuel ← Exec.gets ListMem.fuel
  let it ← beginIter l
  findFrom p fuel it

end NgxList

end NgxCpp
