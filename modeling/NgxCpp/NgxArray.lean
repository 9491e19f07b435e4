import NgxCpp.ListMem

/-! `NgxArray` over the memory of nginx arrays: headers, and blocks that hold the
elements. A full array grows at the end of its block, or moves to a new one; the
old block stays readable. -/

namespace NgxCpp
open Foundation

/-- `ngx_array_t`. The element size is fixed by the element type and the pool is
the memory's own. -/
structure NgxArrayT where
  elts : Option Nat
  nelts : Nat
  nalloc : Nat
deriving Repr, DecidableEq

inductive Growth where
  | inPlace
  | moved
  | refused
deriving Repr, DecidableEq

/-- `answers` says what becomes of the coming requests of full arrays; past its end
they move. -/
structure ArrayMem (T : Type) where
  arrays : Heap NgxArrayT := {}
  blocks : Heap (List (Option T)) := {}
  answers : List Growth := []
deriving Repr, DecidableEq

variable {T σ : Type}

namespace ArrayMem

def load (m : ArrayMem T) (s : Slot) : Option T :=
  (m.blocks.read s.array).bind fun slots => slots[s.index]?.join

def setArray (m : ArrayMem T) (a : Nat) (arr : NgxArrayT) : ArrayMem T :=
  { m with arrays := m.arrays.write a arr }

end ArrayMem

def readArray (a : Nat) : Ngx (ArrayMem T) NgxArrayT := Exec.deref fun m => m.arrays.read a

def readBlock (b : Nat) : Ngx (ArrayMem T) (List (Option T)) := Exec.deref fun m => m.blocks.read b

def newBlock (slots : List (Option T)) : Ngx (ArrayMem T) Nat := fun m =>
  .ok m.blocks.size { m with blocks := m.blocks.alloc slots }

def writeBlock (b : Nat) (slots : List (Option T)) : Ngx (ArrayMem T) Unit :=
  Exec.modify fun m => { m with blocks := m.blocks.write b slots }

def loadElt (s : Slot) : Ngx (ArrayMem T) T := Exec.deref fun m => m.load s

def storeElt (s : Slot) (x : T) : Ngx (ArrayMem T) Unit := do
  let slots ← readBlock s.array
  if s.index < slots.length then writeBlock s.array (slots.set s.index (some x))
  else Exec.undefined

def growth : Ngx (ArrayMem T) Growth := fun m =>
  .ok (m.answers.head?.getD .moved) { m with answers := m.answers.tail }

def moveArray (arr : NgxArrayT) : Ngx (ArrayMem T) NgxArrayT := do
  let old ← match arr.elts with
    | some b => readBlock b
    | none => if arr.nalloc = 0 then pure [] else Exec.undefined
  let new ← newBlock (old.take arr.nalloc ++ List.replicate arr.nalloc none)
  pure { arr with elts := some new, nalloc := 2 * arr.nalloc }

/-- The branch of `ngx_array_push` for a full array; `none` is its null result. Only a
block can be the last one in the pool. -/
def growArray (arr : NgxArrayT) : Ngx (ArrayMem T) (Option NgxArrayT) := do
  match ← growth, arr.elts with
  | .refused, _ => pure none
  | .inPlace, some b => do
    let slots ← readBlock b
    writeBlock b (slots ++ [none])
    pure (some { arr with nalloc := arr.nalloc + 1 })
  | _, _ => do
    let moved ← moveArray arr
    pure (some moved)

/-- The address of the next element, counted before it is written. Without a block it
is null plus an offset, which is null at offset 0. -/
def bumpArray (a : Nat) (arr : NgxArrayT) : Ngx (ArrayMem T) (Option Slot) := do
  Exec.modify fun m => m.setArray a { arr with nelts := arr.nelts + 1 }
  match arr.elts with
  | some b => pure (some ⟨b, arr.nelts⟩)
  | none => if arr.nelts = 0 then pure none else Exec.undefined

/-- `ngx_array_push`; `none` is its null result. -/
def ngxArrayPush (a : Nat) : Ngx (ArrayMem T) (Option Slot) := do
  let arr ← readArray a
  if arr.nelts = arr.nalloc then
    match ← growArray arr with
    | none => pure none
    | some arr => bumpArray a arr
  else bumpArray a arr

/-! The wrapper holds a pointer that may be null. -/

namespace NgxArray

/-- `get` where the source follows the pointer. -/
def get (arr : Option Nat) : Ngx (ArrayMem T) Nat := Exec.deref fun _ => arr

def size (arr : Option Nat) : Ngx (ArrayMem T) Nat :=
  match arr with
  | none => pure 0
  | some a => do
    let arr ← readArray a
    pure arr.nelts

def elts (arr : Option Nat) : Ngx (ArrayMem T) (Option Nat) := do
  let a ← get arr
  let arr ← readArray a
  pure arr.elts

def prepare (arr : Option Nat) : Ngx (ArrayMem T) Slot := do
  let a ← get arr
  let tmp ← ngxArrayPush a
  NgxException.requirePtr tmp

def push (arr : Option Nat) (x : T) : Ngx (ArrayMem T) Unit := do
  let slot ← prepare arr
  storeElt slot x

def element (p : Option Nat) (i : Nat) : Ngx (ArrayMem T) Slot := Exec.deref fun _ =>
  p.map fun b => ⟨b, i⟩

/-- The loop of `visit`: the pointer is read once, the size each time. -/
def visitFrom (mem : σ → ArrayMem T) (v : Slot → Ngx σ Unit) (arr p : Option Nat) :
    Nat → Nat → Ngx σ Unit
  | 0, _ => Exec.exhausted
  | fuel + 1, i => do
    let n ← Exec.view mem (size arr)
    if i < n then
      let slot ← Exec.view mem (element p i)
      v slot
      visitFrom mem v arr p fuel (i + 1)
    else pure ()

def visit (mem : σ → ArrayMem T) (fuel : Nat) (arr : Option Nat) (v : Slot → Ngx σ Unit) :
    Ngx σ Unit := do
  let p ← Exec.view mem (elts arr)
  visitFrom mem v arr p fuel 0

/-- The visitor of `merge`. -/
def assign (arr : Option Nat) (v : Slot) : Ngx (ArrayMem T) Unit := do
  let slot ← prepare arr
  let x ← loadElt v
  storeElt slot x

def merge (fuel : Nat) (arr source : Option Nat) : Ngx (ArrayMem T) Unit :=
  visit id fuel source (assign arr)

end NgxArray

/-- Array `a` has block `b`, whose first slots hold `vs`, and has no slot more than the header
says. A slot may hold nothing yet. -/
structure Slotted (m : ArrayMem T) (a b : Nat) (arr : NgxArrayT) (vs : List (Option T)) :
    Prop where
  header : m.arrays.read a = some arr
  block : arr.elts = some b
  nelts : arr.nelts = vs.length
  stored : ∃ slots, m.blocks.read b = some slots ∧ slots.length = arr.nalloc ∧
    slots.take vs.length = vs

/-- Array `a` has block `b`, which starts with the elements `xs` and has no slot more
than the header says. -/
structure Filled (m : ArrayMem T) (a b : Nat) (arr : NgxArrayT) (xs : List T) : Prop where
  header : m.arrays.read a = some arr
  block : arr.elts = some b
  nelts : arr.nelts = xs.length
  stored : ∃ slots, m.blocks.read b = some slots ∧ slots.length = arr.nalloc ∧
    slots.take xs.length = xs.map some

/-- Room for one more element, in the block `b` or in a new one. -/
structure Room (m m1 : ArrayMem T) (b b1 : Nat) (arr1 : NgxArrayT) (vs : List (Option T)) :
    Prop where
  block : arr1.elts = some b1
  nelts : arr1.nelts = vs.length
  arrays : m1.arrays = m.arrays
  stored : ∃ slots, m1.blocks.read b1 = some slots ∧ slots.length = arr1.nalloc ∧
    slots.take vs.length = vs
  room : vs.length < arr1.nalloc
  place : b1 = b ∨ b1 = m.blocks.size
  others : ∀ c slots, c ≠ b → m.blocks.read c = some slots → m1.blocks.read c = some slots
  calm : .refused ∉ m.answers → .refused ∉ m1.answers

section Push

variable {m : ArrayMem T} {a b : Nat} {arr : NgxArrayT} {xs : List T} {vs : List (Option T)}
  {x : T}

theorem slotted_map : Slotted m a b arr (xs.map some) ↔ Filled m a b arr xs := by
  constructor
  · rintro ⟨header, block, nelts, stored⟩
    rw [List.length_map] at nelts stored
    exact ⟨header, block, nelts, stored⟩
  · rintro ⟨header, block, nelts, stored⟩
    rw [← List.length_map (f := some)] at nelts stored
    exact ⟨header, block, nelts, stored⟩

theorem Slotted.fits (slotted : Slotted m a b arr vs) : vs.length ≤ arr.nalloc := by
  obtain ⟨slots, -, length, starts⟩ := slotted.stored
  have width := congrArg List.length starts
  rw [List.length_take] at width
  omega

theorem Filled.fits (filled : Filled m a b arr xs) : xs.length ≤ arr.nalloc := by
  have fits := (slotted_map.mpr filled).fits
  rwa [List.length_map] at fits

theorem NgxArray.get_some (a : Nat) (m : ArrayMem T) : NgxArray.get (some a) m = .ok a m := rfl

theorem readArray_ok (header : m.arrays.read a = some arr) : readArray a m = .ok arr m :=
  Exec.deref_some header

theorem readBlock_ok {slots : List (Option T)} (found : m.blocks.read b = some slots) :
    readBlock b m = .ok slots m :=
  Exec.deref_some found

theorem NgxArray.size_apply (header : m.arrays.read a = some arr) :
    NgxArray.size (some a) m = .ok arr.nelts m := by
  rw [NgxArray.size, Exec.bind_ok _ (readArray_ok header)]
  rfl

theorem NgxArray.elts_apply (header : m.arrays.read a = some arr) :
    NgxArray.elts (some a) m = .ok arr.elts m := by
  rw [NgxArray.elts, Exec.bind_ok _ (NgxArray.get_some a m), Exec.bind_ok _ (readArray_ok header)]
  rfl

theorem growth_apply (m : ArrayMem T) : growth m =
    .ok (m.answers.head?.getD .moved) { m with answers := m.answers.tail } :=
  rfl

theorem moveArray_some {slots : List (Option T)} (block : arr.elts = some b)
    (found : m.blocks.read b = some slots) : moveArray arr m =
      .ok { arr with elts := some m.blocks.size, nalloc := 2 * arr.nalloc }
        { m with blocks :=
          m.blocks.alloc (slots.take arr.nalloc ++ List.replicate arr.nalloc none) } := by
  rw [moveArray, block]
  exact Exec.bind_ok _ (readBlock_ok found)

theorem calm_tail {answers : List Growth} (calm : .refused ∉ answers) :
    .refused ∉ answers.tail :=
  fun member => calm (List.mem_of_mem_tail member)

theorem refused_of_head {answers : List Growth} (head : answers.head?.getD .moved = .refused) :
    .refused ∈ answers := by
  cases answers with
  | nil => simp at head
  | cons first rest =>
    obtain rfl : first = .refused := by simpa using head
    simp

theorem Slotted.grow_inPlace (slotted : Slotted m a b arr vs) (full : arr.nelts = arr.nalloc)
    (answer : m.answers.head?.getD .moved = .inPlace) :
    ∃ m1, growArray arr m = .ok (some { arr with nalloc := arr.nalloc + 1 }) m1 ∧
      Room m m1 b b { arr with nalloc := arr.nalloc + 1 } vs := by
  obtain ⟨slots, found, length, starts⟩ := slotted.stored
  have whole : vs.length = slots.length := by rw [length, ← full, slotted.nelts]
  have read : readBlock b { m with answers := m.answers.tail } =
      .ok slots { m with answers := m.answers.tail } := readBlock_ok found
  rw [growArray, Exec.bind_ok _ (growth_apply m), slotted.block, answer]
  dsimp only
  rw [Exec.bind_ok _ read]
  refine ⟨_, rfl, rfl, slotted.nelts, rfl, ⟨slots ++ [none], Heap.read_write_self found,
    by simp [length], ?_⟩, ?_, .inl rfl, ?_, calm_tail⟩
  · rw [whole, List.take_left, ← starts, whole, List.take_length]
  · have bound := slotted.fits
    dsimp only
    omega
  · exact fun c slots other at_c => (Heap.read_write_ne other).trans at_c

theorem Slotted.grow (slotted : Slotted m a b arr vs) (full : arr.nelts = arr.nalloc)
    (pos : arr.nalloc ≠ 0) :
    (∃ m1 arr1 b1, growArray arr m = .ok (some arr1) m1 ∧ Room m m1 b b1 arr1 vs ∧
        arr1.nalloc ≠ 0) ∨
      (.refused ∈ m.answers ∧
        growArray arr m = .ok none { m with answers := m.answers.tail }) := by
  obtain ⟨slots, found, length, starts⟩ := slotted.stored
  have whole : vs.length = slots.length := by rw [length, ← full, slotted.nelts]
  cases answer : m.answers.head?.getD .moved with
  | refused =>
    rw [growArray, Exec.bind_ok _ (growth_apply m), slotted.block, answer]
    exact .inr ⟨refused_of_head answer, rfl⟩
  | inPlace =>
    obtain ⟨m1, grown, room⟩ := slotted.grow_inPlace full answer
    exact .inl ⟨m1, _, b, grown, room, Nat.succ_ne_zero _⟩
  | moved =>
    rw [growArray, Exec.bind_ok _ (growth_apply m), slotted.block, answer]
    have moved := moveArray_some (m := { m with answers := m.answers.tail }) slotted.block found
    refine .inl ⟨_, _, m.blocks.size, Exec.bind_ok _ moved, ⟨rfl, slotted.nelts, rfl,
      ⟨_, Heap.read_alloc_self, ?_, ?_⟩, ?_, .inr rfl, ?_, calm_tail⟩, ?_⟩
    · simp only [List.length_append, List.length_take, List.length_replicate, length]
      omega
    · rw [← length, List.take_length, whole, List.take_left, ← starts, whole, List.take_length]
    · dsimp only
      rw [whole, length]
      omega
    · exact fun c slots _ at_c => Heap.read_alloc at_c
    · dsimp only
      omega

theorem Room.store {m1 : ArrayMem T} {b1 : Nat} {arr1 : NgxArrayT} (room : Room m m1 b b1 arr1 vs)
    (header : m.arrays.read a = some arr) (x : T) :
    ∃ m2, storeElt ⟨b1, arr1.nelts⟩ x (m1.setArray a { arr1 with nelts := arr1.nelts + 1 }) =
        .ok () m2 ∧ Slotted m2 a b1 { arr1 with nelts := arr1.nelts + 1 } (vs ++ [some x]) ∧
      (∀ c, c ≠ a → m2.arrays.read c = m.arrays.read c) ∧
      (∀ c slots, c ≠ b → m.blocks.read c = some slots → m2.blocks.read c = some slots) ∧
      m2.answers = m1.answers := by
  obtain ⟨slots, found, length, starts⟩ := room.stored
  have inside : arr1.nelts < slots.length := by
    rw [length, room.nelts]
    exact room.room
  have read : readBlock b1 (m1.setArray a { arr1 with nelts := arr1.nelts + 1 }) =
      .ok slots (m1.setArray a { arr1 with nelts := arr1.nelts + 1 }) := readBlock_ok found
  rw [storeElt, Exec.bind_ok _ read, if_pos inside]
  refine ⟨_, rfl, ⟨?_, room.block, ?_, _, Heap.read_write_self found, ?_, ?_⟩, ?_, ?_, rfl⟩
  · refine Heap.read_write_self (b := arr) ?_
    rw [room.arrays]
    exact header
  · simp [room.nelts]
  · simpa using length
  · rw [room.nelts] at inside ⊢
    rw [List.length_append, List.length_singleton, List.take_add_one,
      List.take_set_of_le (Nat.le_refl _), starts]
    simp [inside]
  · intro c other
    refine (Heap.read_write_ne other).trans ?_
    rw [room.arrays]
  · intro c slots' other at_c
    have kept := room.others c slots' other at_c
    have apart : c ≠ b1 := by
      rcases room.place with rfl | rfl
      · exact other
      · exact Nat.ne_of_lt (Heap.read_lt at_c)
    exact (Heap.read_write_ne apart).trans kept

theorem prepare_apply (header : m.arrays.read a = some arr) : NgxArray.prepare (some a) m =
    ((if arr.nelts = arr.nalloc then growArray arr >>= fun room =>
        match room with
        | none => pure none
        | some arr => bumpArray a arr
      else bumpArray a arr) >>= fun tmp => NgxException.requirePtr tmp) m := by
  rw [NgxArray.prepare, Exec.bind_ok _ (NgxArray.get_some a m), Exec.bind_apply, ngxArrayPush,
    Exec.bind_ok _ (readArray_ok header)]
  rfl

theorem bumpArray_some (block : arr.elts = some b) (m : ArrayMem T) : bumpArray a arr m =
    .ok (some ⟨b, arr.nelts⟩) (m.setArray a { arr with nelts := arr.nelts + 1 }) := by
  rw [bumpArray, Exec.bind_ok _ (Exec.modify_apply _ _), block]
  rfl

theorem prepare_room (header : m.arrays.read a = some arr) (room : arr.nelts ≠ arr.nalloc)
    (block : arr.elts = some b) : NgxArray.prepare (some a) m =
      .ok ⟨b, arr.nelts⟩ (m.setArray a { arr with nelts := arr.nelts + 1 }) := by
  rw [prepare_apply header, if_neg room, Exec.bind_ok _ (bumpArray_some block m)]
  rfl

theorem prepare_grown {m1 : ArrayMem T} {arr1 : NgxArrayT} {b1 : Nat}
    (header : m.arrays.read a = some arr) (full : arr.nelts = arr.nalloc)
    (grown : growArray arr m = .ok (some arr1) m1) (block : arr1.elts = some b1) :
    NgxArray.prepare (some a) m =
      .ok ⟨b1, arr1.nelts⟩ (m1.setArray a { arr1 with nelts := arr1.nelts + 1 }) := by
  rw [prepare_apply header, if_pos full]
  exact (Exec.bind_ok _ ((Exec.bind_ok _ grown).trans (bumpArray_some block m1))).trans rfl

theorem Slotted.prepare (slotted : Slotted m a b arr vs) (pos : arr.nalloc ≠ 0) :
    (∃ m1 arr1 b1, NgxArray.prepare (some a) m =
        .ok ⟨b1, arr1.nelts⟩ (m1.setArray a { arr1 with nelts := arr1.nelts + 1 }) ∧
        Room m m1 b b1 arr1 vs ∧ arr1.nalloc ≠ 0) ∨
      (.refused ∈ m.answers ∧ NgxArray.prepare (some a) m =
        .raised ⟨ngxError⟩ { m with answers := m.answers.tail }) := by
  by_cases full : arr.nelts = arr.nalloc
  · obtain ⟨m1, arr1, b1, grown, room, pos1⟩ | ⟨refused, grown⟩ := slotted.grow full pos
    · exact .inl ⟨m1, arr1, b1, prepare_grown slotted.header full grown room.block, room, pos1⟩
    · refine .inr ⟨refused, ?_⟩
      rw [prepare_apply slotted.header, if_pos full, Exec.bind_apply, Exec.bind_ok _ grown]
      rfl
  · have fits := slotted.fits
    have nelts := slotted.nelts
    exact .inl ⟨m, arr, b, prepare_room slotted.header full slotted.block, ⟨slotted.block, nelts,
      rfl, slotted.stored, by omega, .inl rfl, fun _ _ _ => id, id⟩, pos⟩

theorem Slotted.push (slotted : Slotted m a b arr vs) (pos : arr.nalloc ≠ 0) (x : T) :
    (∃ m2 arr2 b2, NgxArray.push (some a) x m = .ok () m2 ∧
        Slotted m2 a b2 arr2 (vs ++ [some x]) ∧
        arr2.nalloc ≠ 0 ∧ (b2 = b ∨ b2 = m.blocks.size) ∧
        (∀ c, c ≠ a → m2.arrays.read c = m.arrays.read c) ∧
        (∀ c slots, c ≠ b → m.blocks.read c = some slots → m2.blocks.read c = some slots) ∧
        (.refused ∉ m.answers → .refused ∉ m2.answers)) ∨
      (.refused ∈ m.answers ∧ NgxArray.push (some a) x m =
        .raised ⟨ngxError⟩ { m with answers := m.answers.tail }) := by
  rw [NgxArray.push]
  obtain ⟨m1, arr1, b1, prepared, room, pos1⟩ | ⟨refused, prepared⟩ := slotted.prepare pos
  · obtain ⟨m2, stored, slotted2, arrays, blocks, answers⟩ := room.store slotted.header x
    refine .inl ⟨m2, _, b1, ?_, slotted2, pos1, room.place, arrays, blocks, ?_⟩
    · rw [Exec.bind_ok _ prepared, stored]
    · rw [answers]
      exact room.calm
  · exact .inr ⟨refused, Exec.bind_raised _ prepared⟩

theorem Filled.push (filled : Filled m a b arr xs) (pos : arr.nalloc ≠ 0) (x : T) :
    (∃ m2 arr2 b2, NgxArray.push (some a) x m = .ok () m2 ∧ Filled m2 a b2 arr2 (xs ++ [x]) ∧
        arr2.nalloc ≠ 0 ∧ (b2 = b ∨ b2 = m.blocks.size) ∧
        (∀ c, c ≠ a → m2.arrays.read c = m.arrays.read c) ∧
        (∀ c slots, c ≠ b → m.blocks.read c = some slots → m2.blocks.read c = some slots) ∧
        (.refused ∉ m.answers → .refused ∉ m2.answers)) ∨
      (.refused ∈ m.answers ∧ NgxArray.push (some a) x m =
        .raised ⟨ngxError⟩ { m with answers := m.answers.tail }) := by
  refine ((slotted_map.mpr filled).push pos x).imp_left ?_
  rintro ⟨m2, arr2, b2, pushed, slotted, frame⟩
  have grown : xs.map some ++ [some x] = (xs ++ [x]).map some := by simp
  rw [grown, slotted_map] at slotted
  exact ⟨m2, arr2, b2, pushed, slotted, frame⟩

end Push

end NgxCpp
