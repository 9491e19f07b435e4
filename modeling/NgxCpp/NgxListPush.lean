import NgxCpp.NgxList

/-! What a push can have done when it returns: it found room in the last part,
or it linked a new part. Later facts about pushes come from these two cases. -/

namespace NgxCpp
open Foundation

variable {T : Type}

namespace ListMem

def Generous (m : ListMem T) : Prop := ∀ granted ∈ m.grants, granted = true

/-- The memory once a part and its array are linked after the last part, with
one element counted in the new part. -/
def linkPart (m : ListMem T) (l : Nat) (hdr : NgxListT) (last : NgxListPart)
    (grants : List Bool) : ListMem T where
  lists := m.lists.write l { hdr with last := m.parts.size }
  parts := ((m.parts.alloc ⟨some m.arrays.size, 0, none⟩).write hdr.last
    { last with next := some m.parts.size }).write m.parts.size ⟨some m.arrays.size, 1, none⟩
  arrays := m.arrays.alloc (List.replicate hdr.nalloc none)
  grants := grants

def setArray (m : ListMem T) (array : Nat) (slots : List (Option T)) : ListMem T :=
  { m with arrays := m.arrays.write array slots }

end ListMem

theorem readList_ok {m : ListMem T} {l : Nat} {hdr : NgxListT} (h : m.lists.read l = some hdr) :
    readList l m = .ok hdr m :=
  Exec.deref_some h

theorem readPart_ok {m : ListMem T} {p : Nat} {part : NgxListPart}
    (h : m.parts.read p = some part) : readPart p m = .ok part m :=
  Exec.deref_some h

theorem palloc_eq (m : ListMem T) :
    palloc m = .ok (granted m.grants) { m with grants := m.grants.tail } := by
  obtain ⟨lists, parts, arrays, grants⟩ := m
  cases grants <;> rfl

theorem ListMem.Generous.granted {m : ListMem T} (generous : m.Generous) :
    NgxCpp.granted m.grants = true := by
  obtain ⟨lists, parts, arrays, grants⟩ := m
  cases grants with
  | nil => rfl
  | cons first rest => exact generous first List.mem_cons_self

theorem ListMem.Generous.tail {m : ListMem T} (generous : m.Generous) :
    ListMem.Generous { m with grants := m.grants.tail } :=
  fun granted member => generous granted (List.mem_of_mem_tail member)

theorem palloc_ok {m m' : ListMem T} {granted : Bool} (h : palloc m = .ok granted m') :
    ∃ grants, m' = { m with grants } ∧ (m.Generous → ∀ g ∈ grants, g = true) := by
  rw [palloc_eq] at h
  obtain ⟨-, rfl⟩ := Outcome.ok.inj h
  exact ⟨m.grants.tail, rfl, ListMem.Generous.tail⟩

theorem storeSlot_eq_ok {m m' : ListMem T} {s : Slot} {x : T} :
    storeSlot s x m = .ok () m' ↔ ∃ slots, m.arrays.read s.array = some slots ∧
      s.index < slots.length ∧ m' = m.setArray s.array (slots.set s.index (some x)) := by
  unfold storeSlot ListMem.store
  cases h : m.arrays.read s.array with
  | none => simp
  | some slots =>
    by_cases inside : s.index < slots.length
    · simp [inside, ListMem.setArray, eq_comm]
    · simp [inside]

theorem storeSlot_ok {m : ListMem T} {s : Slot} {slots : List (Option T)} (x : T)
    (found : m.arrays.read s.array = some slots) (inside : s.index < slots.length) :
    storeSlot s x m = .ok () (m.setArray s.array (slots.set s.index (some x))) :=
  storeSlot_eq_ok.mpr ⟨slots, found, inside, rfl⟩

namespace NgxList

variable {m m' : ListMem T} {l : Nat} {hdr : NgxListT} {last : NgxListPart}

theorem prepare_apply (header : m.lists.read l = some hdr)
    (part : m.parts.read hdr.last = some last) :
    prepare l m = ((if last.nelts = hdr.nalloc then growList l hdr last else bump hdr.last last)
      >>= NgxException.requirePtr) m := by
  simp only [prepare, ngxListPush, readList, readPart, Exec.bind_apply, Exec.deref, header, part]

theorem prepare_room {array : Nat} (header : m.lists.read l = some hdr)
    (part : m.parts.read hdr.last = some last) (room : last.nelts ≠ hdr.nalloc)
    (elts : last.elts = some array) :
    prepare l m = .ok ⟨array, last.nelts⟩
      (m.setPart hdr.last { last with nelts := last.nelts + 1 }) := by
  rw [prepare_apply header part, if_neg room]
  simp [bump, Exec.bind_apply, elts]

theorem prepare_null (header : m.lists.read l = some hdr)
    (part : m.parts.read hdr.last = some last) (room : last.nelts ≠ hdr.nalloc)
    (elts : last.elts = none) :
    prepare l m = if last.nelts = 0 then
        .raised ⟨ngxError⟩ (m.setPart hdr.last { last with nelts := last.nelts + 1 })
      else .undefined := by
  rw [prepare_apply header part, if_neg room]
  split <;> simp [bump, Exec.bind_apply, Exec.undefined, *]

theorem prepare_room_cases {slot : Slot} (header : m.lists.read l = some hdr)
    (part : m.parts.read hdr.last = some last) (room : last.nelts ≠ hdr.nalloc)
    (h : prepare l m = .ok slot m') :
    ∃ array, last.elts = some array ∧ slot = ⟨array, last.nelts⟩ ∧
      m' = m.setPart hdr.last { last with nelts := last.nelts + 1 } := by
  obtain missing | ⟨array, elts⟩ := Option.eq_none_or_eq_some last.elts
  · rw [prepare_null header part room missing] at h
    split at h <;> simp at h
  · rw [prepare_room header part room elts] at h
    obtain ⟨rfl, rfl⟩ := Outcome.ok.inj h
    exact ⟨array, elts, rfl, rfl⟩

variable (m l hdr last) in
theorem growList_eq : growList l hdr last m =
    if granted m.grants then
      if granted m.grants.tail then
        .ok (some ⟨m.arrays.size, 0⟩) (m.linkPart l hdr last m.grants.tail.tail)
      else .ok none { m with grants := m.grants.tail.tail }
    else .ok none { m with grants := m.grants.tail } := by
  rw [growList, Exec.bind_ok _ (palloc_eq m)]
  cases granted m.grants with
  | false => rfl
  | true =>
    rw [if_pos rfl, if_pos rfl, Exec.bind_ok _ (palloc_eq _)]
    cases granted m.grants.tail <;> rfl

theorem prepare_full_eq (header : m.lists.read l = some hdr)
    (part : m.parts.read hdr.last = some last) (full : last.nelts = hdr.nalloc) :
    prepare l m = if granted m.grants then
        if granted m.grants.tail then
          .ok ⟨m.arrays.size, 0⟩ (m.linkPart l hdr last m.grants.tail.tail)
        else .raised ⟨ngxError⟩ { m with grants := m.grants.tail.tail }
      else .raised ⟨ngxError⟩ { m with grants := m.grants.tail } := by
  rw [prepare_apply header part, if_pos full, Exec.bind_apply, growList_eq]
  cases granted m.grants with
  | false => rfl
  | true => cases granted m.grants.tail <;> rfl

theorem prepare_full_cases {slot : Slot} (header : m.lists.read l = some hdr)
    (part : m.parts.read hdr.last = some last) (full : last.nelts = hdr.nalloc)
    (h : prepare l m = .ok slot m') :
    ∃ grants, (m.Generous → ∀ g ∈ grants, g = true) ∧ slot = ⟨m.arrays.size, 0⟩ ∧
      m' = m.linkPart l hdr last grants := by
  rw [prepare_full_eq header part full] at h
  split at h
  · split at h
    · obtain ⟨rfl, rfl⟩ := Outcome.ok.inj h
      exact ⟨m.grants.tail.tail, fun generous => generous.tail.tail, rfl, rfl⟩
    · simp at h
  · simp at h

theorem prepare_header {slot : Slot} (h : prepare l m = .ok slot m') :
    ∃ hdr last, m.lists.read l = some hdr ∧ m.parts.read hdr.last = some last := by
  simp only [prepare, ngxListPush, readList, readPart, Exec.bind_eq_ok, Exec.deref_eq_ok] at h
  obtain ⟨_, _, ⟨hdr, _, ⟨header, rfl⟩, last, _, ⟨part, rfl⟩, -⟩, -⟩ := h
  exact ⟨hdr, last, header, part⟩

def pushRoom (m : ListMem T) (hdr : NgxListT) (last : NgxListPart) (array : Nat)
    (slots : List (Option T)) (x : T) : ListMem T :=
  (m.setPart hdr.last { last with nelts := last.nelts + 1 }).setArray array
    (slots.set last.nelts (some x))

def pushLink (m : ListMem T) (l : Nat) (hdr : NgxListT) (last : NgxListPart)
    (grants : List Bool) (x : T) : ListMem T :=
  (m.linkPart l hdr last grants).setArray m.arrays.size
    ((List.replicate hdr.nalloc none).set 0 (some x))

theorem pushLink_new {x : T} (part : m.parts.read hdr.last = some last) (grants : List Bool) :
    (pushLink m l hdr last grants x).parts.read m.parts.size =
      some ⟨some m.arrays.size, 1, none⟩ := by
  have old := Nat.ne_of_gt (Heap.read_lt part)
  exact Heap.read_write_self ((Heap.read_write_ne old).trans Heap.read_alloc_self)

theorem pushLink_last {x : T} (part : m.parts.read hdr.last = some last) (grants : List Bool) :
    (pushLink m l hdr last grants x).parts.read hdr.last =
      some { last with next := some m.parts.size } := by
  have old := Nat.ne_of_lt (Heap.read_lt part)
  exact (Heap.read_write_ne old).trans (Heap.read_write_self (Heap.read_alloc part))

theorem push_cases {x : T} (header : m.lists.read l = some hdr)
    (part : m.parts.read hdr.last = some last) (h : push l x m = .ok () m') :
    (∃ array slots, last.nelts ≠ hdr.nalloc ∧ last.elts = some array ∧
        m.arrays.read array = some slots ∧ last.nelts < slots.length ∧
        m' = pushRoom m hdr last array slots x) ∨
      (∃ grants, last.nelts = hdr.nalloc ∧ 0 < hdr.nalloc ∧
        (m.Generous → ∀ g ∈ grants, g = true) ∧ m' = pushLink m l hdr last grants x) := by
  rw [push, Exec.bind_eq_ok] at h
  obtain ⟨slot, m1, prepared, stored⟩ := h
  obtain ⟨slots, found, inside, rfl⟩ := storeSlot_eq_ok.mp stored
  by_cases full : last.nelts = hdr.nalloc
  · obtain ⟨grants, kept, rfl, rfl⟩ := prepare_full_cases header part full prepared
    obtain rfl : List.replicate hdr.nalloc none = slots := by
      simpa [ListMem.linkPart] using found
    exact .inr ⟨grants, full, by simpa using inside, kept, rfl⟩
  · obtain ⟨array, elts, rfl, rfl⟩ := prepare_room_cases header part full prepared
    exact .inl ⟨array, slots, full, elts, found, inside, rfl⟩

theorem push_room {x : T} {array : Nat} {slots : List (Option T)}
    (header : m.lists.read l = some hdr) (part : m.parts.read hdr.last = some last)
    (room : last.nelts ≠ hdr.nalloc) (elts : last.elts = some array)
    (found : m.arrays.read array = some slots) (inside : last.nelts < slots.length) :
    push l x m = .ok () (pushRoom m hdr last array slots x) := by
  rw [push, Exec.bind_ok _ (prepare_room header part room elts)]
  exact storeSlot_ok x found inside

theorem push_full_apply {x : T} (header : m.lists.read l = some hdr)
    (part : m.parts.read hdr.last = some last) (full : last.nelts = hdr.nalloc) :
    push l x m = if granted m.grants then
        if granted m.grants.tail then
          storeSlot ⟨m.arrays.size, 0⟩ x (m.linkPart l hdr last m.grants.tail.tail)
        else .raised ⟨ngxError⟩ { m with grants := m.grants.tail.tail }
      else .raised ⟨ngxError⟩ { m with grants := m.grants.tail } := by
  rw [push, Exec.bind_apply, prepare_full_eq header part full]
  cases granted m.grants with
  | false => rfl
  | true => cases granted m.grants.tail <;> rfl

theorem push_full_eq {x : T} (header : m.lists.read l = some hdr)
    (part : m.parts.read hdr.last = some last) (full : last.nelts = hdr.nalloc)
    (pos : 0 < hdr.nalloc) : push l x m =
      if granted m.grants then
        if granted m.grants.tail then .ok () (pushLink m l hdr last m.grants.tail.tail x)
        else .raised ⟨ngxError⟩ { m with grants := m.grants.tail.tail }
      else .raised ⟨ngxError⟩ { m with grants := m.grants.tail } := by
  have fresh : (m.linkPart l hdr last m.grants.tail.tail).arrays.read m.arrays.size =
      some (List.replicate hdr.nalloc none) := Heap.read_alloc_self
  have stored : storeSlot ⟨m.arrays.size, 0⟩ x (m.linkPart l hdr last m.grants.tail.tail) =
      .ok () (pushLink m l hdr last m.grants.tail.tail x) :=
    storeSlot_ok x fresh (by simpa using pos)
  rw [push_full_apply header part full, stored]

theorem push_full_total {x : T} (header : m.lists.read l = some hdr)
    (part : m.parts.read hdr.last = some last) (full : last.nelts = hdr.nalloc)
    (pos : 0 < hdr.nalloc) : (∃ m', push l x m = .ok () m') ∨
      ∃ grants, push l x m = .raised ⟨ngxError⟩ { m with grants } := by
  rw [push_full_eq header part full pos]
  split
  · split
    · exact .inl ⟨_, rfl⟩
    · exact .inr ⟨_, rfl⟩
  · exact .inr ⟨_, rfl⟩

theorem push_full {x : T} (header : m.lists.read l = some hdr)
    (part : m.parts.read hdr.last = some last) (full : last.nelts = hdr.nalloc)
    (pos : 0 < hdr.nalloc) (generous : m.Generous) :
    push l x m = .ok () (pushLink m l hdr last m.grants.tail.tail x) := by
  rw [push_full_eq header part full pos, if_pos generous.granted, if_pos generous.tail.granted]

end NgxList

end NgxCpp
