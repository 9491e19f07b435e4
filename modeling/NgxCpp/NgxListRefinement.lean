import NgxCpp.NgxListTraversal
import NgxCpp.Foundation.Runs

/-! Lists as sequences. Any number of lists share a memory without sharing a
part or an array; creating, pushing, clearing, reinitialising and merging act on
them as on sequences, and the observers read the sequences back. -/

namespace NgxCpp
open Foundation

variable {T S : Type}

/-- The memory with list `l` empty, its first part with a new array of `n` slots. -/
def ListMem.withArray (m : ListMem T) (l : Nat) (hdr : NgxListT) (n : Nat) (grants : List Bool) :
    ListMem T where
  lists := m.lists.write l { hdr with last := hdr.part, nalloc := n }
  parts := m.parts.write hdr.part ⟨some m.arrays.size, 0, none⟩
  arrays := m.arrays.alloc (List.replicate n none)
  grants := grants

theorem ngxListInit_eq {m : ListMem T} {l : Nat} {hdr : NgxListT} {part : NgxListPart} (n : Nat)
    (header : m.lists.read l = some hdr) (found : m.parts.read hdr.part = some part) :
    ngxListInit l n m =
      if granted m.grants then .ok ngxOk (m.withArray l hdr n m.grants.tail)
      else .ok ngxError { m with
        grants := m.grants.tail, parts := m.parts.write hdr.part { part with elts := none } } := by
  rw [ngxListInit, Exec.bind_ok _ (readList_ok header), Exec.bind_ok _ (readPart_ok found),
    Exec.bind_ok _ (palloc_eq m)]
  cases granted m.grants <;> rfl

theorem ngxListInit_ok {m m' : ListMem T} {l n : Nat} {hdr : NgxListT} {part : NgxListPart}
    (header : m.lists.read l = some hdr) (found : m.parts.read hdr.part = some part)
    (h : ngxListInit l n m = .ok ngxOk m') : ∃ grants, m' = m.withArray l hdr n grants := by
  rw [ngxListInit_eq n header found] at h
  split at h
  · exact ⟨_, (Outcome.ok.inj h).2.symm⟩
  · exact absurd (Outcome.ok.inj h).1 (by decide)

def ListMem.withList (m : ListMem T) (n : Nat) (grants : List Bool) : ListMem T where
  lists := (m.lists.alloc ⟨m.parts.size, m.parts.size, 0⟩).write m.lists.size
    ⟨m.parts.size, m.parts.size, n⟩
  parts := (m.parts.alloc ⟨none, 0, none⟩).write m.parts.size ⟨some m.arrays.size, 0, none⟩
  arrays := m.arrays.alloc (List.replicate n none)
  grants := grants

theorem ngxListCreate_ok {m m' : ListMem T} {l n : Nat}
    (h : ngxListCreate n m = .ok (some l) m') :
    l = m.lists.size ∧ ∃ grants, m' = m.withList n grants := by
  rw [ngxListCreate, Exec.bind_eq_ok] at h
  obtain ⟨granted, m1, asked, h⟩ := h
  obtain ⟨grants, rfl, -⟩ := palloc_ok asked
  cases granted with
  | false => simp at h
  | true =>
    simp only [if_true, newPart, newList, Exec.bind_eq_ok, Outcome.ok.injEq] at h
    obtain ⟨_, _, ⟨rfl, rfl⟩, _, _, ⟨rfl, rfl⟩, rc, m2, init, done⟩ := h
    by_cases good : rc = ngxOk
    · subst good
      rw [if_pos rfl] at done
      obtain ⟨same, rfl⟩ := Outcome.ok.inj done
      obtain rfl := Option.some.inj same
      obtain ⟨grants', rfl⟩ := ngxListInit_ok Heap.read_alloc_self Heap.read_alloc_self init
      exact ⟨rfl, grants', rfl⟩
    · rw [if_neg good] at done
      simp at done

def ListShape.Apart (sh sh' : ListShape T) : Prop :=
  ∀ v ∈ sh.views, ∀ w ∈ sh'.views, v.addr ≠ w.addr ∧ v.array ≠ w.array

namespace ListShape.Apart

variable {sh sh' : ListShape T}

theorem symm (apart : ListShape.Apart sh sh') : ListShape.Apart sh' sh := fun v inside w member =>
  ⟨Ne.symm (apart w member v inside).1, Ne.symm (apart w member v inside).2⟩

theorem grow {x : T} (apart : ListShape.Apart sh sh') : ListShape.Apart (sh.grow x) sh' := by
  intro v inside w member
  rcases ListShape.mem_views.mp inside with inFront | rfl
  · exact apart v (List.mem_append_left _ inFront) w member
  · exact apart sh.tail (Represents.tail_mem sh) w member

theorem extend {x : T} {p a : Nat} (apart : ListShape.Apart sh sh')
    (fresh : ∀ w ∈ sh'.views, p ≠ w.addr ∧ a ≠ w.array) :
    ListShape.Apart (sh.extend p a x) sh' := by
  intro v inside w member
  rcases ListShape.mem_views.mp inside with old | rfl
  · exact apart v old w member
  · exact fresh w member

end ListShape.Apart

structure Shaped (m : ListMem T) (shapes : List (ListShape T)) : Prop where
  size : shapes.length = m.lists.size
  rep : ∀ (l : Nat) (sh : ListShape T), shapes[l]? = some sh → Represents m l sh
  apart : ∀ (l l' : Nat) (sh sh' : ListShape T), shapes[l]? = some sh → shapes[l']? = some sh' →
    l ≠ l' → ListShape.Apart sh sh'

namespace Shaped

variable {m m' : ListMem T} {shapes : List (ListShape T)} {l : Nat} {sh sh' : ListShape T}
  {x : T}

theorem shape_of_header {hdr : NgxListT} (shaped : Shaped m shapes)
    (header : m.lists.read l = some hdr) : ∃ sh, shapes[l]? = some sh ∧ Represents m l sh := by
  have inside : l < shapes.length := by rw [shaped.size]; exact Heap.read_lt header
  exact ⟨_, List.getElem?_eq_getElem inside, shaped.rep l _ (List.getElem?_eq_getElem inside)⟩

theorem set_cases {l' : Nat} (found : (shapes.set l sh')[l']? = some sh) :
    (l' = l ∧ sh = sh') ∨ (l' ≠ l ∧ shapes[l']? = some sh) := by
  by_cases same : l = l'
  · subst same
    rw [List.getElem?_set] at found
    simp only [if_true] at found
    split at found
    · exact .inl ⟨rfl, (Option.some.inj found).symm⟩
    · simp at found
  · rw [List.getElem?_set_ne same] at found
    exact .inr ⟨Ne.symm same, found⟩

theorem append_cases {l' : Nat} (found : (shapes ++ [sh'])[l']? = some sh) :
    (l' = shapes.length ∧ sh = sh') ∨ shapes[l']? = some sh := by
  by_cases old : l' < shapes.length
  · rw [List.getElem?_append_left old] at found
    exact .inr found
  · have inside := (List.getElem?_eq_some_iff.mp found).1
    simp only [List.length_append, List.length_singleton] at inside
    have last : l' = shapes.length := by omega
    subst last
    rw [List.getElem?_append_right (Nat.le_refl _), Nat.sub_self] at found
    exact .inl ⟨rfl, (Option.some.inj found).symm⟩

theorem set (shaped : Shaped m shapes) (size : m'.lists.size = m.lists.size)
    (rep : Represents m' l sh')
    (others : ∀ (l' : Nat) (sh : ListShape T), l' ≠ l → shapes[l']? = some sh →
      Represents m' l' sh ∧ ListShape.Apart sh' sh) :
    Shaped m' (shapes.set l sh') where
  size := by rw [List.length_set, shaped.size, size]
  rep l' sh found := by
    rcases set_cases found with ⟨rfl, rfl⟩ | ⟨different, found⟩
    · exact rep
    · exact (others l' sh different found).1
  apart l1 l2 sh1 sh2 found1 found2 distinct := by
    rcases set_cases found1 with ⟨rfl, rfl⟩ | ⟨different1, old1⟩
    · rcases set_cases found2 with ⟨rfl, rfl⟩ | ⟨different2, old2⟩
      · exact absurd rfl distinct
      · exact (others l2 sh2 different2 old2).2
    · rcases set_cases found2 with ⟨rfl, rfl⟩ | ⟨different2, old2⟩
      · exact (others l1 sh1 different1 old1).2.symm
      · exact shaped.apart l1 l2 sh1 sh2 old1 old2 distinct

theorem keep_push (shaped : Shaped m shapes) (at_l : shapes[l]? = some sh)
    (h : NgxList.push l x m = .ok () m') {l' : Nat} {other : ListShape T} (different : l' ≠ l)
    (at_l' : shapes[l']? = some other) : Represents m' l' other := by
  have rep := shaped.rep l sh at_l
  have apart := shaped.apart l l' sh other at_l at_l' (Ne.symm different)
  obtain ⟨last, slots, part, elts, -⟩ := rep.last_part
  refine (shaped.rep l' other at_l').of_push (NgxList.push_frame rep.header part h) different
    (fun v member => ?_) fun v member same => ?_
  · rw [rep.last]
    exact Ne.symm (apart _ (Represents.tail_mem sh) v member).1
  · have shared := Option.some.inj (elts.symm.trans same)
    exact absurd shared (apart _ (Represents.tail_mem sh) v member).2

theorem push (shaped : Shaped m shapes) (at_l : shapes[l]? = some sh)
    (h : NgxList.push l x m = .ok () m') :
    ∃ sh', Shaped m' (shapes.set l sh') ∧ sh'.elems = sh.elems ++ [x] := by
  have rep := shaped.rep l sh at_l
  obtain ⟨last, slots, part, -⟩ := rep.last_part
  have size : m'.lists.size = m.lists.size := by
    obtain ⟨_, _, -, -, -, -, rfl⟩ | ⟨_, -, -, -, rfl⟩ := NgxList.push_cases rep.header part h
    · rfl
    · exact Heap.size_write
  obtain ⟨-, grown⟩ | extended := rep.push_cases h
  · refine ⟨_, shaped.set size grown fun l' other different at_l' => ?_, sh.elems_grow x⟩
    refine ⟨shaped.keep_push at_l h different at_l', ?_⟩
    exact (shaped.apart l l' sh other at_l at_l' (Ne.symm different)).grow
  · refine ⟨_, shaped.set size extended fun l' other different at_l' => ?_, sh.elems_extend _ _ x⟩
    refine ⟨shaped.keep_push at_l h different at_l', ?_⟩
    exact (shaped.apart l l' sh other at_l at_l' (Ne.symm different)).extend
      (shaped.rep l' other at_l').fresh

/-- A list that is made empty in its first part, with an array of its own or a
fresh one, stays apart from the others. -/
theorem reset {p a n : Nat} {slots : List (Option T)} (shaped : Shaped m shapes)
    (at_l : shapes[l]? = some sh) (first : p = sh.hdr.part)
    (own : (∃ v ∈ sh.views, a = v.array) ∨ a = m.arrays.size)
    (lists : m'.lists = m.lists.write l ⟨p, p, n⟩)
    (parts : m'.parts = m.parts.write p ⟨some a, 0, none⟩)
    (arrays : ∀ b slots, m.arrays.read b = some slots → m'.arrays.read b = some slots)
    (stored : m'.arrays.read a = some slots) (length : slots.length = n) (pos : 0 < n) :
    Shaped m' (shapes.set l ⟨⟨p, p, n⟩, [], ⟨p, a, []⟩⟩) := by
  have rep := shaped.rep l sh at_l
  obtain ⟨v, after, shape, start, part⟩ := rep.first_part
  have inside : v ∈ sh.views := by simp [shape]
  subst first
  have empty : Represents m' l ⟨⟨sh.hdr.part, sh.hdr.part, n⟩, [], ⟨sh.hdr.part, a, []⟩⟩ := by
    refine Represents.of_empty ?_ ?_ stored length pos
    · rw [lists, Heap.read_write_self rep.header]
    · rw [parts, Heap.read_write_self part]
  refine shaped.set (by rw [lists, Heap.size_write]) empty fun l' other different at_l' => ?_
  have apart := shaped.apart l l' sh other at_l at_l' (Ne.symm different)
  have rep' := shaped.rep l' other at_l'
  refine ⟨rep'.frame ?_ (fun w member => ?_) fun w member found at_w => ?_, ?_⟩
  · rw [lists, Heap.read_write_ne different]
  · rw [parts, Heap.read_write_ne (start ▸ Ne.symm (apart v inside w member).1)]
  · exact ⟨found, arrays _ _ at_w, rfl, rfl⟩
  · intro w only u member
    obtain rfl := List.mem_singleton.mp only
    refine ⟨start ▸ (apart v inside u member).1, ?_⟩
    rcases own with ⟨mine, inMine, rfl⟩ | rfl
    · exact (apart mine inMine u member).2
    · obtain ⟨found, at_u, -⟩ := rep'.room u member
      exact Nat.ne_of_gt (Heap.read_lt at_u)

theorem clear (shaped : Shaped m shapes) (at_l : shapes[l]? = some sh)
    (h : NgxList.clear l m = .ok () m') :
    ∃ sh', Shaped m' (shapes.set l sh') ∧ sh'.elems = [] := by
  have rep := shaped.rep l sh at_l
  obtain ⟨v, after, shape, start, part⟩ := rep.first_part
  obtain ⟨slots, stored, length⟩ := rep.room v (by simp [shape])
  rw [NgxList.clear, Exec.bind_ok _ (readList_ok rep.header),
    Exec.bind_ok _ (readPart_ok part)] at h
  obtain ⟨-, rfl⟩ := Outcome.ok.inj h
  exact ⟨_, shaped.reset at_l rfl (.inl ⟨v, by simp [shape], rfl⟩) rfl rfl (fun _ _ found => found)
    stored length rep.nalloc_pos, rfl⟩

theorem reinit {n : Nat} (shaped : Shaped m shapes) (at_l : shapes[l]? = some sh)
    (h : NgxList.reinit l n m = .ok () m') :
    ∃ sh', Shaped m' (shapes.set l sh') ∧ sh'.elems = [] := by
  have rep := shaped.rep l sh at_l
  obtain ⟨v, after, shape, start, part⟩ := rep.first_part
  rw [NgxList.reinit, NgxList.reshape, Exec.bind_ok _ (readList_ok rep.header),
    Exec.bind_eq_ok] at h
  obtain ⟨rc, m1, init, required⟩ := h
  obtain ⟨rfl, rfl⟩ := NgxException.requireCode_eq_ok.mp required
  obtain ⟨grants, rfl⟩ := ngxListInit_ok rep.header part init
  have pos : 0 < (if n = 0 then sh.hdr.nalloc else n) := by
    have old := rep.nalloc_pos
    split <;> omega
  exact ⟨_, shaped.reset at_l rfl (.inr rfl) rfl rfl (fun _ _ => Heap.read_alloc)
    Heap.read_alloc_self List.length_replicate pos, rfl⟩

theorem append (shaped : Shaped m shapes) (size : m'.lists.size = m.lists.size + 1)
    (rep : Represents m' m.lists.size sh')
    (others : ∀ (l' : Nat) (sh : ListShape T), shapes[l']? = some sh →
      Represents m' l' sh ∧ ListShape.Apart sh' sh) : Shaped m' (shapes ++ [sh']) where
  size := by rw [List.length_append, shaped.size, size]; rfl
  rep l' sh found := by
    rcases append_cases found with ⟨rfl, rfl⟩ | old
    · exact shaped.size ▸ rep
    · exact (others l' sh old).1
  apart l1 l2 sh1 sh2 found1 found2 distinct := by
    rcases append_cases found1 with ⟨rfl, rfl⟩ | old1
    · rcases append_cases found2 with ⟨rfl, rfl⟩ | old2
      · exact absurd rfl distinct
      · exact (others l2 sh2 old2).2
    · rcases append_cases found2 with ⟨rfl, rfl⟩ | old2
      · exact (others l1 sh1 old1).2.symm
      · exact shaped.apart l1 l2 sh1 sh2 old1 old2 distinct

theorem keep_create {n : Nat} (shaped : Shaped m shapes) (grants : List Bool) {l' : Nat}
    {other : ListShape T} (at_l' : shapes[l']? = some other) :
    Represents (m.withList n grants) l' other ∧
      ∀ w ∈ other.views, m.parts.size ≠ w.addr ∧ m.arrays.size ≠ w.array := by
  have rep := shaped.rep l' other at_l'
  have old := Nat.ne_of_lt (Heap.read_lt rep.header)
  refine ⟨rep.frame ?_ (fun w member => ?_) fun w member slots at_w => ?_, rep.fresh⟩
  · exact (Heap.read_write_ne old).trans (Heap.read_alloc_of_ne old)
  · have other := Ne.symm (rep.fresh w member).1
    exact (Heap.read_write_ne other).trans (Heap.read_alloc_of_ne other)
  · exact ⟨slots, Heap.read_alloc at_w, rfl, rfl⟩

theorem create {n : Nat} (shaped : Shaped m shapes) (pos : 0 < n)
    (h : NgxList.create n m = .ok l m') :
    ∃ sh', Shaped m' (shapes ++ [sh']) ∧ sh'.elems = [] := by
  rw [NgxList.create, Exec.bind_eq_ok] at h
  obtain ⟨found, m1, created, required⟩ := h
  cases found with
  | none => simp at required
  | some l' =>
    obtain ⟨rfl, rfl⟩ := Outcome.ok.inj required
    obtain ⟨rfl, grants, rfl⟩ := ngxListCreate_ok created
    have empty := Represents.of_empty (m := m.withList n grants)
      (Heap.read_write_self Heap.read_alloc_self) (Heap.read_write_self Heap.read_alloc_self)
      Heap.read_alloc_self List.length_replicate pos
    refine ⟨_, shaped.append (by simp [ListMem.withList]) empty fun l' other at_l' => ?_, rfl⟩
    obtain ⟨kept, fresh⟩ := shaped.keep_create (n := n) grants at_l'
    refine ⟨kept, fun v only w member => ?_⟩
    obtain rfl := List.mem_singleton.mp only
    exact fresh w member

end Shaped

theorem merge_visitor {m : ListMem T} {l : Nat} {v : Slot} {x : T} (shown : m.load v = some x) :
    (NgxList.prepare l >>= fun slot => loadSlot v >>= fun y => storeSlot slot y) m =
      NgxList.push l x m := by
  rw [NgxList.push, Exec.bind_apply, Exec.bind_apply]
  cases prepared : NgxList.prepare l m with
  | ok slot m' =>
    have kept : m'.load v = some x := by
      obtain ⟨hdr, last, header, part⟩ := NgxList.prepare_header prepared
      by_cases full : last.nelts = hdr.nalloc
      · obtain ⟨grants, -, -, rfl⟩ := NgxList.prepare_full_cases header part full prepared
        obtain ⟨slots, stored, value⟩ := Option.bind_eq_some_iff.mp shown
        exact Option.bind_eq_some_iff.mpr ⟨slots, Heap.read_alloc stored, value⟩
      · obtain ⟨array, -, -, rfl⟩ := NgxList.prepare_room_cases header part full prepared
        exact shown
    exact Exec.bind_ok _ (Exec.deref_some kept)
  | raised e m' => rfl
  | undefined => rfl
  | exhausted => rfl

end NgxCpp
