import NgxCpp.NgxListPush

/-! What a list in memory looks like: the chain of its parts, each with its
array and the elements it counts. `Represents` is the representation invariant;
a push keeps it, and keeps that of every list it does not write into. -/

namespace NgxCpp
open Foundation

variable {T : Type}

structure PartView (T : Type) where
  addr : Nat
  array : Nat
  elems : List T

namespace PartView

/-- The part at the view's address counts the view's elements, and its array
starts with them. -/
def Held (m : ListMem T) (v : PartView T) : Prop :=
  ∃ part slots, m.parts.read v.addr = some part ∧ part.elts = some v.array ∧
    part.nelts = v.elems.length ∧ m.arrays.read v.array = some slots ∧
    slots.take v.elems.length = v.elems.map some

end PartView

/-- The elements of consecutive parts, and where each of them lies. -/
def elemsOf (views : List (PartView T)) : List T := views.flatMap PartView.elems

def slotsOf (views : List (PartView T)) : List Slot :=
  views.flatMap fun v => (List.range v.elems.length).map (Slot.mk v.array)

structure ListShape (T : Type) where
  hdr : NgxListT
  front : List (PartView T)
  tail : PartView T

namespace ListShape

def views (sh : ListShape T) : List (PartView T) := sh.front ++ [sh.tail]

def elems (sh : ListShape T) : List T := elemsOf sh.views

theorem mem_views {sh : ListShape T} {v : PartView T} :
    v ∈ sh.views ↔ v ∈ sh.front ∨ v = sh.tail := by
  simp [views]

def grow (sh : ListShape T) (x : T) : ListShape T :=
  { sh with tail := { sh.tail with elems := sh.tail.elems ++ [x] } }

def extend (sh : ListShape T) (part array : Nat) (x : T) : ListShape T :=
  { hdr := { sh.hdr with last := part }, front := sh.views, tail := ⟨part, array, [x]⟩ }

@[simp] theorem elems_grow (sh : ListShape T) (x : T) : (sh.grow x).elems = sh.elems ++ [x] := by
  simp [elems, elemsOf, views, grow]

@[simp] theorem elems_extend (sh : ListShape T) (part array : Nat) (x : T) :
    (sh.extend part array x).elems = sh.elems ++ [x] := by
  simp [elems, elemsOf, views, extend]

end ListShape

/-- List `l` has this shape. Every array has room for `nalloc` elements, parts
before the last are not empty, and no two parts share an array. -/
structure Represents (m : ListMem T) (l : Nat) (sh : ListShape T) : Prop where
  header : m.lists.read l = some sh.hdr
  linked : Linked m.nextPart (some sh.hdr.part) (sh.views.map PartView.addr)
  held : ∀ v ∈ sh.views, v.Held m
  last : sh.hdr.last = sh.tail.addr
  room : ∀ v ∈ sh.views, ∃ slots, m.arrays.read v.array = some slots ∧
    slots.length = sh.hdr.nalloc
  distinct : (sh.views.map PartView.array).Nodup
  filled : sh.front = [] ∨ ∀ v ∈ sh.views, v.elems ≠ []
  nalloc_pos : 0 < sh.hdr.nalloc

/-- What a push on list `l`, with this header and last part, leaves alone. -/
structure PushFrame (m m' : ListMem T) (l : Nat) (hdr : NgxListT) (last : NgxListPart) :
    Prop where
  lists : ∀ l', l' ≠ l → m'.lists.read l' = m.lists.read l'
  parts : ∀ p part, p ≠ hdr.last → m.parts.read p = some part → m'.parts.read p = some part
  arrays : ∀ a slots, m.arrays.read a = some slots → ∃ slots',
    m'.arrays.read a = some slots' ∧ slots'.length = slots.length ∧
      ∀ k, (last.elts = some a → k ≤ last.nelts) → slots'.take k = slots.take k

namespace NgxList

variable {m m' : ListMem T} {l : Nat} {hdr : NgxListT} {last : NgxListPart} {x : T}

theorem pushRoom_frame {array : Nat} {slots : List (Option T)} (elts : last.elts = some array)
    (stored : m.arrays.read array = some slots) :
    PushFrame m (pushRoom m hdr last array slots x) l hdr last where
  lists _ _ := rfl
  parts _ _ different found := (Heap.read_write_ne different).trans found
  arrays a found stored' := by
    by_cases same : a = array
    · subst same
      obtain rfl := Option.some.inj (stored.symm.trans stored')
      refine ⟨_, Heap.read_write_self stored, List.length_set .., fun k bound => ?_⟩
      rw [List.take_set_of_le (bound elts)]
    · exact ⟨found, (Heap.read_write_ne same).trans stored', rfl, fun _ _ => rfl⟩

theorem pushLink_frame (grants : List Bool) :
    PushFrame m (pushLink m l hdr last grants x) l hdr last where
  lists _ different := Heap.read_write_ne different
  parts p found different stored := by
    have old := Nat.ne_of_lt (Heap.read_lt stored)
    exact (Heap.read_write_ne old).trans
      ((Heap.read_write_ne different).trans (Heap.read_alloc stored))
  arrays a found stored := by
    have old := Nat.ne_of_lt (Heap.read_lt stored)
    exact ⟨found, (Heap.read_write_ne old).trans (Heap.read_alloc stored), rfl, fun _ _ => rfl⟩

theorem push_frame (header : m.lists.read l = some hdr)
    (part : m.parts.read hdr.last = some last) (h : push l x m = .ok () m') :
    PushFrame m m' l hdr last := by
  obtain ⟨array, slots, -, elts, stored, -, rfl⟩ | ⟨grants, -, -, -, rfl⟩ :=
    push_cases header part h
  · exact pushRoom_frame elts stored
  · exact pushLink_frame grants

end NgxList

namespace PushFrame

variable {m m' : ListMem T} {l : Nat} {hdr : NgxListT} {last : NgxListPart} {v : PartView T}

theorem held (frame : PushFrame m m' l hdr last) (held : v.Held m) (other : v.addr ≠ hdr.last)
    (below : last.elts = some v.array → v.elems.length ≤ last.nelts) : v.Held m' := by
  obtain ⟨part, slots, found, elts, nelts, stored, starts⟩ := held
  obtain ⟨slots', stored', -, same⟩ := frame.arrays _ _ stored
  exact ⟨part, slots', frame.parts _ _ other found, elts, nelts, stored',
    (same _ below).trans starts⟩

end PushFrame

namespace Represents

variable {m m' : ListMem T} {l : Nat} {sh : ListShape T} {x : T}

/-- A list is kept by whatever keeps its header, its parts, the sizes of its
arrays and the elements they show. -/
theorem frame {l : Nat} {sh : ListShape T} (rep : Represents m l sh)
    (header : m'.lists.read l = m.lists.read l)
    (parts : ∀ v ∈ sh.views, m'.parts.read v.addr = m.parts.read v.addr)
    (arrays : ∀ v ∈ sh.views, ∀ slots, m.arrays.read v.array = some slots →
      ∃ slots', m'.arrays.read v.array = some slots' ∧ slots'.length = slots.length ∧
        slots'.take v.elems.length = slots.take v.elems.length) :
    Represents m' l sh where
  header := header.trans rep.header
  linked := by
    refine rep.linked.frame fun p member => ?_
    obtain ⟨v, inside, rfl⟩ := List.mem_map.mp member
    exact congrArg (Option.map NgxListPart.next) (parts v inside)
  held v member := by
    obtain ⟨part, slots, found, elts, nelts, stored, starts⟩ := rep.held v member
    obtain ⟨slots', stored', -, same⟩ := arrays v member slots stored
    exact ⟨part, slots', (parts v member).trans found, elts, nelts, stored', same.trans starts⟩
  last := rep.last
  room v member := by
    obtain ⟨slots, stored, length⟩ := rep.room v member
    obtain ⟨slots', stored', length', -⟩ := arrays v member slots stored
    exact ⟨slots', stored', length'.trans length⟩
  distinct := rep.distinct
  filled := rep.filled
  nalloc_pos := rep.nalloc_pos

theorem grants (rep : Represents m l sh) (grants : List Bool) :
    Represents { m with grants } l sh :=
  ⟨rep.header, rep.linked, rep.held, rep.last, rep.room, rep.distinct, rep.filled, rep.nalloc_pos⟩

/-- A push keeps every other list that neither contains the part it changes nor
shows slots of its array beyond what that part counts. -/
theorem of_push {l' : Nat} {hdr : NgxListT} {last : NgxListPart} (rep : Represents m l' sh)
    (frame : PushFrame m m' l hdr last) (different : l' ≠ l)
    (other : ∀ v ∈ sh.views, v.addr ≠ hdr.last)
    (below : ∀ v ∈ sh.views, last.elts = some v.array → v.elems.length ≤ last.nelts) :
    Represents m' l' sh := by
  refine rep.frame (frame.lists l' different) (fun v member => ?_) fun v member slots stored => ?_
  · obtain ⟨part, _, found, -⟩ := rep.held v member
    rw [found, frame.parts _ _ (other v member) found]
  · obtain ⟨slots', stored', length, same⟩ := frame.arrays _ _ stored
    exact ⟨slots', stored', length, same _ (below v member)⟩

theorem front_addr (rep : Represents m l sh) {v : PartView T} (member : v ∈ sh.front) :
    v.addr ≠ sh.tail.addr := by
  have distinct := rep.linked.nodup
  rw [ListShape.views, List.map_append, List.nodup_append] at distinct
  exact distinct.2.2 _ (List.mem_map_of_mem member) _ (by simp)

theorem front_ne_last (rep : Represents m l sh) {v : PartView T} (member : v ∈ sh.front) :
    v.addr ≠ sh.hdr.last := by
  rw [rep.last]
  exact rep.front_addr member

theorem apart (rep : Represents m l sh) {v : PartView T} (member : v ∈ sh.front) :
    v.array ≠ sh.tail.array := by
  have distinct := rep.distinct
  rw [ListShape.views, List.map_append, List.nodup_append] at distinct
  exact distinct.2.2 _ (List.mem_map_of_mem member) _ (by simp)

theorem tail_mem (sh : ListShape T) : sh.tail ∈ sh.views := by
  simp [ListShape.views]

theorem fresh (rep : Represents m l sh) :
    ∀ v ∈ sh.views, m.parts.size ≠ v.addr ∧ m.arrays.size ≠ v.array := by
  intro v member
  obtain ⟨_, _, found, _, _, stored, _⟩ := rep.held v member
  exact ⟨Nat.ne_of_gt (Heap.read_lt found), Nat.ne_of_gt (Heap.read_lt stored)⟩

theorem last_part (rep : Represents m l sh) :
    ∃ last slots, m.parts.read sh.hdr.last = some last ∧ last.elts = some sh.tail.array ∧
      last.nelts = sh.tail.elems.length ∧ m.arrays.read sh.tail.array = some slots ∧
      slots.take sh.tail.elems.length = sh.tail.elems.map some ∧
      slots.length = sh.hdr.nalloc := by
  obtain ⟨last, slots, found, elts, nelts, stored, starts⟩ := rep.held _ (tail_mem sh)
  obtain ⟨slots', stored', length⟩ := rep.room _ (tail_mem sh)
  obtain rfl := Option.some.inj (stored.symm.trans stored')
  exact ⟨last, slots, by rw [rep.last]; exact found, elts, nelts, stored, starts, length⟩

theorem tail_fits (rep : Represents m l sh) : sh.tail.elems.length ≤ sh.hdr.nalloc := by
  obtain ⟨_, slots, -, -, -, -, starts, length⟩ := rep.last_part
  have width := congrArg List.length starts
  simp only [List.length_take, List.length_map] at width
  omega

theorem grow {last : NgxListPart} {slots : List (Option T)} (rep : Represents m l sh)
    (part : m.parts.read sh.hdr.last = some last) (elts : last.elts = some sh.tail.array)
    (nelts : last.nelts = sh.tail.elems.length)
    (stored : m.arrays.read sh.tail.array = some slots)
    (starts : slots.take sh.tail.elems.length = sh.tail.elems.map some)
    (inside : last.nelts < slots.length) (length : slots.length = sh.hdr.nalloc) :
    Represents (NgxList.pushRoom m sh.hdr last sh.tail.array slots x) l (sh.grow x) where
  header := rep.header
  linked := by
    have addrs : (sh.grow x).views.map PartView.addr = sh.views.map PartView.addr := by
      simp [ListShape.views, ListShape.grow]
    rw [addrs]
    refine rep.linked.frame fun p _ => ?_
    by_cases same : p = sh.hdr.last
    · subst same
      have written : (NgxList.pushRoom m sh.hdr last sh.tail.array slots x).parts.read
          sh.hdr.last = some { last with nelts := last.nelts + 1 } :=
        Heap.read_write_self part
      rw [ListMem.nextPart, ListMem.nextPart, written, part]
      rfl
    · exact congrArg (Option.map NgxListPart.next) (Heap.read_write_ne same)
  held v member := by
    rcases ListShape.mem_views.mp member with inFront | rfl
    · obtain ⟨part', slots', found, elts', nelts', stored', starts'⟩ :=
        rep.held v (List.mem_append_left _ inFront)
      exact ⟨part', slots', (Heap.read_write_ne (rep.front_ne_last inFront)).trans found, elts',
        nelts', (Heap.read_write_ne (rep.apart inFront)).trans stored', starts'⟩
    · refine ⟨{ last with nelts := last.nelts + 1 }, slots.set last.nelts (some x), ?_, elts, ?_,
        Heap.read_write_self stored, ?_⟩
      · rw [rep.last] at part
        exact (congrArg (fun p => (m.parts.write p _).read sh.tail.addr) rep.last).trans
          (Heap.read_write_self part)
      · simp [ListShape.grow, nelts]
      · rw [nelts] at inside ⊢
        simp only [ListShape.grow, List.length_append, List.length_singleton]
        rw [List.take_add_one, List.take_set_of_le (Nat.le_refl _), starts]
        simp [inside]
  last := rep.last
  room v member := by
    rcases ListShape.mem_views.mp member with inFront | rfl
    · obtain ⟨slots', stored', length'⟩ := rep.room v (List.mem_append_left _ inFront)
      exact ⟨slots', (Heap.read_write_ne (rep.apart inFront)).trans stored', length'⟩
    · exact ⟨_, Heap.read_write_self stored, (List.length_set ..).trans length⟩
  distinct := by
    have arrays : (sh.grow x).views.map PartView.array = sh.views.map PartView.array := by
      simp [ListShape.views, ListShape.grow]
    rw [arrays]
    exact rep.distinct
  filled := by
    refine rep.filled.imp id fun filled v member => ?_
    rcases ListShape.mem_views.mp member with inFront | rfl
    · exact filled v (List.mem_append_left _ inFront)
    · simp [ListShape.grow]
  nalloc_pos := rep.nalloc_pos

theorem extend {last : NgxListPart} (rep : Represents m l sh) (grants : List Bool)
    (part : m.parts.read sh.hdr.last = some last) (elts : last.elts = some sh.tail.array)
    (nelts : last.nelts = sh.tail.elems.length) (full : last.nelts = sh.hdr.nalloc) :
    Represents (NgxList.pushLink m l sh.hdr last grants x) l
      (sh.extend m.parts.size m.arrays.size x) where
  header := Heap.read_write_self rep.header
  linked := by
    have addrs : (sh.extend m.parts.size m.arrays.size x).views.map PartView.addr =
        sh.front.map PartView.addr ++ sh.tail.addr :: [m.parts.size] := by
      simp [ListShape.views, ListShape.extend]
    have before := rep.linked
    rw [ListShape.views, List.map_append] at before
    rw [addrs]
    refine before.append (.cons (q := none) ?_ .nil) (fun p member => ?_) ?_
    · rw [ListMem.nextPart, NgxList.pushLink_new part]
      rfl
    · obtain ⟨v, inFront, rfl⟩ := List.mem_map.mp member
      obtain ⟨part', _, found, -⟩ := rep.held v (List.mem_append_left _ inFront)
      rw [ListMem.nextPart, ListMem.nextPart, found,
        (NgxList.pushLink_frame (l := l) grants).parts _ _ (rep.front_ne_last inFront) found]
    · rw [ListMem.nextPart, ← rep.last, NgxList.pushLink_last part]
      rfl
  held v member := by
    rcases ListShape.mem_views.mp member with old | rfl
    · rcases ListShape.mem_views.mp old with inFront | rfl
      · refine (NgxList.pushLink_frame (l := l) grants).held (rep.held v old)
          (rep.front_ne_last inFront) ?_
        exact fun same => absurd (Option.some.inj (same.symm.trans elts)) (rep.apart inFront)
      · obtain ⟨_, slots, _, _, _, stored, starts⟩ := rep.held _ old
        refine ⟨{ last with next := some m.parts.size }, slots, ?_, elts, nelts, ?_, starts⟩
        · exact rep.last ▸ NgxList.pushLink_last part grants
        · have fresh := Nat.ne_of_lt (Heap.read_lt stored)
          exact (Heap.read_write_ne fresh).trans (Heap.read_alloc stored)
    · refine ⟨_, _, NgxList.pushLink_new part grants, rfl, rfl,
        Heap.read_write_self Heap.read_alloc_self, ?_⟩
      obtain ⟨k, width⟩ := Nat.exists_eq_add_of_lt rep.nalloc_pos
      simp [ListShape.extend, width, List.replicate_succ]
  last := rfl
  room v member := by
    rcases ListShape.mem_views.mp member with old | rfl
    · obtain ⟨slots, stored, length⟩ := rep.room v old
      have fresh := Nat.ne_of_lt (Heap.read_lt stored)
      exact ⟨slots, (Heap.read_write_ne fresh).trans (Heap.read_alloc stored), length⟩
    · exact ⟨_, Heap.read_write_self Heap.read_alloc_self, by simp [ListShape.extend]⟩
  distinct := by
    have arrays : (sh.extend m.parts.size m.arrays.size x).views.map PartView.array =
        sh.views.map PartView.array ++ [m.arrays.size] := by
      simp [ListShape.views, ListShape.extend]
    rw [arrays, List.nodup_append]
    refine ⟨rep.distinct, by simp, fun a old b new => ?_⟩
    obtain ⟨v, member, rfl⟩ := List.mem_map.mp old
    obtain rfl := List.mem_singleton.mp new
    exact Ne.symm (rep.fresh v member).2
  filled := by
    right
    intro v member
    rcases ListShape.mem_views.mp member with old | rfl
    · rcases rep.filled with single | filled
      · -- the one part there was is full, and `nalloc` is positive
        obtain rfl : v = sh.tail := by simpa [ListShape.extend, ListShape.views, single] using old
        intro none
        have pos := rep.nalloc_pos
        rw [← full, nelts, none] at pos
        exact absurd pos (Nat.lt_irrefl 0)
      · exact filled v old
    · simp [ListShape.extend]
  nalloc_pos := rep.nalloc_pos

theorem push_cases (rep : Represents m l sh) (h : NgxList.push l x m = .ok () m') :
    (sh.tail.elems.length ≠ sh.hdr.nalloc ∧ Represents m' l (sh.grow x)) ∨
      Represents m' l (sh.extend m.parts.size m.arrays.size x) := by
  obtain ⟨last, slots, part, elts, nelts, stored, starts, length⟩ := rep.last_part
  obtain ⟨array, slots', room, elts', stored', inside, rfl⟩ | ⟨grants, full, -, -, rfl⟩ :=
    NgxList.push_cases rep.header part h
  · obtain rfl := Option.some.inj (elts.symm.trans elts')
    obtain rfl := Option.some.inj (stored.symm.trans stored')
    exact .inl ⟨nelts ▸ room, rep.grow part elts nelts stored starts inside length⟩
  · exact .inr (rep.extend grants part elts nelts full)

theorem push (rep : Represents m l sh) (h : NgxList.push l x m = .ok () m') :
    ∃ sh', Represents m' l sh' ∧ sh'.elems = sh.elems ++ [x] := by
  obtain ⟨-, grown⟩ | extended := rep.push_cases h
  · exact ⟨_, grown, sh.elems_grow x⟩
  · exact ⟨_, extended, sh.elems_extend _ _ x⟩

theorem push_generous (rep : Represents m l sh) (generous : m.Generous) (x : T) :
    ∃ m', NgxList.push l x m = .ok () m' ∧ m'.Generous := by
  obtain ⟨last, slots, part, elts, nelts, stored, starts, length⟩ := rep.last_part
  by_cases full : last.nelts = sh.hdr.nalloc
  · refine ⟨_, NgxList.push_full rep.header part full rep.nalloc_pos generous, ?_⟩
    exact fun g member => generous g (List.mem_of_mem_tail (List.mem_of_mem_tail member))
  · have fits := rep.tail_fits
    exact ⟨_, NgxList.push_room rep.header part full elts stored (by omega), generous⟩

theorem push_total (rep : Represents m l sh) (x : T) :
    (∃ m', NgxList.push l x m = .ok () m') ∨
      ∃ grants, NgxList.push l x m = .raised ⟨ngxError⟩ { m with grants } := by
  obtain ⟨last, slots, part, elts, nelts, stored, starts, length⟩ := rep.last_part
  by_cases full : last.nelts = sh.hdr.nalloc
  · exact NgxList.push_full_total rep.header part full rep.nalloc_pos
  · have fits := rep.tail_fits
    exact .inl ⟨_, NgxList.push_room rep.header part full elts stored (by omega)⟩

theorem of_empty {p a n : Nat} {slots : List (Option T)} (header : m.lists.read l = some ⟨p, p, n⟩)
    (part : m.parts.read p = some ⟨some a, 0, none⟩) (stored : m.arrays.read a = some slots)
    (length : slots.length = n) (pos : 0 < n) :
    Represents m l ⟨⟨p, p, n⟩, [], ⟨p, a, []⟩⟩ where
  header := header
  linked := .cons (by rw [ListMem.nextPart, part]; rfl) .nil
  held v member := by
    obtain rfl := List.mem_singleton.mp member
    exact ⟨_, slots, part, rfl, rfl, stored, by simp⟩
  last := rfl
  room v member := by
    obtain rfl := List.mem_singleton.mp member
    exact ⟨slots, stored, length⟩
  distinct := List.nodup_singleton _
  filled := .inl rfl
  nalloc_pos := pos

end Represents

end NgxCpp
