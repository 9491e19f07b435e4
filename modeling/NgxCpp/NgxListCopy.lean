import NgxCpp.NgxListSequence

/-! A list header copied by value, with its `last` pointer repaired when it
pointed into the header. The copy has a first part of its own and shares every
later part and all arrays. What follows says when pushes on one of the two lists
leave the other alone. -/

namespace NgxCpp
open Foundation

variable {T : Type}

/-- The memory once the header `hdr`, with its first part, is copied. -/
def ListMem.copied (m : ListMem T) (hdr : NgxListT) (part : NgxListPart) (grants : List Bool) :
    ListMem T where
  lists := m.lists.alloc ⟨m.parts.size, if hdr.last = hdr.part then m.parts.size else hdr.last,
    hdr.nalloc⟩
  parts := m.parts.alloc part
  arrays := m.arrays
  grants := grants

def ListShape.copied (sh : ListShape T) (c : Nat) : ListShape T :=
  match sh.front with
  | [] => ⟨⟨c, c, sh.hdr.nalloc⟩, [], { sh.tail with addr := c }⟩
  | v :: rest => ⟨{ sh.hdr with part := c }, { v with addr := c } :: rest, sh.tail⟩

/-- Pushes on list `p` leave the list `c` alone: they write no part of `c`, and no
slot that `c` counts. -/
def ListShape.Behind (p c : ListShape T) : Prop :=
  ∀ w ∈ c.views, p.tail.addr ≠ w.addr ∧
    (p.tail.array = w.array → w.elems.length ≤ p.tail.elems.length)

namespace ListShape.Behind

variable {p c : ListShape T} {x : T} {part array : Nat}

theorem grow (behind : ListShape.Behind p c) : ListShape.Behind (p.grow x) c := by
  intro w member
  refine ⟨(behind w member).1, fun same => ?_⟩
  have bound := (behind w member).2 same
  simp only [ListShape.grow, List.length_append, List.length_singleton]
  omega

theorem extend (fresh : ∀ w ∈ c.views, part ≠ w.addr ∧ array ≠ w.array) :
    ListShape.Behind (p.extend part array x) c :=
  fun w member => ⟨(fresh w member).1, fun same => absurd same (fresh w member).2⟩

theorem of_grow (behind : ListShape.Behind p c) (other : p.tail.array ≠ c.tail.array) :
    ListShape.Behind p (c.grow x) := by
  intro w member
  rcases ListShape.mem_views.mp member with inFront | rfl
  · exact behind w (List.mem_append_left _ inFront)
  · exact ⟨(behind c.tail (Represents.tail_mem c)).1, fun same => absurd same other⟩

theorem of_extend (behind : ListShape.Behind p c) (addr : p.tail.addr ≠ part)
    (other : p.tail.array ≠ array) : ListShape.Behind p (c.extend part array x) := by
  intro w member
  rcases ListShape.mem_views.mp member with old | rfl
  · exact behind w old
  · exact ⟨addr, fun same => absurd same other⟩

end ListShape.Behind

/-- Neither list disturbs the other, and if their last arrays are one, it is full. -/
structure ListShape.Split (p c : ListShape T) : Prop where
  left : ListShape.Behind p c
  right : ListShape.Behind c p
  full : p.tail.array = c.tail.array →
    p.tail.elems.length = p.hdr.nalloc ∧ c.tail.elems.length = c.hdr.nalloc

theorem ListShape.Split.symm {p c : ListShape T} (split : ListShape.Split p c) :
    ListShape.Split c p :=
  ⟨split.right, split.left, fun same => (split.full same.symm).symm⟩

section Push

variable {m : ListMem T} {l l' : Nat} {p c : ListShape T}

theorem Represents.keep_push {m' : ListMem T} {x : T} (rep : Represents m l p)
    (other : Represents m l' c) (different : l' ≠ l) (behind : ListShape.Behind p c)
    (h : NgxList.push l x m = .ok () m') : Represents m' l' c := by
  obtain ⟨last, slots, part, elts, nelts, -⟩ := rep.last_part
  refine other.of_push (NgxList.push_frame rep.header part h) different
    (fun w member => ?_) fun w member same => ?_
  · rw [rep.last]
    exact Ne.symm (behind w member).1
  · rw [nelts]
    exact (behind w member).2 (Option.some.inj (elts.symm.trans same))

theorem Represents.push_behind (rep : Represents m l p) (other : Represents m l' c)
    (different : l' ≠ l) (behind : ListShape.Behind p c) (generous : m.Generous) (x : T) :
    ∃ m' p', NgxList.push l x m = .ok () m' ∧ m'.Generous ∧ Represents m' l p' ∧
      Represents m' l' c ∧ p'.elems = p.elems ++ [x] ∧ ListShape.Behind p' c ∧
      (ListShape.Split p c → ListShape.Split p' c) := by
  obtain ⟨m', pushed, generous'⟩ := rep.push_generous generous x
  have kept := rep.keep_push other different behind pushed
  rcases rep.push_cases pushed with ⟨room, grown⟩ | extended
  · refine ⟨m', _, pushed, generous', grown, kept, p.elems_grow x, behind.grow, fun split => ?_⟩
    have distinct : p.tail.array ≠ c.tail.array := fun same => room (split.full same).1
    exact ⟨behind.grow, split.right.of_grow distinct.symm, fun same => absurd same distinct⟩
  · have fresh := other.fresh
    have last := fresh _ (tail_mem c)
    refine ⟨m', _, pushed, generous', extended, kept, p.elems_extend _ _ x, .extend fresh,
      fun split => ?_⟩
    exact ⟨.extend fresh, split.right.of_extend last.1.symm last.2.symm,
      fun same => absurd same last.2⟩

end Push

inductive Side where
  | parent
  | child
deriving Repr, DecidableEq

namespace Side

def list (l l' : Nat) : Side → Nat
  | parent => l
  | child => l'

def own (side : Side) (adds : List (Side × T)) : List T :=
  (adds.filter fun add => add.1 = side).map Prod.snd

theorem own_cons (side : Side) (add : Side × T) (adds : List (Side × T)) :
    side.own (add :: adds) = (if add.1 = side then [add.2] else []) ++ side.own adds := by
  by_cases same : add.1 = side <;> simp [own, same]

end Side

def pushes (l l' : Nat) : List (Side × T) → Ngx (ListMem T) Unit :=
  Exec.each fun add => NgxList.push (add.1.list l l') add.2

section Apart

variable {m : ListMem T} {l l' : Nat} {p c : ListShape T}

theorem pushes_split (rep : Represents m l p) (rep' : Represents m l' c) (different : l ≠ l')
    (split : ListShape.Split p c) (generous : m.Generous) (adds : List (Side × T)) :
    ∃ m', pushes l l' adds m = .ok () m' ∧ m'.shown l = some (p.elems ++ Side.parent.own adds) ∧
      m'.shown l' = some (c.elems ++ Side.child.own adds) := by
  induction adds generalizing m p c with
  | nil => exact ⟨m, rfl, by simp [Side.own, rep.shown], by simp [Side.own, rep'.shown]⟩
  | cons add adds ih =>
    obtain ⟨side, x⟩ := add
    cases side with
    | parent =>
      obtain ⟨m', p', pushed, generous', grown, kept, elems, -, keep⟩ :=
        rep.push_behind rep' different.symm split.left generous x
      obtain ⟨m'', done, shown, shown'⟩ := ih grown kept (keep split) generous'
      have first : pushes l l' ((.parent, x) :: adds) m = pushes l l' adds m' :=
        Exec.each_cons_ok pushed
      refine ⟨m'', first.trans done, ?_, ?_⟩
      · rw [shown, elems, Side.own_cons]
        simp
      · rw [shown', Side.own_cons]
        simp
    | child =>
      obtain ⟨m', c', pushed, generous', grown, kept, elems, -, keep⟩ :=
        rep'.push_behind rep different split.right generous x
      obtain ⟨m'', done, shown, shown'⟩ := ih kept grown (keep split.symm).symm generous'
      have first : pushes l l' ((.child, x) :: adds) m = pushes l l' adds m' :=
        Exec.each_cons_ok pushed
      refine ⟨m'', first.trans done, ?_, ?_⟩
      · rw [shown, Side.own_cons]
        simp
      · rw [shown', elems, Side.own_cons]
        simp

theorem each_push_behind (rep : Represents m l p) (rep' : Represents m l' c) (different : l' ≠ l)
    (behind : ListShape.Behind p c) (generous : m.Generous) (xs : List T) :
    ∃ m', Exec.each (NgxList.push l) xs m = .ok () m' ∧ m'.shown l = some (p.elems ++ xs) ∧
      m'.shown l' = some c.elems := by
  induction xs generalizing m p with
  | nil => exact ⟨m, rfl, by simp [rep.shown], rep'.shown⟩
  | cons x xs ih =>
    obtain ⟨m', p', pushed, generous', grown, kept, elems, still, -⟩ :=
      rep.push_behind rep' different behind generous x
    obtain ⟨m'', done, shown, shown'⟩ := ih grown kept still generous'
    refine ⟨m'', (Exec.each_cons_ok pushed).trans done, ?_, shown'⟩
    rw [shown, elems, List.append_assoc]
    rfl

theorem pushes_one_side {side : Side} {adds : List (Side × T)}
    (only : ∀ add ∈ adds, add.1 = side) :
    pushes l l' adds = Exec.each (NgxList.push (side.list l l')) (side.own adds) := by
  induction adds with
  | nil => rfl
  | cons add adds ih =>
    have here := only add (by simp)
    have rest := ih fun a member => only a (by simp [member])
    rw [Side.own_cons, if_pos here, List.singleton_append, Exec.each, ← rest, ← here]
    rfl

end Apart

section Copied

variable {m : ListMem T} {l : Nat} {sh : ListShape T} {part : NgxListPart}

theorem Represents.of_copied (rep : Represents m l sh) (part : NgxListPart) (grants : List Bool) :
    Represents (m.copied sh.hdr part grants) l sh := by
  refine rep.frame ?_ (fun v member => ?_) fun v member slots stored => ⟨slots, stored, rfl, rfl⟩
  · exact Heap.read_alloc_of_ne (Nat.ne_of_lt (Heap.read_lt rep.header))
  · exact Heap.read_alloc_of_ne (Ne.symm (rep.fresh v member).1)

theorem ListShape.elems_copied (sh : ListShape T) (c : Nat) : (sh.copied c).elems = sh.elems := by
  obtain ⟨hdr, front, tail⟩ := sh
  cases front <;> simp [copied, elems, elemsOf, views]

theorem ListShape.views_copied {c : Nat} {v : PartView T} {after : List (PartView T)}
    (shape : sh.views = v :: after) : (sh.copied c).views = { v with addr := c } :: after := by
  obtain ⟨hdr, front, tail⟩ := sh
  cases front with
  | nil =>
    obtain ⟨rfl, rfl⟩ := List.cons.inj shape
    rfl
  | cons w rest =>
    obtain ⟨rfl, rfl⟩ := List.cons.inj shape
    rfl

theorem Represents.last_eq_part_iff (rep : Represents m l sh) :
    sh.hdr.last = sh.hdr.part ↔ sh.front = [] := by
  obtain ⟨v, after, shape, start, -⟩ := rep.first_part
  rw [rep.last, start]
  cases front : sh.front with
  | nil =>
    rw [ListShape.views, front] at shape
    simp [(List.cons.inj shape).1]
  | cons w rest =>
    rw [ListShape.views, front] at shape
    have first : w = v := (List.cons.inj shape).1
    have different := rep.front_addr (v := w) (by simp [front])
    simp only [reduceCtorEq, iff_false]
    rw [← first]
    exact different.symm

theorem Represents.copied (rep : Represents m l sh) (found : m.parts.read sh.hdr.part = some part)
    (grants : List Bool) :
    Represents (m.copied sh.hdr part grants) m.lists.size (sh.copied m.parts.size) := by
  obtain ⟨v, after, shape, start, first⟩ := rep.first_part
  obtain rfl := Option.some.inj (found.symm.trans first)
  have views := ListShape.views_copied (c := m.parts.size) shape
  have old := rep.of_copied ⟨some v.array, v.elems.length, (after.map PartView.addr).head?⟩ grants
  have new : (m.copied sh.hdr ⟨some v.array, v.elems.length,
      (after.map PartView.addr).head?⟩ grants).parts.read m.parts.size =
        some ⟨some v.array, v.elems.length, (after.map PartView.addr).head?⟩ :=
    Heap.read_alloc_self
  have header : (sh.copied m.parts.size).hdr = ⟨m.parts.size,
      if sh.hdr.last = sh.hdr.part then m.parts.size else sh.hdr.last, sh.hdr.nalloc⟩ := by
    simp only [rep.last_eq_part_iff]
    cases front : sh.front <;> simp [ListShape.copied, front]
  constructor
  · rw [header]
    exact Heap.read_alloc_self
  · rw [views, header]
    have linked := old.linked
    rw [shape, List.map_cons, start] at linked
    cases linked with
    | cons _ rest =>
      refine .cons ?_ rest
      rw [ListMem.nextPart, new, ← rest.head_eq]
      rfl
  · intro w member
    rw [views] at member
    rcases List.mem_cons.mp member with rfl | later
    · obtain ⟨_, slots, _, _, _, stored, starts⟩ := rep.held v (by simp [shape])
      exact ⟨_, slots, new, rfl, rfl, stored, starts⟩
    · exact old.held w (by simp [shape, later])
  · rw [header]
    cases front : sh.front with
    | nil => simp [ListShape.copied, front, rep.last_eq_part_iff]
    | cons w rest =>
      have several : ¬ sh.hdr.last = sh.hdr.part := by simp [rep.last_eq_part_iff, front]
      simp only [if_neg several]
      simp [ListShape.copied, front, rep.last]
  · intro w member
    rw [header]
    rw [views] at member
    rcases List.mem_cons.mp member with rfl | later
    · exact rep.room v (by simp [shape])
    · exact rep.room w (by simp [shape, later])
  · have distinct := rep.distinct
    rw [shape] at distinct
    rw [views]
    exact distinct
  · rcases rep.filled with single | filled
    · exact .inl (by simp [ListShape.copied, single])
    · right
      intro w member
      rw [views] at member
      rcases List.mem_cons.mp member with rfl | later
      · exact filled v (by simp [shape])
      · exact filled w (by simp [shape, later])
  · rw [header]
    exact rep.nalloc_pos

theorem Represents.copied_behind (rep : Represents m l sh) (single : sh.front = []) :
    ListShape.Behind sh (sh.copied m.parts.size) ∧
      ListShape.Behind (sh.copied m.parts.size) sh := by
  have fresh := (rep.fresh sh.tail (tail_mem sh)).1
  constructor
  · intro w member
    simp only [ListShape.copied, single, ListShape.views, List.nil_append] at member
    obtain rfl := List.mem_singleton.mp member
    exact ⟨fresh.symm, fun _ => Nat.le_refl _⟩
  · intro w member
    simp only [ListShape.views, single, List.nil_append] at member
    obtain rfl := List.mem_singleton.mp member
    simp only [ListShape.copied, single]
    exact ⟨fresh, fun _ => Nat.le_refl _⟩

theorem Represents.copied_split (rep : Represents m l sh) (single : sh.front = [])
    (full : sh.tail.elems.length = sh.hdr.nalloc) :
    ListShape.Split sh (sh.copied m.parts.size) where
  left := (rep.copied_behind single).1
  right := (rep.copied_behind single).2
  full _ := by simp only [ListShape.copied, single, full, and_self]

end Copied

end NgxCpp
