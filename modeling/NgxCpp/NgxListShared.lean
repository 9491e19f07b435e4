import NgxCpp.NgxListCopy

/-! How a list and a copy of its header disturb each other. When the list had
later parts the two always show the same elements; when its only part had room
both write the next element into the same slot. -/

namespace NgxCpp
open Foundation

variable {T : Type}

namespace NgxList

variable {m m' : ListMem T} {l : Nat} {hdr : NgxListT} {x : T}

theorem push_own_header (header : m.lists.read l = some hdr) (h : push l x m = .ok () m') :
    ∃ last, m'.lists.read l = some { hdr with last } ∧ (last = hdr.last ∨ last = m.parts.size) := by
  obtain ⟨slot, mid, prepared, -⟩ := Exec.bind_eq_ok.mp h
  obtain ⟨hdr', last, header', part⟩ := prepare_header prepared
  obtain rfl := Option.some.inj (header'.symm.trans header)
  obtain ⟨array, slots, -, -, -, -, rfl⟩ | ⟨grants, -, -, -, rfl⟩ := push_cases header part h
  · exact ⟨hdr'.last, header, .inl rfl⟩
  · exact ⟨m.parts.size, Heap.read_write_self header, .inr rfl⟩

/-- What a push does to a part: only the last part changes, and it keeps its array
and what it counts. -/
theorem push_cell {q : Nat} {cell : NgxListPart} (header : m.lists.read l = some hdr)
    (h : push l x m = .ok () m') (found : m.parts.read q = some cell) :
    ∃ cell', m'.parts.read q = some cell' ∧ cell'.elts = cell.elts ∧ cell.nelts ≤ cell'.nelts ∧
      (q ≠ hdr.last → cell' = cell) := by
  obtain ⟨slot, mid, prepared, -⟩ := Exec.bind_eq_ok.mp h
  obtain ⟨hdr', last, header', part⟩ := prepare_header prepared
  obtain rfl := Option.some.inj (header'.symm.trans header)
  by_cases own : q = hdr'.last
  · subst own
    obtain rfl := Option.some.inj (found.symm.trans part)
    obtain ⟨array, slots, -, -, -, -, rfl⟩ | ⟨grants, -, -, -, rfl⟩ := push_cases header part h
    · exact ⟨_, Heap.read_write_self part, rfl, Nat.le_succ _, fun other => absurd rfl other⟩
    · exact ⟨_, pushLink_last part grants, rfl, Nat.le_refl _, fun other => absurd rfl other⟩
  · exact ⟨cell, (push_frame header part h).parts q cell own found, rfl, Nat.le_refl _,
      fun _ => rfl⟩

theorem push_other_header {l' : Nat} (different : l' ≠ l) (h : push l x m = .ok () m') :
    m'.lists.read l' = m.lists.read l' := by
  obtain ⟨slot, mid, prepared, -⟩ := Exec.bind_eq_ok.mp h
  obtain ⟨hdr, last, header, part⟩ := prepare_header prepared
  exact (push_frame header part h).lists l' different

theorem push_first_room {last : NgxListPart} (header : m.lists.read l = some hdr)
    (part : m.parts.read hdr.last = some last) (room : last.nelts ≠ hdr.nalloc)
    (h : push l x m = .ok () m') :
    m'.parts.read hdr.last = some { last with nelts := last.nelts + 1 } := by
  obtain ⟨array, slots, -, -, -, -, rfl⟩ | ⟨grants, full, -⟩ := push_cases header part h
  · exact Heap.read_write_self part
  · exact absurd full room

theorem record_ok {slot : Slot} {y : T} (shown : m.load slot = some y) (ys : List T) :
    record slot (m, ys) = .ok () (m, ys ++ [y]) := by
  have read : Exec.view Prod.fst (loadSlot slot) (m, ys) = .ok y (m, ys) :=
    Exec.view_ok (Exec.deref_some shown)
  rw [record, visitor, Exec.bind_ok _ read]
  rfl

theorem record_eq_ok {slot : Slot} {ys : List T} {w : ListMem T × List T}
    (h : record slot (m, ys) = .ok () w) : ∃ y, m.load slot = some y ∧ w = (m, ys ++ [y]) := by
  obtain ⟨y, mid, read, logged⟩ := Exec.bind_eq_ok.mp h
  obtain ⟨s, found, rfl⟩ := Exec.zoom_eq_ok.mp read
  obtain ⟨shown, rfl⟩ := Exec.deref_eq_ok.mp found
  exact ⟨y, shown, ((Outcome.ok.inj logged).2).symm⟩

theorem visitFrom_record {p a i : Nat} {part : NgxListPart} (found : m.parts.read p = some part)
    (fuel : Nat) (ys : List T) :
    visitFrom Prod.fst record (fuel + 1) ⟨some p, some a, i⟩ (m, ys) =
      if part.nelts = 0 then .ok () (m, ys)
      else match m.load ⟨a, i⟩ with
        | none => .undefined
        | some y =>
          if i + 1 < part.nelts then
            visitFrom Prod.fst record fuel ⟨some p, some a, i + 1⟩ (m, ys ++ [y])
          else match part.next with
            | none => visitFrom Prod.fst record fuel ⟨none, none, 0⟩ (m, ys ++ [y])
            | some q => match m.parts.read q with
              | none => .undefined
              | some next =>
                visitFrom Prod.fst record fuel ⟨some q, next.elts, 0⟩ (m, ys ++ [y]) := by
  have valid : Exec.view Prod.fst (NgxListIterator.valid ⟨some p, some a, i⟩) (m, ys) =
      .ok (part.nelts != 0) (m, ys) :=
    Exec.view_ok (Exec.bind_ok _ (readPart_ok found))
  have slot : Exec.view Prod.fst (NgxListIterator.dereference ⟨some p, some a, i⟩) (m, ys) =
      .ok ⟨a, i⟩ (m, ys) := Exec.view_ok rfl
  rw [visitFrom, Exec.bind_ok _ valid]
  by_cases none : part.nelts = 0
  · simp [none]
  · rw [if_pos (by simpa using none), if_neg none, Exec.bind_ok _ slot]
    cases shown : m.load ⟨a, i⟩ with
    | none => simp [Exec.bind_apply, record, visitor, Exec.view, Exec.zoom, loadSlot, Exec.deref,
        shown]
    | some y =>
      rw [Exec.bind_ok _ (record_ok shown ys), Exec.bind_apply]
      simp only [Exec.view, Exec.zoom, NgxListIterator.increment]
      rw [Exec.bind_ok _ (readPart_ok found)]
      by_cases more : i + 1 < part.nelts
      · simp [more]
      · rw [if_neg more, if_neg more]
        cases part.next with
        | none => rfl
        | some q =>
          cases next : m.parts.read q with
          | none => simp [Exec.bind_apply, readPart, Exec.deref, next]
          | some _ => simp [Exec.bind_apply, readPart, Exec.deref, next]

theorem visitFrom_twin {p c : Nat} {part : NgxListPart} (found : m.parts.read p = some part)
    (found' : m.parts.read c = some part) (fuel a i : Nat) (ys : List T) :
    visitFrom Prod.fst record fuel ⟨some p, some a, i⟩ (m, ys) =
      visitFrom Prod.fst record fuel ⟨some c, some a, i⟩ (m, ys) := by
  induction fuel generalizing i ys with
  | zero => rfl
  | succ fuel ih =>
    rw [visitFrom_record found, visitFrom_record found']
    simp only [ih]

theorem visitFrom_prefix {fuel : Nat} {it : NgxListIterator} {ys : List T} {w : ListMem T × List T}
    (h : visitFrom Prod.fst record fuel it (m, ys) = .ok () w) : ∃ zs, w = (m, ys ++ zs) := by
  induction fuel generalizing it ys with
  | zero => simp [visitFrom, Exec.exhausted] at h
  | succ fuel ih =>
    rw [visitFrom, Exec.bind_eq_ok] at h
    obtain ⟨more, mid, tested, h⟩ := h
    obtain ⟨-, rfl⟩ := Exec.view_eq_ok.mp tested
    cases more with
    | false => exact ⟨[], by rw [List.append_nil]; exact (Outcome.ok.inj h).2.symm⟩
    | true =>
      rw [if_pos rfl, Exec.bind_eq_ok] at h
      obtain ⟨slot, mid, pointed, h⟩ := h
      obtain ⟨-, rfl⟩ := Exec.view_eq_ok.mp pointed
      obtain ⟨_, mid, recorded, h⟩ := Exec.bind_eq_ok.mp h
      obtain ⟨y, -, rfl⟩ := record_eq_ok recorded
      obtain ⟨next, mid, moved, h⟩ := Exec.bind_eq_ok.mp h
      obtain ⟨-, rfl⟩ := Exec.view_eq_ok.mp moved
      obtain ⟨zs, rfl⟩ := ih h
      exact ⟨y :: zs, by rw [List.append_assoc]; rfl⟩

theorem visitFrom_first {p a i k : Nat} {part : NgxListPart} {fuel : Nat} {ys : List T}
    {w : ListMem T × List T} (found : m.parts.read p = some part) (after : i ≤ k)
    (counted : k < part.nelts)
    (h : visitFrom Prod.fst record fuel ⟨some p, some a, i⟩ (m, ys) = .ok () w) :
    w.2[ys.length + (k - i)]? = m.load ⟨a, k⟩ := by
  induction fuel generalizing i ys with
  | zero => simp [visitFrom, Exec.exhausted] at h
  | succ fuel ih =>
    have counts : part.nelts ≠ 0 := by omega
    rw [visitFrom_record found, if_neg counts] at h
    cases shown : m.load ⟨a, i⟩ with
    | none => simp [shown] at h
    | some y =>
      simp only [shown] at h
      by_cases here : i = k
      · subst here
        have kept : ∃ zs, w = (m, ys ++ [y] ++ zs) := by
          by_cases more : i + 1 < part.nelts
          · rw [if_pos more] at h
            exact visitFrom_prefix h
          · rw [if_neg more] at h
            cases linked : part.next with
            | none =>
              simp only [linked] at h
              exact visitFrom_prefix h
            | some q =>
              cases next : m.parts.read q with
              | none => simp [linked, next] at h
              | some cell =>
                simp only [linked, next] at h
                exact visitFrom_prefix h
        obtain ⟨zs, rfl⟩ := kept
        simp [shown]
      · have more : i + 1 < part.nelts := by omega
        rw [if_pos more] at h
        have later := ih (by omega) h
        rw [← later, List.length_append, List.length_singleton]
        congr 1
        omega

end NgxList

section Shown

variable {m : ListMem T} {l l' : Nat} {hdr hdr' : NgxListT} {part : NgxListPart} {ys : List T}

theorem shown_eq_visitFrom (header : m.lists.read l = some hdr)
    (found : m.parts.read hdr.part = some part) :
    m.shown l = match NgxList.visitFrom Prod.fst NgxList.record m.fuel
        ⟨some hdr.part, part.elts, 0⟩ (m, []) with
      | .ok _ w => some w.2
      | _ => none := by
  have started : Exec.view Prod.fst (NgxList.beginIter l) (m, ([] : List T)) =
      .ok ⟨some hdr.part, part.elts, 0⟩ (m, []) :=
    Exec.view_ok (s := m) (NgxList.beginIter_eq header found)
  have visited : NgxList.visit Prod.fst l NgxList.record (m, []) = NgxList.visitFrom Prod.fst
      NgxList.record m.fuel ⟨some hdr.part, part.elts, 0⟩ (m, []) := by
    rw [NgxList.visit, Exec.bind_ok _ (Exec.gets_apply _ _)]
    exact Exec.bind_ok _ started
  exact congrArg (fun out : Outcome NgxException (ListMem T × List T) Unit =>
    match out with
    | .ok _ w => some w.2
    | _ => none) visited

theorem shown_twin (header : m.lists.read l = some hdr) (header' : m.lists.read l' = some hdr')
    (found : m.parts.read hdr.part = some part) (found' : m.parts.read hdr'.part = some part) :
    m.shown l = m.shown l' := by
  rw [shown_eq_visitFrom header found, shown_eq_visitFrom header' found']
  cases part.elts with
  | none => rfl
  | some a => rw [NgxList.visitFrom_twin found found']

theorem shown_first {a k : Nat} (header : m.lists.read l = some hdr)
    (found : m.parts.read hdr.part = some part) (elts : part.elts = some a)
    (counted : k < part.nelts) (shown : m.shown l = some ys) : ys[k]? = m.load ⟨a, k⟩ := by
  rw [shown_eq_visitFrom header found, elts] at shown
  cases visited : NgxList.visitFrom Prod.fst NgxList.record m.fuel
      ⟨some hdr.part, some a, 0⟩ (m, []) with
  | ok u w =>
    rw [visited] at shown
    obtain rfl := Option.some.inj shown
    simpa using NgxList.visitFrom_first found (Nat.zero_le k) counted visited
  | raised e w => simp [visited] at shown
  | undefined => simp [visited] at shown
  | exhausted => simp [visited] at shown

end Shown

/-- Two lists whose first parts are cells apart that read the same, and that push
into other parts. -/
structure Tangled (m : ListMem T) (l l' p c : Nat) : Prop where
  left : ∃ last n, m.lists.read l = some ⟨p, last, n⟩ ∧ last ≠ p ∧ last ≠ c
  right : ∃ last n, m.lists.read l' = some ⟨c, last, n⟩ ∧ last ≠ p ∧ last ≠ c
  same : ∃ cell, m.parts.read p = some cell ∧ m.parts.read c = some cell

/-- A list whose next push, when nothing was pushed yet, writes slot `k` of array
`a`, or whose first part counts that slot by now; it never pushes into part `c`. -/
def Half (m : ListMem T) (l p c a k : Nat) (pushed : Bool) : Prop :=
  ∃ last n cell, m.lists.read l = some ⟨p, last, n⟩ ∧ last ≠ c ∧ m.parts.read p = some cell ∧
    cell.elts = some a ∧ if pushed then k < cell.nelts else last = p ∧ cell.nelts = k ∧ k ≠ n

section Invariants

variable {m m' : ListMem T} {l l' p c a k : Nat} {x : T}

theorem Tangled.symm (tangled : Tangled m l l' p c) : Tangled m l' l c p := by
  obtain ⟨⟨last, n, header, apart, apart'⟩, ⟨last', n', header', other, other'⟩,
    ⟨cell, found, found'⟩⟩ := tangled
  exact ⟨⟨last', n', header', other', other⟩, ⟨last, n, header, apart', apart⟩,
    ⟨cell, found', found⟩⟩

theorem Tangled.push (tangled : Tangled m l l' p c) (different : l' ≠ l)
    (h : NgxList.push l x m = .ok () m') : Tangled m' l l' p c := by
  obtain ⟨⟨last, n, header, apart, apart'⟩, ⟨last', n', header', other, other'⟩,
    ⟨cell, found, found'⟩⟩ := tangled
  obtain ⟨next, own, moved⟩ := NgxList.push_own_header header h
  obtain ⟨cell1, kept, -, -, same⟩ := NgxList.push_cell header h found
  obtain ⟨cell2, kept', -, -, same'⟩ := NgxList.push_cell header h found'
  obtain rfl := same apart.symm
  obtain rfl := same' apart'.symm
  refine ⟨⟨next, n, own, ?_, ?_⟩, ⟨last', n', ?_, other, other'⟩, ⟨_, kept, kept'⟩⟩
  · rcases moved with rfl | rfl
    · exact apart
    · exact Nat.ne_of_gt (Heap.read_lt found)
  · rcases moved with rfl | rfl
    · exact apart'
    · exact Nat.ne_of_gt (Heap.read_lt found')
  · rw [NgxList.push_other_header different h, header']

theorem Tangled.pushes {adds : List (Side × T)} (tangled : Tangled m l l' p c) (different : l ≠ l')
    (h : pushes l l' adds m = .ok () m') : Tangled m' l l' p c := by
  have kept : ∀ (s : ListMem T) (add : Side × T) (t : ListMem T), Tangled s l l' p c →
      NgxList.push (add.1.list l l') add.2 s = .ok () t → Tangled t l l' p c := by
    intro s add t tangled step
    obtain ⟨side, x⟩ := add
    cases side with
    | parent => exact tangled.push different.symm step
    | child => exact (tangled.symm.push different step).symm
  exact (Exec.each_eq_ok.mp h).invariant (Tangled · l l' p c) kept tangled

theorem Tangled.shown (tangled : Tangled m l l' p c) : m.shown l = m.shown l' := by
  obtain ⟨⟨last, n, header, -⟩, ⟨last', n', header', -⟩, ⟨cell, found, found'⟩⟩ := tangled
  exact shown_twin header header' found found'

theorem Half.own_push {pushed : Bool} (half : Half m l p c a k pushed) (exists_c : c < m.parts.size)
    (h : NgxList.push l x m = .ok () m') : Half m' l p c a k true := by
  obtain ⟨last, n, cell, header, apart, found, elts, counts⟩ := half
  obtain ⟨next, own, moved⟩ := NgxList.push_own_header header h
  obtain ⟨cell', kept, elts', more, -⟩ := NgxList.push_cell header h found
  refine ⟨next, n, cell', own, ?_, kept, elts'.trans elts, ?_⟩
  · rcases moved with rfl | rfl
    · exact apart
    · exact Nat.ne_of_gt exists_c
  · rw [if_pos rfl]
    cases pushed with
    | true => exact Nat.lt_of_lt_of_le counts more
    | false =>
      obtain ⟨rfl, rfl, room⟩ := counts
      have grown := NgxList.push_first_room header found room h
      obtain rfl := Option.some.inj (kept.symm.trans grown)
      exact Nat.lt_succ_self _

theorem Half.other_push {pushed pushed' : Bool} (half : Half m l p c a k pushed)
    (half' : Half m l' c p a k pushed') (different : l ≠ l')
    (h : NgxList.push l' x m = .ok () m') : Half m' l p c a k pushed := by
  obtain ⟨last, n, cell, header, apart, found, elts, counts⟩ := half
  obtain ⟨last', n', cell', header', apart', -⟩ := half'
  obtain ⟨cell1, kept, -, -, same⟩ := NgxList.push_cell header' h found
  obtain rfl := same apart'.symm
  exact ⟨last, n, _, by rw [NgxList.push_other_header different h, header], apart, kept, elts,
    counts⟩

theorem Half.pushes {pushed pushed' : Bool} {adds : List (Side × T)}
    (half : Half m l p c a k pushed) (half' : Half m l' c p a k pushed') (different : l ≠ l')
    (h : pushes l l' adds m = .ok () m') :
    Half m' l p c a k (pushed || decide (Side.parent.own adds ≠ [])) ∧
      Half m' l' c p a k (pushed' || decide (Side.child.own adds ≠ [])) := by
  induction adds generalizing m pushed pushed' with
  | nil =>
    obtain ⟨-, rfl⟩ := Outcome.ok.inj h
    simpa [Side.own] using And.intro half half'
  | cons add adds ih =>
    obtain ⟨_, mid, first, rest⟩ := Exec.bind_eq_ok.mp h
    have exists_p : p < m.parts.size := by
      obtain ⟨_, _, _, _, _, found, _⟩ := half
      exact Heap.read_lt found
    have exists_c : c < m.parts.size := by
      obtain ⟨_, _, _, _, _, found, _⟩ := half'
      exact Heap.read_lt found
    obtain ⟨side, x⟩ := add
    cases side with
    | parent =>
      have done := ih (half.own_push exists_c first) (half'.other_push half different.symm first)
        rest
      simpa [Side.own_cons] using done
    | child =>
      have done := ih (half.other_push half' different first) (half'.own_push exists_p first) rest
      simpa [Side.own_cons] using done

/-- Once both lists were pushed, both show slot `k` at place `k`. -/
theorem Half.shown {ys : List T} (half : Half m l p c a k true) (shown : m.shown l = some ys) :
    ys[k]? = m.load ⟨a, k⟩ := by
  obtain ⟨last, n, cell, header, -, found, elts, counts⟩ := half
  exact shown_first header found elts counts shown

end Invariants

/-- After these pushes each list shows `xs` and the pushes on it, in order. -/
def Isolated (m : ListMem T) (l l' : Nat) (xs : List T) (adds : List (Side × T)) : Prop :=
  ∃ m', pushes l l' adds m = .ok () m' ∧ m'.shown l = some (xs ++ Side.parent.own adds) ∧
    m'.shown l' = some (xs ++ Side.child.own adds)

namespace Side

variable {sides : List Side} {side : Side} {adds : List (Side × T)} {x : T}

theorem mem_own : x ∈ side.own adds ↔ (side, x) ∈ adds := by
  simp [own]

theorem mem_own_pick {pick : Side → T} :
    x ∈ side.own (sides.map fun s => (s, pick s)) ↔ side ∈ sides ∧ x = pick side := by
  simp [mem_own, eq_comm]

end Side

section Isolation

variable {m : ListMem T} {l : Nat} {sh : ListShape T} {part : NgxListPart} {grants : List Bool}

/-- Pushes after a copy are isolated when there are none, or when the one part of the
list was full or all of them are on one side. -/
theorem Represents.isolated (rep : Represents m l sh)
    (found : m.parts.read sh.hdr.part = some part) (generous : ∀ g ∈ grants, g = true)
    (adds : List (Side × T))
    (harmless : adds = [] ∨ sh.front = [] ∧ (sh.tail.elems.length = sh.hdr.nalloc ∨
      ∀ add ∈ adds, ∀ add' ∈ adds, add.1 = add'.1)) :
    Isolated (m.copied sh.hdr part grants) l m.lists.size sh.elems adds := by
  have own := rep.of_copied part grants
  have copy := rep.copied found grants
  have different : l ≠ m.lists.size := Nat.ne_of_lt (Heap.read_lt rep.header)
  have elems := sh.elems_copied m.parts.size
  rcases harmless with rfl | ⟨single, full | oneSided⟩
  · refine ⟨_, rfl, ?_, ?_⟩
    · simp [own.shown, Side.own]
    · simp [copy.shown, elems, Side.own]
  · rw [Isolated, ← elems]
    simpa only [elems] using
      pushes_split own copy different (rep.copied_split single full) generous adds
  · obtain ⟨behind, behind'⟩ := rep.copied_behind single
    cases adds with
    | nil =>
      refine ⟨_, rfl, ?_, ?_⟩
      · simp [own.shown, Side.own]
      · simp [copy.shown, elems, Side.own]
    | cons first rest =>
      have only : ∀ add ∈ first :: rest, add.1 = first.1 := fun add member =>
        oneSided add member first (by simp)
      have other : ∀ side, side ≠ first.1 → side.own (first :: rest) = [] := by
        intro side different
        rw [List.eq_nil_iff_forall_not_mem]
        intro x member
        exact different (only _ (Side.mem_own.mp member))
      rw [Isolated, pushes_one_side only]
      cases side : first.1 with
      | parent =>
        obtain ⟨m', done, shown, shown'⟩ :=
          each_push_behind own copy different.symm behind generous (Side.parent.own (first :: rest))
        refine ⟨m', done, shown, ?_⟩
        rw [other .child (by simp [side]), shown', elems, List.append_nil]
      | child =>
        obtain ⟨m', done, shown, shown'⟩ :=
          each_push_behind copy own different behind' generous (Side.child.own (first :: rest))
        refine ⟨m', done, ?_, elems ▸ shown⟩
        rw [other .parent (by simp [side]), shown', List.append_nil]

theorem Represents.copied_tangled (rep : Represents m l sh)
    (found : m.parts.read sh.hdr.part = some part) (several : sh.front ≠ [])
    (grants : List Bool) :
    Tangled (m.copied sh.hdr part grants) l m.lists.size sh.hdr.part m.parts.size := by
  have apart : sh.hdr.last ≠ sh.hdr.part := fun same => several (rep.last_eq_part_iff.mp same)
  have old := (rep.fresh sh.tail (tail_mem sh)).1
  rw [← rep.last] at old
  have header : (m.copied sh.hdr part grants).lists.read m.lists.size = some ⟨m.parts.size,
      if sh.hdr.last = sh.hdr.part then m.parts.size else sh.hdr.last, sh.hdr.nalloc⟩ :=
    Heap.read_alloc_self
  rw [if_neg apart] at header
  exact ⟨⟨sh.hdr.last, sh.hdr.nalloc, (rep.of_copied part grants).header, apart, old.symm⟩,
    ⟨sh.hdr.last, sh.hdr.nalloc, header, apart, old.symm⟩,
    ⟨part, Heap.read_alloc found, Heap.read_alloc_self⟩⟩

theorem Represents.copied_half (rep : Represents m l sh)
    (found : m.parts.read sh.hdr.part = some part) (single : sh.front = [])
    (room : sh.tail.elems.length ≠ sh.hdr.nalloc) :
    Half (m.copied sh.hdr part grants) l sh.hdr.part m.parts.size sh.tail.array sh.elems.length
        false ∧
      Half (m.copied sh.hdr part grants) m.lists.size m.parts.size sh.hdr.part sh.tail.array
        sh.elems.length false := by
  have last := rep.last_eq_part_iff.mpr single
  obtain ⟨last', slots, part', elts, nelts, -⟩ := rep.last_part
  rw [last] at part'
  obtain rfl := Option.some.inj (found.symm.trans part')
  have elems : sh.elems = sh.tail.elems := by
    simp [ListShape.elems, elemsOf, ListShape.views, single]
  have own := (rep.of_copied part grants).header.trans
    (congrArg (fun q => some (NgxListT.mk sh.hdr.part q sh.hdr.nalloc)) last)
  have header : (m.copied sh.hdr part grants).lists.read m.lists.size = some ⟨m.parts.size,
      if sh.hdr.last = sh.hdr.part then m.parts.size else sh.hdr.last, sh.hdr.nalloc⟩ :=
    Heap.read_alloc_self
  rw [if_pos last] at header
  have distinct := Nat.ne_of_lt (Heap.read_lt found)
  rw [elems]
  exact ⟨⟨_, _, part, own, distinct, Heap.read_alloc found, elts, rfl, nelts, room⟩,
    ⟨_, _, part, header, distinct.symm, Heap.read_alloc_self, elts, rfl, nelts, room⟩⟩

theorem Side.own_pick_head (pick : Side → T) {sides : List Side} {side : Side}
    (inside : side ∈ sides) :
    (Side.own side (sides.map fun s => (s, pick s)))[0]? = some (pick side) := by
  have member : pick side ∈ Side.own side (sides.map fun s => (s, pick s)) :=
    Side.mem_own_pick.mpr ⟨inside, rfl⟩
  cases own : Side.own side (sides.map fun s => (s, pick s)) with
  | nil => simp [own] at member
  | cons x rest =>
    have head : x ∈ Side.own side (sides.map fun s => (s, pick s)) := by simp [own]
    simp [(Side.mem_own_pick.mp head).2]

/-- Pushes of one element on one side and another on the other side show when they
are not isolated. -/
theorem Represents.harmless_of_isolated (rep : Represents m l sh)
    (found : m.parts.read sh.hdr.part = some part) {pick : Side → T}
    (distinct : pick .parent ≠ pick .child) {sides : List Side}
    (isolated : Isolated (m.copied sh.hdr part grants) l m.lists.size sh.elems
      (sides.map fun s => (s, pick s))) :
    sides = [] ∨ sh.front = [] ∧ (sh.tail.elems.length = sh.hdr.nalloc ∨
      ∀ s ∈ sides, ∀ s' ∈ sides, s = s') := by
  obtain ⟨m', done, shown, shown'⟩ := isolated
  have different : l ≠ m.lists.size := Nat.ne_of_lt (Heap.read_lt rep.header)
  by_cases single : sh.front = []
  · right
    refine ⟨single, ?_⟩
    by_contra mixed
    simp only [not_or, not_forall] at mixed
    obtain ⟨room, s, inside, s', inside', unequal⟩ := mixed
    have both : ∀ side : Side, side ∈ sides := by
      intro side
      cases side <;> cases s <;> cases s' <;> simp_all
    have heads := fun side => Side.own_pick_head pick (both side)
    have begun : ∀ side : Side, Side.own side (sides.map fun s => (s, pick s)) ≠ [] := by
      intro side none
      have head := heads side
      simp [none] at head
    obtain ⟨half, half'⟩ := rep.copied_half found single room
    obtain ⟨now, now'⟩ := half.pushes half' different done
    simp only [begun, ne_eq, not_false_eq_true, decide_true, Bool.or_true] at now now'
    have same := (now.shown shown).trans (now'.shown shown').symm
    rw [List.getElem?_append_right (Nat.le_refl _), List.getElem?_append_right (Nat.le_refl _),
      Nat.sub_self, heads, heads] at same
    exact distinct (Option.some.inj same)
  · left
    have tangled := rep.copied_tangled found single grants
    have same := (tangled.pushes different done).shown
    rw [shown, shown', Option.some.injEq, List.append_cancel_left_eq] at same
    rw [List.eq_nil_iff_forall_not_mem]
    intro side inside
    have crossed : ∀ x, x ∈ Side.parent.own (sides.map fun s => (s, pick s)) ↔
        x ∈ Side.child.own (sides.map fun s => (s, pick s)) := fun x => by rw [same]
    simp only [Side.mem_own_pick] at crossed
    cases side with
    | parent => exact distinct ((crossed _).mp ⟨inside, rfl⟩).2
    | child => exact distinct ((crossed _).mpr ⟨inside, rfl⟩).2.symm

end Isolation

end NgxCpp
