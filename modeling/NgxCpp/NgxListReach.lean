import NgxCpp.NgxListSequence
import NgxCpp.Foundation.Keeps

/-! The memories that runs of list operations reach, whether the operations return
or throw. Each list keeps its parts and arrays to itself, and one whose array could
not be had, or has no room, stays what it is until it is reinitialised. -/

namespace NgxCpp
open Foundation

variable {T S : Type}

namespace NgxList

variable {m m' : ListMem T} {l : Nat} {hdr : NgxListT} {last : NgxListPart}

/-- The visitor of `merge`. -/
def assign (l : Nat) (v : Slot) : Ngx (ListMem T) Unit := do
  let slot ← prepare l
  let x ← loadSlot v
  storeSlot slot x

/-- `visit` with any fuel. -/
def visitWithin {σ : Type} (mem : σ → ListMem T) (fuel l : Nat) (v : Slot → Ngx σ Unit) :
    Ngx σ Unit := do
  let it ← Exec.view mem (beginIter l)
  visitFrom mem v fuel it

/-- `merge` with any fuel: of itself a list may take more than it has elements. -/
def mergeWithin (fuel l source : Nat) : Ngx (ListMem T) Unit :=
  visitWithin id fuel source (assign l)

theorem merge_eq_within (l source : Nat) (m : ListMem T) :
    merge l source m = mergeWithin m.fuel l source m :=
  rfl

theorem prepare_raised_cases {e : NgxException} (header : m.lists.read l = some hdr)
    (part : m.parts.read hdr.last = some last) (h : prepare l m = .raised e m') :
    (∃ grants, m' = { m with grants }) ∨ (last.nelts ≠ hdr.nalloc ∧ last.elts = none ∧
      m' = m.setPart hdr.last { last with nelts := last.nelts + 1 }) := by
  by_cases full : last.nelts = hdr.nalloc
  · rw [prepare_full_eq header part full] at h
    split at h
    · split at h
      · simp at h
      · obtain ⟨-, rfl⟩ := Outcome.raised.inj h
        exact .inl ⟨_, rfl⟩
    · obtain ⟨-, rfl⟩ := Outcome.raised.inj h
      exact .inl ⟨_, rfl⟩
  · cases elts : last.elts with
    | some array =>
      rw [prepare_room header part full elts] at h
      simp at h
    | none =>
      rw [prepare_null header part full elts] at h
      split at h
      · obtain ⟨-, rfl⟩ := Outcome.raised.inj h
        exact .inr ⟨full, rfl, by rw [elts]⟩
      · simp at h

end NgxList

structure Owners where
  part : Nat → Nat
  array : Nat → Nat

def Owners.claim (own : Owners) (m : ListMem T) (l : Nat) : Owners where
  part p := if p < m.parts.size then own.part p else l
  array a := if a < m.arrays.size then own.array a else l

/-- The header, the parts and the arrays of list `l` are as they were. -/
structure Undisturbed (m m' : ListMem T) (own : Owners) (l : Nat) : Prop where
  list : m'.lists.read l = m.lists.read l
  parts : ∀ p part, own.part p = l → m.parts.read p = some part → m'.parts.read p = some part
  arrays : ∀ a slots, own.array a = l → m.arrays.read a = some slots → m'.arrays.read a = some slots

/-- List `l` with its header, its first and its last part: it is without an array,
or without room for any element, or well formed in cells of its own. -/
structure Owned (m : ListMem T) (own : Owners) (l : Nat) (hdr : NgxListT)
    (first last : NgxListPart) : Prop where
  header : m.lists.read l = some hdr
  at_first : m.parts.read hdr.part = some first
  at_last : m.parts.read hdr.last = some last
  part_own : own.part hdr.part = l
  last_own : own.part hdr.last = l
  array_own : ∀ a, last.elts = some a → own.array a = l ∧ ∃ slots, m.arrays.read a = some slots
  state : first.elts = none ∨ (hdr.nalloc = 0 ∧ hdr.last = hdr.part ∧ first.nelts = 0) ∨
    ∃ sh, Represents m l sh ∧ ∀ v ∈ sh.views, own.part v.addr = l ∧ own.array v.array = l

def Missing (m : ListMem T) (own : Owners) (l : Nat) : Prop :=
  ∃ hdr first last, Owned m own l hdr first last ∧ first.elts = none

/-- What an operation on list `l` does to a memory of such lists. -/
structure Advances (m m' : ListMem T) (own : Owners) (l : Nat) : Prop where
  others : ∀ l', l' ≠ l → Undisturbed m m' own l'
  owned : ∃ hdr first last, Owned m' (own.claim m l) l hdr first last

def SettledBy (m : ListMem T) (own : Owners) : Prop :=
  ∀ l hdr, m.lists.read l = some hdr → ∃ first last, Owned m own l hdr first last

def Settled (m : ListMem T) : Prop := ∃ own, SettledBy m own

section Owners

variable {m m' : ListMem T} {own : Owners} {l l' : Nat} {hdr : NgxListT}
  {first last : NgxListPart} {sh : ListShape T}

theorem Owners.claim_part {p : Nat} {part : NgxListPart} (l : Nat)
    (found : m.parts.read p = some part) : (own.claim m l).part p = own.part p :=
  if_pos (Heap.read_lt found)

theorem Owners.claim_array {a : Nat} {slots : List (Option T)} (l : Nat)
    (found : m.arrays.read a = some slots) : (own.claim m l).array a = own.array a :=
  if_pos (Heap.read_lt found)

theorem Owners.claim_new_part : (own.claim m l).part m.parts.size = l :=
  if_neg (Nat.lt_irrefl _)

theorem Owners.claim_new_array : (own.claim m l).array m.arrays.size = l :=
  if_neg (Nat.lt_irrefl _)

theorem Owned.first_claimed (owned : Owned m own l hdr first last) (l' : Nat) :
    (own.claim m l').part hdr.part = l :=
  (Owners.claim_part l' owned.at_first).trans owned.part_own

theorem Owned.last_claimed (owned : Owned m own l hdr first last) (l' : Nat) :
    (own.claim m l').part hdr.last = l :=
  (Owners.claim_part l' owned.at_last).trans owned.last_own

theorem Owned.frame (owned : Owned m own l hdr first last) (same : Undisturbed m m' own l)
    (l' : Nat) : Owned m' (own.claim m l') l hdr first last where
  header := same.list.trans owned.header
  at_first := same.parts _ _ owned.part_own owned.at_first
  at_last := same.parts _ _ owned.last_own owned.at_last
  part_own := owned.first_claimed l'
  last_own := owned.last_claimed l'
  array_own a elts := by
    obtain ⟨mine, slots, found⟩ := owned.array_own a elts
    exact ⟨(Owners.claim_array l' found).trans mine, slots, same.arrays a slots mine found⟩
  state := by
    refine owned.state.imp_right (Or.imp_right ?_)
    rintro ⟨sh, rep, mine⟩
    refine ⟨sh, rep.frame same.list (fun v member => ?_) (fun v member slots stored => ?_),
      fun v member => ?_⟩
    · obtain ⟨part, _, found, -⟩ := rep.held v member
      rw [found, same.parts _ _ (mine v member).1 found]
    · exact ⟨slots, same.arrays _ _ (mine v member).2 stored, rfl, rfl⟩
    · obtain ⟨part, slots, found, -, -, stored, -⟩ := rep.held v member
      exact ⟨(Owners.claim_part l' found).trans (mine v member).1,
        (Owners.claim_array l' stored).trans (mine v member).2⟩

theorem SettledBy.advance (settled : SettledBy m own) (advances : Advances m m' own l) :
    Settled m' := by
  refine ⟨own.claim m l, fun l' hdr' header => ?_⟩
  by_cases same : l' = l
  · subst same
    obtain ⟨hdr, first, last, owned⟩ := advances.owned
    obtain rfl := Option.some.inj (owned.header.symm.trans header)
    exact ⟨first, last, owned⟩
  · have kept := advances.others l' same
    obtain ⟨first, last, owned⟩ := settled l' hdr' (kept.list.symm.trans header)
    exact ⟨first, last, owned.frame kept l⟩

theorem Represents.owned (rep : Represents m l sh)
    (mine : ∀ v ∈ sh.views, own.part v.addr = l ∧ own.array v.array = l) :
    ∃ first last, Owned m own l sh.hdr first last := by
  obtain ⟨v, after, shape, start, found⟩ := rep.first_part
  obtain ⟨last, slots, part, elts, -, stored, -⟩ := rep.last_part
  have inside := tail_mem sh
  refine ⟨_, last, rep.header, found, part, ?_, ?_, fun a same => ?_, .inr (.inr ⟨sh, rep, mine⟩)⟩
  · rw [start]
    exact (mine v (by simp [shape])).1
  · rw [rep.last]
    exact (mine _ inside).1
  · obtain rfl := Option.some.inj (elts.symm.trans same)
    exact ⟨(mine _ inside).2, slots, stored⟩

theorem owned_empty {p a n : Nat} {slots : List (Option T)}
    (header : m.lists.read l = some ⟨p, p, n⟩) (part : m.parts.read p = some ⟨some a, 0, none⟩)
    (stored : m.arrays.read a = some slots) (length : n = 0 ∨ slots.length = n)
    (part_own : own.part p = l) (array_own : own.array a = l) :
    ∃ hdr first last, Owned m own l hdr first last := by
  by_cases none : n = 0
  · refine ⟨⟨p, p, n⟩, _, _, header, part, part, part_own, part_own, fun b elts => ?_,
      .inr (.inl ⟨none, rfl, rfl⟩)⟩
    obtain rfl := Option.some.inj elts
    exact ⟨array_own, slots, stored⟩
  · have rep := Represents.of_empty header part stored (length.resolve_left none)
      (Nat.pos_of_ne_zero none)
    exact ⟨_, rep.owned fun v only => by
      obtain rfl := List.mem_singleton.mp only
      exact ⟨part_own, array_own⟩⟩

theorem owned_missing {p n : Nat} (header : m.lists.read l = some ⟨p, p, n⟩)
    (part : m.parts.read p = some first) (missing : first.elts = none)
    (part_own : own.part p = l) : ∃ hdr first last, Owned m own l hdr first last :=
  ⟨_, first, first, header, part, part, part_own, part_own,
    fun a elts => absurd (missing.symm.trans elts) (by simp), .inl missing⟩

theorem undisturbed_of_part {p : Nat} (mine : own.part p = l)
    (lists : ∀ l', l' ≠ l → m'.lists.read l' = m.lists.read l')
    (parts : ∀ q, q ≠ p → m'.parts.read q = m.parts.read q)
    (arrays : ∀ a slots, m.arrays.read a = some slots → m'.arrays.read a = some slots) :
    ∀ l', l' ≠ l → Undisturbed m m' own l' := by
  intro l' different
  refine ⟨lists l' different, fun q part theirs found => ?_, fun a slots _ => arrays a slots⟩
  rw [parts q fun same => different (theirs.symm.trans (same ▸ mine)), found]

theorem undisturbed_grants (m : ListMem T) (grants : List Bool) (own : Owners) (l : Nat) :
    Undisturbed m { m with grants } own l :=
  ⟨rfl, fun _ _ _ => id, fun _ _ _ => id⟩

theorem Owned.answered (owned : Owned m own l hdr first last) (grants : List Bool) :
    Advances m { m with grants } own l where
  others l' _ := undisturbed_grants m grants own l'
  owned := ⟨hdr, first, last, owned.frame (undisturbed_grants m grants own l) l⟩

theorem Owned.still_missing (owned : Owned m own l hdr first last) (broken : first.elts = none)
    {written : NgxListPart} (at_last : m'.parts.read hdr.last = some written)
    (elts : written.elts = last.elts)
    (others : ∀ p part, p ≠ hdr.last → m.parts.read p = some part → m'.parts.read p = some part) :
    ∃ first', m'.parts.read hdr.part = some first' ∧ first'.elts = none := by
  by_cases same : hdr.part = hdr.last
  · have both := owned.at_first
    rw [same, owned.at_last] at both
    obtain rfl := Option.some.inj both
    exact ⟨written, by rw [same]; exact at_last, elts.trans broken⟩
  · exact ⟨first, others _ _ same owned.at_first, broken⟩

theorem Owned.last_eq_first (owned : Owned m own l hdr first last) (single : hdr.last = hdr.part) :
    last = first := by
  have same := owned.at_last
  rw [single, owned.at_first] at same
  exact (Option.some.inj same).symm

theorem Owned.broken (owned : Owned m own l hdr first last) (room : last.nelts ≠ hdr.nalloc)
    (elts : last.elts = none) : first.elts = none := by
  rcases owned.state with broken | ⟨small, single, empty⟩ | ⟨sh, rep, -⟩
  · exact broken
  · obtain rfl := owned.last_eq_first single
    exact elts
  · obtain ⟨last', slots, part, elts', -⟩ := rep.last_part
    obtain rfl := Option.some.inj (rep.header.symm.trans owned.header)
    obtain rfl := Option.some.inj (part.symm.trans owned.at_last)
    simp [elts] at elts'

theorem Owned.counted_missing (owned : Owned m own l hdr first last)
    (room : last.nelts ≠ hdr.nalloc) (elts : last.elts = none) :
    Missing (m.setPart hdr.last { last with nelts := last.nelts + 1 }) (own.claim m l) l := by
  have written : (m.setPart hdr.last { last with nelts := last.nelts + 1 }).parts.read hdr.last =
      some { last with nelts := last.nelts + 1 } := Heap.read_write_self owned.at_last
  obtain ⟨first', at_first, missing⟩ := owned.still_missing (owned.broken room elts) written rfl
    fun p part other found => (Heap.read_write_ne other).trans found
  exact ⟨hdr, first', _, ⟨owned.header, at_first, written, owned.first_claimed l,
    owned.last_claimed l, fun a same => absurd (elts.symm.trans same) (by simp), .inl missing⟩,
    missing⟩

theorem Owned.counted (owned : Owned m own l hdr first last) (room : last.nelts ≠ hdr.nalloc)
    (elts : last.elts = none) :
    Advances m (m.setPart hdr.last { last with nelts := last.nelts + 1 }) own l where
  others := undisturbed_of_part owned.last_own (fun _ _ => rfl)
    (fun q other => Heap.read_write_ne other) (fun _ _ => id)
  owned := by
    obtain ⟨hdr', first', last', owned', -⟩ := owned.counted_missing room elts
    exact ⟨hdr', first', last', owned'⟩

theorem Owned.push_others {x : T} (owned : Owned m own l hdr first last)
    (h : NgxList.push l x m = .ok () m') : ∀ l', l' ≠ l → Undisturbed m m' own l' := by
  intro l' different
  have frame := NgxList.push_frame owned.header owned.at_last h
  refine ⟨frame.lists l' different, fun p part theirs found => ?_, fun a slots theirs stored => ?_⟩
  · exact frame.parts p part
      (fun same => different (theirs.symm.trans (same ▸ owned.last_own))) found
  · obtain ⟨slots', stored', length, same⟩ := frame.arrays a slots stored
    have other : last.elts ≠ some a := fun elts =>
      different (theirs.symm.trans (owned.array_own a elts).1)
    have whole := same slots.length fun elts => absurd elts other
    rw [List.take_of_length_le (Nat.le_of_eq length), List.take_length] at whole
    exact whole ▸ stored'

theorem Owned.push_missing {x : T} (owned : Owned m own l hdr first last)
    (broken : first.elts = none) (h : NgxList.push l x m = .ok () m') :
    Missing m' (own.claim m l) l := by
  have frame := NgxList.push_frame owned.header owned.at_last h
  have part_own := owned.first_claimed l
  obtain ⟨array, slots, -, elts, stored, -, rfl⟩ | ⟨grants, -, -, -, rfl⟩ :=
    NgxList.push_cases owned.header owned.at_last h
  · have written : (NgxList.pushRoom m hdr last array slots x).parts.read hdr.last =
        some { last with nelts := last.nelts + 1 } := Heap.read_write_self owned.at_last
    obtain ⟨first', at_first, missing⟩ := owned.still_missing broken written rfl frame.parts
    refine ⟨hdr, first', _, ⟨owned.header, at_first, written, part_own, owned.last_claimed l,
      fun a same => ?_, .inl missing⟩, missing⟩
    obtain rfl := Option.some.inj (elts.symm.trans same)
    exact ⟨(Owners.claim_array l stored).trans (owned.array_own _ elts).1, _,
      Heap.read_write_self stored⟩
  · obtain ⟨first', at_first, missing⟩ := owned.still_missing broken
      (NgxList.pushLink_last owned.at_last grants) rfl frame.parts
    refine ⟨{ hdr with last := m.parts.size }, first', _, ⟨Heap.read_write_self owned.header,
      at_first, NgxList.pushLink_new owned.at_last grants, part_own, Owners.claim_new_part,
      fun a same => ?_, .inl missing⟩, missing⟩
    obtain rfl := Option.some.inj same
    exact ⟨Owners.claim_new_array, _, Heap.read_write_self Heap.read_alloc_self⟩

theorem Represents.push_owned {x : T} (rep : Represents m l sh)
    (mine : ∀ v ∈ sh.views, own.part v.addr = l ∧ own.array v.array = l)
    (h : NgxList.push l x m = .ok () m') :
    ∃ hdr first last, Owned m' (own.claim m l) l hdr first last := by
  have claimed : ∀ v ∈ sh.views, (own.claim m l).part v.addr = l ∧
      (own.claim m l).array v.array = l := by
    intro v member
    obtain ⟨part, slots, found, -, -, stored, -⟩ := rep.held v member
    exact ⟨(Owners.claim_part l found).trans (mine v member).1,
      (Owners.claim_array l stored).trans (mine v member).2⟩
  obtain ⟨-, grown⟩ | extended := rep.push_cases h
  · refine ⟨_, grown.owned fun v member => ?_⟩
    rcases ListShape.mem_views.mp member with inFront | rfl
    · exact claimed v (List.mem_append_left _ inFront)
    · exact claimed sh.tail (Represents.tail_mem sh)
  · refine ⟨_, extended.owned fun v member => ?_⟩
    rcases ListShape.mem_views.mp member with old | rfl
    · exact claimed v old
    · exact ⟨Owners.claim_new_part, Owners.claim_new_array⟩

theorem Owned.push {x : T} (owned : Owned m own l hdr first last)
    (h : NgxList.push l x m = .ok () m') : Advances m m' own l where
  others := owned.push_others h
  owned := by
    rcases owned.state with broken | ⟨small, single, empty⟩ | ⟨sh, rep, mine⟩
    · obtain ⟨hdr', first', last', owned', -⟩ := owned.push_missing broken h
      exact ⟨hdr', first', last', owned'⟩
    · obtain rfl := owned.last_eq_first single
      obtain ⟨array, slots, room, -⟩ | ⟨grants, -, pos, -⟩ :=
        NgxList.push_cases owned.header owned.at_last h
      · exact absurd (empty.trans small.symm) room
      · exact absurd small (Nat.ne_of_gt pos)
    · exact rep.push_owned mine h

theorem Owned.first_array {a : Nat} (owned : Owned m own l hdr first last)
    (elts : first.elts = some a) : own.array a = l ∧
      ∃ slots, m.arrays.read a = some slots ∧ (hdr.nalloc = 0 ∨ slots.length = hdr.nalloc) := by
  rcases owned.state with broken | ⟨small, single, -⟩ | ⟨sh, rep, mine⟩
  · simp [broken] at elts
  · obtain rfl := owned.last_eq_first single
    obtain ⟨theirs, slots, stored⟩ := owned.array_own a elts
    exact ⟨theirs, slots, stored, .inl small⟩
  · obtain ⟨v, after, shape, start, part⟩ := rep.first_part
    obtain rfl := Option.some.inj (rep.header.symm.trans owned.header)
    obtain rfl := Option.some.inj (owned.at_first.symm.trans part)
    obtain rfl := Option.some.inj elts
    obtain ⟨slots, stored, length⟩ := rep.room v (by simp [shape])
    exact ⟨(mine v (by simp [shape])).2, slots, stored, .inr length⟩

theorem Owned.clear (owned : Owned m own l hdr first last)
    (h : (NgxList.clear l m).state? = some m') : Advances m m' own l := by
  rw [NgxList.clear, Exec.bind_ok _ (readList_ok owned.header),
    Exec.bind_ok _ (readPart_ok owned.at_first)] at h
  obtain rfl := Option.some.inj h
  refine ⟨undisturbed_of_part owned.part_own (fun _ other => Heap.read_write_ne other)
    (fun _ other => Heap.read_write_ne other) (fun _ _ => id), ?_⟩
  have part_own := owned.first_claimed l
  cases elts : first.elts with
  | none =>
    exact owned_missing (Heap.read_write_self owned.header) (Heap.read_write_self owned.at_first)
      rfl part_own
  | some a =>
    obtain ⟨mine, slots, stored, length⟩ := owned.first_array elts
    refine owned_empty (Heap.read_write_self owned.header) ?_ stored length part_own
      ((Owners.claim_array l stored).trans mine)
    exact Heap.read_write_self owned.at_first

theorem Owned.init {n : Nat} (owned : Owned m own l hdr first last)
    (h : (ngxListInit l n m).state? = some m') : Advances m m' own l := by
  have part_own := owned.first_claimed l
  rw [ngxListInit_eq n owned.header owned.at_first] at h
  cases answer : granted m.grants with
  | true =>
    rw [answer] at h
    obtain rfl := Option.some.inj h
    refine ⟨undisturbed_of_part owned.part_own (fun _ other => Heap.read_write_ne other)
      (fun _ other => Heap.read_write_ne other) (fun _ _ => Heap.read_alloc), ?_⟩
    exact owned_empty (Heap.read_write_self owned.header) (Heap.read_write_self owned.at_first)
      Heap.read_alloc_self (.inr List.length_replicate) part_own Owners.claim_new_array
  | false =>
    rw [answer] at h
    obtain rfl := Option.some.inj h
    refine ⟨undisturbed_of_part owned.part_own (fun _ _ => rfl)
      (fun _ other => Heap.read_write_ne other) (fun _ _ => id), ?_⟩
    have at_first : (m.parts.write hdr.part { first with elts := none }).read hdr.part =
        some { first with elts := none } := Heap.read_write_self owned.at_first
    have last_own := owned.last_claimed l
    by_cases single : hdr.last = hdr.part
    · exact ⟨hdr, _, _, owned.header, at_first, by rw [single]; exact at_first, part_own, last_own,
        fun a elts => by simp at elts, .inl rfl⟩
    · refine ⟨hdr, _, last, owned.header, at_first, ?_, part_own, last_own, fun a elts => ?_,
        .inl rfl⟩
      · exact (Heap.read_write_ne single).trans owned.at_last
      · obtain ⟨mine, slots, stored⟩ := owned.array_own a elts
        exact ⟨(Owners.claim_array l stored).trans mine, slots, stored⟩

end Owners

section Reach

variable {m m' : ListMem T} {own : Owners} {l : Nat}

theorem SettledBy.answered (settled : SettledBy m own) (grants : List Bool) :
    SettledBy { m with grants } (own.claim m 0) := by
  intro l hdr header
  obtain ⟨first, last, owned⟩ := settled l hdr header
  exact ⟨first, last, owned.frame (undisturbed_grants m grants own l) 0⟩

open Exec (Keeps)

theorem keeps_of_owned {x : Ngx (ListMem T) S} (l : Nat)
    (reads : ∀ m : ListMem T, m.lists.read l = none → (x m).state? = none)
    (advances : ∀ (m m' : ListMem T) own hdr first last, Owned m own l hdr first last →
      (x m).state? = some m' → Advances m m' own l) : Keeps Settled x := by
  intro m settled m' left
  obtain ⟨own, lists⟩ := settled
  cases header : m.lists.read l with
  | none => simp [reads m header] at left
  | some hdr =>
    obtain ⟨first, last, owned⟩ := lists l hdr header
    exact SettledBy.advance lists (advances m m' own hdr first last owned left)

theorem readList_none {f : NgxListT → Ngx (ListMem T) S} (none : m.lists.read l = none) :
    (readList l >>= f) m = .undefined := by
  simp only [Exec.bind_apply, readList, Exec.deref, none]

theorem keeps_init (l n : Nat) : Keeps Settled (ngxListInit l n : Ngx (ListMem T) Int) :=
  keeps_of_owned l (fun m none => by rw [ngxListInit, readList_none none]; rfl)
    fun _ _ _ _ _ _ owned left => owned.init left

theorem keeps_clear (l : Nat) : Keeps Settled (NgxList.clear l : Ngx (ListMem T) Unit) :=
  keeps_of_owned l (fun m none => by rw [NgxList.clear, readList_none none]; rfl)
    fun _ _ _ _ _ _ owned left => owned.clear left

theorem keeps_reinit (l n : Nat) : Keeps Settled (NgxList.reinit l n : Ngx (ListMem T) Unit) := by
  refine .bind (.deref _) fun hdr => .bind (keeps_init l _) fun rc => ?_
  exact .ite (.pure ()) (.raise _)

theorem Settled.blank (settled : Settled m) (grants : List Bool) : Settled
    { m with
      lists := m.lists.alloc ⟨m.parts.size, m.parts.size, 0⟩
      parts := m.parts.alloc ⟨none, 0, none⟩
      grants } := by
  obtain ⟨own, lists⟩ := settled
  refine SettledBy.advance lists (l := m.lists.size) ⟨fun l' different => ?_, ?_⟩
  · exact ⟨Heap.read_alloc_of_ne different, fun p part _ => Heap.read_alloc, fun _ _ _ => id⟩
  · exact owned_missing Heap.read_alloc_self Heap.read_alloc_self rfl Owners.claim_new_part

theorem keeps_create (n : Nat) : Keeps Settled (NgxList.create n : Ngx (ListMem T) Nat) := by
  refine .bind (fun m settled m' left => ?_) fun found => ?_
  · rw [ngxListCreate, Exec.bind_ok _ (palloc_eq m)] at left
    cases answer : granted m.grants with
    | false =>
      rw [answer] at left
      obtain rfl := Option.some.inj left
      obtain ⟨own, lists⟩ := settled
      exact ⟨_, lists.answered m.grants.tail⟩
    | true =>
      rw [answer] at left
      have rest : Keeps Settled (ngxListInit m.lists.size n >>= fun rc =>
          if rc = ngxOk then pure (some m.lists.size) else pure none) :=
        .bind (keeps_init (T := T) m.lists.size n) fun rc => .ite (.pure _) (.pure _)
      exact rest _ (settled.blank m.grants.tail) m' left
  · cases found with
    | none => exact .raise _
    | some l => exact .pure l

theorem prepare_none (none : m.lists.read l = none) : NgxList.prepare l m = .undefined := by
  rw [NgxList.prepare, Exec.bind_apply, ngxListPush, readList_none none]

/-- A program that prepares a slot and then stores in it leaves what a push leaves,
in its result or in a throw. -/
theorem keeps_stored {Inv : ListMem T → Prop} {f : Slot → Ngx (ListMem T) Unit} (l : Nat)
    (pushed : ∀ m m' x, Inv m → NgxList.push l x m = .ok () m' → Inv m')
    (thrown : ∀ m m' e, Inv m → NgxList.prepare l m = .raised e m' → Inv m')
    (stores : ∀ slot (m m' : ListMem T), (f slot m).state? = some m' →
      ∃ x, storeSlot slot x m = .ok () m') : Keeps Inv (NgxList.prepare l >>= f) := by
  intro m holds m' left
  rw [Exec.bind_apply] at left
  cases prepared : NgxList.prepare l m with
  | ok slot mid =>
    rw [prepared] at left
    obtain ⟨x, stored⟩ := stores slot mid m' left
    exact pushed m m' x holds ((Exec.bind_ok _ prepared).trans stored)
  | raised e mid =>
    rw [prepared] at left
    obtain rfl := Option.some.inj left
    exact thrown m mid e holds prepared
  | undefined =>
    rw [prepared] at left
    simp at left
  | exhausted =>
    rw [prepared] at left
    simp at left

theorem Owned.thrown {hdr : NgxListT} {first last : NgxListPart} {e : NgxException}
    (owned : Owned m own l hdr first last) (h : NgxList.prepare l m = .raised e m') :
    Advances m m' own l := by
  obtain ⟨grants, rfl⟩ | ⟨room, elts, rfl⟩ :=
    NgxList.prepare_raised_cases owned.header owned.at_last h
  · exact owned.answered grants
  · exact owned.counted room elts

theorem Settled.pushed {x : T} (settled : Settled m) (h : NgxList.push l x m = .ok () m') :
    Settled m' := by
  obtain ⟨own, lists⟩ := settled
  obtain ⟨slot, mid, prepared, -⟩ := Exec.bind_eq_ok.mp h
  obtain ⟨hdr, -, header, -⟩ := NgxList.prepare_header prepared
  obtain ⟨first, last, owned⟩ := lists l hdr header
  exact SettledBy.advance lists (owned.push h)

theorem Settled.thrown {e : NgxException} (settled : Settled m)
    (h : NgxList.prepare l m = .raised e m') : Settled m' := by
  obtain ⟨own, lists⟩ := settled
  cases header : m.lists.read l with
  | none => simp [prepare_none header] at h
  | some hdr =>
    obtain ⟨first, last, owned⟩ := lists l hdr header
    exact SettledBy.advance lists (owned.thrown h)

theorem storeSlot_left {slot : Slot} {x : T} (left : (storeSlot slot x m).state? = some m') :
    storeSlot slot x m = .ok () m' := by
  unfold storeSlot at left ⊢
  cases stored : m.store slot x with
  | none => simp [stored] at left
  | some mid =>
    rw [stored] at left
    obtain rfl := Option.some.inj left
    rfl

theorem keeps_push (l : Nat) (x : T) : Keeps Settled (NgxList.push l x) :=
  keeps_stored l (fun _ _ _ => Settled.pushed) (fun _ _ _ => Settled.thrown)
    fun _ _ _ left => ⟨x, storeSlot_left left⟩

theorem keeps_assign {Inv : ListMem T → Prop} (l : Nat) (v : Slot)
    (pushed : ∀ m m' x, Inv m → NgxList.push l x m = .ok () m' → Inv m')
    (thrown : ∀ m m' e, Inv m → NgxList.prepare l m = .raised e m' → Inv m') :
    Keeps Inv (NgxList.assign l v) := by
  refine keeps_stored l pushed thrown fun slot m m' left => ?_
  cases found : m.load v with
  | none =>
    have dangling : loadSlot v m = .undefined := Exec.deref_none found
    simp [Exec.bind_apply, dangling] at left
  | some x =>
    have loaded : loadSlot v m = .ok x m := Exec.deref_some found
    rw [Exec.bind_ok _ loaded] at left
    exact ⟨x, storeSlot_left left⟩

theorem keeps_visitFrom {Inv : ListMem T → Prop} {v : Slot → Ngx (ListMem T) Unit}
    (kept : ∀ slot, Keeps Inv (v slot)) (fuel : Nat) (it : NgxListIterator) :
    Keeps Inv (NgxList.visitFrom id v fuel it) := by
  induction fuel generalizing it with
  | zero =>
    intro m holds m' left
    simp [NgxList.visitFrom, Exec.exhausted] at left
  | succ fuel ih =>
    refine .bind (.zoom _ fun _ _ => id) fun more => .ite ?_ (.pure ())
    refine .bind (.zoom _ fun _ _ => id) fun slot => .bind (kept slot) fun _ => ?_
    exact .bind (.zoom _ fun _ _ => id) fun next => ih next

theorem keeps_mergeWithin {Inv : ListMem T → Prop} (fuel l source : Nat)
    (pushed : ∀ m m' x, Inv m → NgxList.push l x m = .ok () m' → Inv m')
    (thrown : ∀ m m' e, Inv m → NgxList.prepare l m = .raised e m' → Inv m') :
    Keeps Inv (NgxList.mergeWithin fuel l source) :=
  .bind (.zoom _ fun _ _ => id) fun it =>
    keeps_visitFrom (fun v => keeps_assign l v pushed thrown) fuel it

theorem Settled.merge (fuel : Nat) {source : Nat} (settled : Settled m)
    (left : (NgxList.mergeWithin fuel l source m).state? = some m') : Settled m' :=
  keeps_mergeWithin fuel l source (fun _ _ _ => Settled.pushed) (fun _ _ _ => Settled.thrown) m
    settled m' left

inductive ListStep : ListMem T → ListMem T → Prop where
  | op {m m' : ListMem T} (op : ListOp T) : (op.run m).state? = some m' → ListStep m m'
  | merge {m m' : ListMem T} (fuel l source : Nat) :
      (NgxList.mergeWithin fuel l source m).state? = some m' → ListStep m m'

/-- The memories that constructions, pushes, clears, reinitialisations and merges
reach, however the pool answers. -/
inductive Reachable : ListMem T → Prop where
  | start (grants : List Bool) : Reachable { grants }
  | step {m m' : ListMem T} : Reachable m → ListStep m m' → Reachable m'

theorem ListStep.settled (step : ListStep m m') (settled : Settled m) : Settled m' := by
  cases step with
  | op op left =>
    cases op with
    | create n => exact Keeps.bind (keeps_create n) (fun _ => .pure ()) m settled m' left
    | push l x => exact keeps_push l x m settled m' left
    | clear l => exact keeps_clear l m settled m' left
    | reinit l n => exact keeps_reinit l n m settled m' left
    | merge l source => exact settled.merge m.fuel left
  | merge fuel l source left => exact settled.merge fuel left

theorem Reachable.settled (reach : Reachable m) : Settled m := by
  induction reach with
  | start grants => exact ⟨⟨id, id⟩, fun l hdr header => by simp [Heap.read] at header⟩
  | step _ step ih => exact step.settled ih

end Reach

end NgxCpp
