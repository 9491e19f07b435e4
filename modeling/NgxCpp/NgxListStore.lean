import NgxCpp.NgxListTraversal

/-! Writing through a reference to an element of a list. -/

namespace NgxCpp
open Foundation

variable {T : Type}

def PartView.assign (a i : Nat) (x : T) (v : PartView T) : PartView T :=
  { v with elems := if v.array = a then v.elems.set i x else v.elems }

def ListShape.assign (sh : ListShape T) (a i : Nat) (x : T) : ListShape T :=
  { sh with front := sh.front.map (PartView.assign a i x), tail := sh.tail.assign a i x }

theorem ListShape.views_assign (sh : ListShape T) (a i : Nat) (x : T) :
    (sh.assign a i x).views = sh.views.map (PartView.assign a i x) := by
  simp [views, assign]

theorem PartView.assign_eq_nil {a i : Nat} {x : T} {v : PartView T} :
    (v.assign a i x).elems = [] ↔ v.elems = [] := by
  simp only [assign]
  split <;> simp

theorem elemsOf_assign {before after : List (PartView T)} {v : PartView T} {i : Nat} (x : T)
    (distinct : ((before ++ v :: after).map PartView.array).Nodup) (inside : i < v.elems.length) :
    elemsOf ((before ++ v :: after).map (PartView.assign v.array i x)) =
      (elemsOf (before ++ v :: after)).set ((elemsOf before).length + i) x := by
  have other : ∀ w : PartView T, w.array ≠ v.array → w.assign v.array i x = w := by
    intro w different
    simp [PartView.assign, different]
  simp only [List.map_append, List.map_cons, List.nodup_append, List.nodup_cons] at distinct
  have front : before.map (PartView.assign v.array i x) = before := by
    rw [List.map_congr_left fun w member =>
      other w (distinct.2.2 _ (List.mem_map_of_mem member) _ (by simp))]
    exact List.map_id' before
  have back : after.map (PartView.assign v.array i x) = after := by
    rw [List.map_congr_left fun w member =>
      other w fun same => distinct.2.1.1 (same ▸ List.mem_map_of_mem member)]
    exact List.map_id' after
  rw [List.map_append, List.map_cons, front, back]
  simp only [elemsOf, List.flatMap_append, List.flatMap_cons, PartView.assign, if_true]
  rw [List.set_append_right _ _ (Nat.le_add_right _ _), Nat.add_sub_cancel_left,
    List.set_append_left _ _ inside]

namespace Represents

variable {m : ListMem T} {l n a i : Nat} {sh : ListShape T} {slots : List (Option T)}

theorem assign (rep : Represents m l sh) (stored : m.arrays.read a = some slots) (x : T) :
    Represents (m.setArray a (slots.set i (some x))) l (sh.assign a i x) where
  header := rep.header
  linked := by
    have addrs : (sh.assign a i x).views.map PartView.addr = sh.views.map PartView.addr := by
      rw [ListShape.views_assign, List.map_map]
      rfl
    rw [addrs]
    exact rep.linked
  held v member := by
    rw [ListShape.views_assign] at member
    obtain ⟨w, inside, rfl⟩ := List.mem_map.mp member
    obtain ⟨part, slots', found, elts, nelts, stored', starts⟩ := rep.held w inside
    by_cases same : w.array = a
    · subst same
      obtain rfl := Option.some.inj (stored.symm.trans stored')
      refine ⟨part, _, found, elts, ?_, Heap.read_write_self stored, ?_⟩
      · simp only [PartView.assign, if_true, List.length_set, nelts]
      · simp only [PartView.assign, if_true, List.length_set]
        rw [List.take_set, starts, List.map_set]
    · refine ⟨part, slots', found, elts, ?_, (Heap.read_write_ne same).trans stored', ?_⟩
      · simp only [PartView.assign, if_neg same, nelts]
      · simp only [PartView.assign, if_neg same, starts]
  last := rep.last
  room v member := by
    rw [ListShape.views_assign] at member
    obtain ⟨w, inside, rfl⟩ := List.mem_map.mp member
    obtain ⟨slots', stored', length⟩ := rep.room w inside
    by_cases same : w.array = a
    · subst same
      obtain rfl := Option.some.inj (stored.symm.trans stored')
      exact ⟨_, Heap.read_write_self stored, (List.length_set ..).trans length⟩
    · exact ⟨slots', (Heap.read_write_ne same).trans stored', length⟩
  distinct := by
    rw [ListShape.views_assign, List.map_map]
    exact rep.distinct
  filled := by
    refine rep.filled.imp (fun single => by simp [ListShape.assign, single]) ?_
    intro filled v member
    rw [ListShape.views_assign] at member
    obtain ⟨w, inside, rfl⟩ := List.mem_map.mp member
    exact fun none => filled w inside (PartView.assign_eq_nil.mp none)
  nalloc_pos := rep.nalloc_pos

theorem store (rep : Represents m l sh) (inside : n < sh.elems.length) (x : T) :
    ∃ slot m' sh', (position sh.views n).dereference m = .ok slot m ∧
      loadSlot slot m = .ok sh.elems[n] m ∧ storeSlot slot x m = .ok () m' ∧
      Represents m' l sh' ∧ sh'.elems = sh.elems.set n x := by
  obtain ⟨slot, place, at_n, loaded⟩ := rep.dereference_position inside
  obtain ⟨before, v, after, i, split, bound, -, -, place', -, count⟩ := position_split inside
  obtain rfl := Option.some.inj (place.symm.trans place')
  obtain ⟨slots, -, stored, starts⟩ := rep.part_at split
  have width := congrArg List.length starts
  simp only [List.length_take, List.length_map] at width
  refine ⟨_, _, sh.assign v.array i x, at_n, loaded, storeSlot_ok x stored (by simp only; omega),
    rep.assign stored x, ?_⟩
  have distinct := rep.distinct
  rw [split] at distinct
  rw [ListShape.elems, ListShape.views_assign, split, elemsOf_assign x distinct bound, count,
    ListShape.elems, split]

end Represents

end NgxCpp
