import NgxCpp.NgxListShape

/-! Traversals of a represented list. `position views n` is the iterator at
element `n`, and stepping, testing and reading an iterator move along these
positions; `visit` and `find` follow by induction on what is left. -/

namespace NgxCpp
open Foundation

variable {T σ : Type}

/-- The iterator at element `n` of these parts: past the last element it is the
end iterator. -/
def position : List (PartView T) → Nat → NgxListIterator
  | [], _ => NgxList.endIter
  | v :: vs, n =>
    if n < v.elems.length then ⟨some v.addr, some v.array, n⟩
    else position vs (n - v.elems.length)

theorem position_split {views : List (PartView T)} {n : Nat} (inside : n < (elemsOf views).length) :
    ∃ before v after i, views = before ++ v :: after ∧ i < v.elems.length ∧
      position views n = ⟨some v.addr, some v.array, i⟩ ∧
      (elemsOf views)[n]? = v.elems[i]? ∧ (slotsOf views)[n]? = some ⟨v.array, i⟩ ∧
      position views (n + 1) = (if i + 1 < v.elems.length then ⟨some v.addr, some v.array, i + 1⟩
        else position after 0) ∧ n = (elemsOf before).length + i := by
  induction views generalizing n with
  | nil => simp [elemsOf] at inside
  | cons v vs ih =>
    by_cases here : n < v.elems.length
    · refine ⟨[], v, vs, n, rfl, here, by simp [position, here], ?_, ?_, ?_, by simp [elemsOf]⟩
      · simp [elemsOf, List.getElem?_append_left here]
      · simp [slotsOf, List.getElem?_append_left, here]
      · by_cases next : n + 1 < v.elems.length
        · simp [position, next]
        · have done : n + 1 - v.elems.length = 0 := by omega
          simp [position, next, done]
    · have later : n - v.elems.length < (elemsOf vs).length := by
        simp only [elemsOf, List.flatMap_cons, List.length_append] at inside ⊢
        omega
      obtain ⟨before, w, after, i, split, bound, at_n, value, place, next, count⟩ := ih later
      refine ⟨v :: before, w, after, i, by simp [split], bound, ?_, ?_, ?_, ?_, ?_⟩
      · simpa [position, here] using at_n
      · rw [← value]
        simp only [elemsOf, List.flatMap_cons]
        rw [List.getElem?_append_right (Nat.le_of_not_lt here)]
      · rw [← place]
        simp only [slotsOf, List.flatMap_cons]
        rw [List.getElem?_append_right (by simpa using here)]
        simp
      · have past : ¬ n + 1 < v.elems.length := by omega
        have shift : n + 1 - v.elems.length = n - v.elems.length + 1 := by omega
        simp only [position, past, if_false, shift, next]
      · simp only [elemsOf, List.flatMap_cons, List.length_append] at count ⊢
        omega

theorem position_end {views : List (PartView T)} {n : Nat} (past : (elemsOf views).length ≤ n) :
    position views n = NgxList.endIter := by
  induction views generalizing n with
  | nil => rfl
  | cons v vs ih =>
    simp only [elemsOf, List.flatMap_cons, List.length_append] at past
    have beyond : ¬ n < v.elems.length := by omega
    rw [position, if_neg beyond]
    exact ih (by simp only [elemsOf]; omega)

theorem length_slotsOf (views : List (PartView T)) :
    (slotsOf views).length = (elemsOf views).length := by
  simp [slotsOf, elemsOf, List.length_flatMap]

namespace NgxList

variable {m : ListMem T} {l : Nat} {hdr : NgxListT} {first : NgxListPart}

theorem beginIter_eq (header : m.lists.read l = some hdr)
    (found : m.parts.read hdr.part = some first) :
    beginIter l m = .ok ⟨some hdr.part, first.elts, 0⟩ m := by
  rw [beginIter, NgxListIterator.ofList, Exec.bind_ok _ (readList_ok header),
    Exec.bind_ok _ (readPart_ok found)]
  rfl

theorem empty_apply (header : m.lists.read l = some hdr)
    (found : m.parts.read hdr.part = some first) :
    empty l m = .ok (first.nelts == 0) m := by
  rw [empty, Exec.bind_ok _ (readList_ok header), Exec.bind_ok _ (readPart_ok found)]
  rfl

end NgxList

namespace Represents

variable {m : ListMem T} {l n : Nat} {sh : ListShape T}

theorem part_at (rep : Represents m l sh) {before after : List (PartView T)} {v : PartView T}
    (split : sh.views = before ++ v :: after) :
    ∃ slots, m.parts.read v.addr =
        some ⟨some v.array, v.elems.length, (after.map PartView.addr).head?⟩ ∧
      m.arrays.read v.array = some slots ∧
      slots.take v.elems.length = v.elems.map some := by
  obtain ⟨part, slots, found, elts, nelts, stored, starts⟩ := rep.held v (by simp [split])
  have linked := rep.linked
  rw [split, List.map_append, List.map_cons] at linked
  have next := linked.next_eq
  rw [ListMem.nextPart, found, Option.map_some, Option.some.injEq] at next
  exact ⟨slots, by rw [found, ← elts, ← nelts, ← next], stored, starts⟩

theorem load_slot {slots : List (Option T)} {v : PartView T} {i : Nat}
    (stored : m.arrays.read v.array = some slots)
    (starts : slots.take v.elems.length = v.elems.map some) (inside : i < v.elems.length) :
    m.load ⟨v.array, i⟩ = v.elems[i]? := by
  have value := congrArg (fun xs => xs[i]?) starts
  simp only [List.getElem?_take, inside, if_true, List.getElem?_map] at value
  simp [ListMem.load, stored, value, List.getElem?_eq_getElem inside]

theorem valid_position (rep : Represents m l sh) (inside : n < sh.elems.length) :
    (position sh.views n).valid m = .ok true m := by
  obtain ⟨before, v, after, i, split, bound, at_n, -⟩ := position_split inside
  obtain ⟨slots, part, -⟩ := rep.part_at split
  have counted : v.elems.length ≠ 0 := Nat.ne_of_gt (Nat.zero_lt_of_lt bound)
  simp only [at_n, NgxListIterator.valid]
  rw [Exec.bind_ok _ (readPart_ok part)]
  simp [counted]

theorem dereference_position (rep : Represents m l sh) (inside : n < sh.elems.length) :
    ∃ slot, (slotsOf sh.views)[n]? = some slot ∧
      (position sh.views n).dereference m = .ok slot m ∧
      loadSlot slot m = .ok (sh.elems[n]) m := by
  obtain ⟨before, v, after, i, split, bound, at_n, value, place, -⟩ := position_split inside
  obtain ⟨slots, -, stored, starts⟩ := rep.part_at split
  refine ⟨_, place, by rw [at_n]; rfl, Exec.deref_some ?_⟩
  rw [load_slot stored starts bound, ← value]
  exact List.getElem?_eq_getElem inside

theorem increment_position (rep : Represents m l sh) (filled : ∀ v ∈ sh.views, v.elems ≠ [])
    (inside : n < sh.elems.length) :
    (position sh.views n).increment m = .ok (position sh.views (n + 1)) m := by
  obtain ⟨before, v, after, i, split, bound, at_n, -, -, next, -⟩ := position_split inside
  obtain ⟨slots, part, -⟩ := rep.part_at split
  simp only [at_n, next, NgxListIterator.increment]
  rw [Exec.bind_ok _ (readPart_ok part)]
  by_cases more : i + 1 < v.elems.length
  · simp [more]
  · rw [if_neg more, if_neg more]
    cases after with
    | nil => rfl
    | cons w after =>
      have split' : sh.views = (before ++ [v]) ++ w :: after := by simp [split]
      obtain ⟨slots', part', -⟩ := rep.part_at split'
      have counted : 0 < w.elems.length :=
        List.length_pos_iff.mpr (filled w (by simp [split]))
      simp only [List.map_cons, List.head?_cons]
      rw [Exec.bind_ok _ (readPart_ok part')]
      simp [position, counted]

theorem first_part (rep : Represents m l sh) : ∃ v after, sh.views = v :: after ∧
    sh.hdr.part = v.addr ∧ m.parts.read sh.hdr.part =
      some ⟨some v.array, v.elems.length, (after.map PartView.addr).head?⟩ := by
  cases shape : sh.views with
  | nil => simp [ListShape.views] at shape
  | cons v after =>
    have start := rep.linked.head_eq
    rw [shape, List.map_cons, List.head?_cons, Option.some.injEq] at start
    obtain ⟨slots, part, -⟩ := rep.part_at (show sh.views = [] ++ v :: after from shape)
    exact ⟨v, after, rfl, start.symm, by rw [← start]; exact part⟩

theorem elems_eq_nil (rep : Represents m l sh) (none : sh.elems = []) :
    sh.front = [] ∧ sh.tail.elems = [] := by
  have empty : sh.tail.elems = [] := by
    simp only [ListShape.elems, elemsOf, List.flatMap_eq_nil_iff] at none
    exact none _ (tail_mem sh)
  exact ⟨rep.filled.resolve_right fun filled => filled _ (tail_mem sh) empty, empty⟩

theorem views_filled (rep : Represents m l sh) (some : sh.elems ≠ []) :
    ∀ v ∈ sh.views, v.elems ≠ [] := by
  rcases rep.filled with single | filled
  · intro v member empty
    obtain rfl : v = sh.tail := by simpa [ListShape.views, single] using member
    exact some (by simp [ListShape.elems, elemsOf, ListShape.views, single, empty])
  · exact filled

theorem beginIter_of_ne_nil (rep : Represents m l sh) (some : sh.elems ≠ []) :
    NgxList.beginIter l m = .ok (position sh.views 0) m := by
  obtain ⟨v, after, shape, start, part⟩ := rep.first_part
  have counted := List.length_pos_iff.mpr (rep.views_filled some v (by simp [shape]))
  rw [NgxList.beginIter_eq rep.header part]
  simp [shape, position, counted, start]

theorem beginIter_of_nil (rep : Represents m l sh) (none : sh.elems = []) :
    ∃ it, NgxList.beginIter l m = .ok it m ∧ it.valid m = .ok false m := by
  obtain ⟨v, after, shape, start, part⟩ := rep.first_part
  have empty : v.elems = [] := by
    rw [ListShape.elems, shape, elemsOf, List.flatMap_cons, List.append_eq_nil_iff] at none
    exact none.1
  refine ⟨⟨some sh.hdr.part, some v.array, 0⟩, NgxList.beginIter_eq rep.header part, ?_⟩
  simp only [NgxListIterator.valid]
  rw [Exec.bind_ok _ (readPart_ok part)]
  simp [empty]

theorem lt_fuel (rep : Represents m l sh) : sh.elems.length < m.fuel := by
  have counts : (sh.views.map PartView.addr).map
      (fun p => ((m.parts.read p).map NgxListPart.nelts).getD 0) =
        sh.views.map fun v => v.elems.length := by
    rw [List.map_map]
    refine List.map_congr_left fun v member => ?_
    obtain ⟨part, _, found, _, nelts, _⟩ := rep.held v member
    simp [found, nelts]
  have bound := Heap.sum_le (h := m.parts) NgxListPart.nelts _ rep.linked.nodup
  rw [counts] at bound
  simp only [ListShape.elems, elemsOf, List.length_flatMap, ListMem.fuel]
  omega

theorem findFrom_eq (rep : Represents m l sh) (filled : ∀ v ∈ sh.views, v.elems ≠ [])
    (p : T → Bool) (fuel : Nat) (within : n ≤ sh.elems.length)
    (enough : sh.elems.length < n + fuel) :
    NgxList.findFrom p fuel (position sh.views n) m =
      .ok (position sh.views (n + (sh.elems.drop n).findIdx p)) m := by
  induction fuel generalizing n with
  | zero => omega
  | succ fuel ih =>
    by_cases inside : n < sh.elems.length
    · obtain ⟨slot, -, at_n, loaded⟩ := rep.dereference_position inside
      rw [NgxList.findFrom, Exec.bind_ok _ (rep.valid_position inside), if_pos rfl,
        Exec.bind_ok _ at_n, Exec.bind_ok _ loaded, List.drop_eq_getElem_cons inside,
        List.findIdx_cons]
      cases found : p sh.elems[n] with
      | true => simp
      | false =>
        rw [if_neg (by simp), Exec.bind_ok _ (rep.increment_position filled inside),
          ih inside (by omega)]
        simp only [cond_false]
        rw [Nat.succ_add_eq_add_succ]
    · have past := Nat.le_of_not_lt inside
      rw [List.drop_of_length_le past, position_end past]
      simp only [List.findIdx_nil, Nat.add_zero, position_end past]
      rfl

theorem find_eq (rep : Represents m l sh) (p : T → Bool) :
    NgxList.find l p m = .ok (position sh.views (sh.elems.findIdx p)) m := by
  have fuel := rep.lt_fuel
  by_cases none : sh.elems = []
  · obtain ⟨it, started, invalid⟩ := rep.beginIter_of_nil none
    have past : position sh.views (sh.elems.findIdx p) = NgxList.endIter := by
      refine position_end ?_
      rw [← ListShape.elems, none]
      exact Nat.zero_le _
    obtain ⟨k, enough⟩ := Nat.exists_eq_add_of_lt fuel
    rw [NgxList.find, Exec.bind_ok _ (Exec.gets_apply _ m), Exec.bind_ok _ started, enough,
      NgxList.findFrom, Exec.bind_ok _ invalid, past]
    rfl
  · have found := rep.findFrom_eq (n := 0) (rep.views_filled none) p m.fuel (Nat.zero_le _)
      (by omega)
    rw [NgxList.find, Exec.bind_ok _ (Exec.gets_apply _ m),
      Exec.bind_ok _ (rep.beginIter_of_ne_nil none), found]
    simp

end Represents

section Visit

variable {mem : σ → ListMem T} {v : Slot → Ngx σ Unit} {Inv : σ → Prop} {l n : Nat}
  {sh : ListShape T}

theorem visitFrom_eq (rep : ∀ s, Inv s → Represents (mem s) l sh)
    (kept : ∀ slot ∈ slotsOf sh.views, ∀ s s', Inv s → v slot s = .ok () s' → Inv s')
    (filled : ∀ w ∈ sh.views, w.elems ≠ []) (fuel : Nat) (within : n ≤ sh.elems.length)
    (enough : sh.elems.length < n + fuel) {s : σ} (start : Inv s) :
    NgxList.visitFrom mem v fuel (position sh.views n) s =
      Exec.each v ((slotsOf sh.views).drop n) s := by
  induction fuel generalizing n s with
  | zero => omega
  | succ fuel ih =>
    by_cases inside : n < sh.elems.length
    · obtain ⟨slot, place, at_n, -⟩ := (rep s start).dereference_position inside
      obtain ⟨bound, value⟩ := List.getElem?_eq_some_iff.mp place
      rw [NgxList.visitFrom, Exec.bind_ok _ (Exec.view_ok ((rep s start).valid_position inside)),
        if_pos rfl, Exec.bind_ok _ (Exec.view_ok at_n), List.drop_eq_getElem_cons bound, value,
        Exec.each, Exec.bind_apply, Exec.bind_apply]
      cases done : v slot s with
      | ok u s' =>
        have next := kept slot (List.mem_of_getElem? place) s s' start done
        simp only
        rw [Exec.bind_ok _ (Exec.view_ok ((rep s' next).increment_position filled inside)),
          ih inside (by omega) next]
      | raised e s' => rfl
      | undefined => rfl
      | exhausted => rfl
    · have past := Nat.le_of_not_lt inside
      rw [position_end past, List.drop_of_length_le (by rw [length_slotsOf]; exact past)]
      rfl

theorem visit_eq (Inv : σ → Prop) (rep : ∀ s, Inv s → Represents (mem s) l sh)
    (kept : ∀ slot ∈ slotsOf sh.views, ∀ s s', Inv s → v slot s = .ok () s' → Inv s') {s : σ}
    (start : Inv s) : NgxList.visit mem l v s = Exec.each v (slotsOf sh.views) s := by
  have fuel := (rep s start).lt_fuel
  rw [NgxList.visit, Exec.bind_ok _ (Exec.gets_apply _ s)]
  by_cases none : sh.elems = []
  · obtain ⟨it, started, invalid⟩ := (rep s start).beginIter_of_nil none
    have empty : slotsOf sh.views = [] := by
      rw [← List.length_eq_zero_iff, length_slotsOf, ← ListShape.elems, none]
      rfl
    obtain ⟨k, enough⟩ := Nat.exists_eq_add_of_lt fuel
    rw [Exec.bind_ok _ (Exec.view_ok started), enough, NgxList.visitFrom,
      Exec.bind_ok _ (Exec.view_ok invalid), empty]
    rfl
  · rw [Exec.bind_ok _ (Exec.view_ok ((rep s start).beginIter_of_ne_nil none)),
      visitFrom_eq rep kept ((rep s start).views_filled none) _ (Nat.zero_le _) (by omega) start,
      List.drop_zero]

end Visit

end NgxCpp
