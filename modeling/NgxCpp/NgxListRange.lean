import NgxCpp.NgxListReach

/-! The two ways through an `NgxList`: `visit` goes on while the iterator is true,
a range-for until it equals `end`. They agree on the lists with elements. -/

namespace NgxCpp
open Foundation

variable {T σ : Type}

namespace NgxList

def rangeForFrom (mem : σ → ListMem T) (v : Slot → Ngx σ Unit) : Nat → NgxListIterator → Ngx σ Unit
  | 0, _ => Exec.exhausted
  | fuel + 1, it =>
    if it ≠ endIter then do
      let slot ← Exec.view mem it.dereference
      v slot
      let next ← Exec.view mem it.increment
      rangeForFrom mem v fuel next
    else pure ()

def rangeFor (mem : σ → ListMem T) (fuel l : Nat) (v : Slot → Ngx σ Unit) : Ngx σ Unit := do
  let it ← Exec.view mem (beginIter l)
  rangeForFrom mem v fuel it

/-- The iterators that a range-for over list `l` comes to. -/
inductive Ranges (m : ListMem T) (l : Nat) : NgxListIterator → Prop where
  | start {it : NgxListIterator} : beginIter l m = .ok it m → Ranges m l it
  | next {it it' : NgxListIterator} {slot : Slot} : Ranges m l it → it ≠ endIter →
      it.dereference m = .ok slot m → it.increment m = .ok it' m → Ranges m l it'

/-- The visitor may write elements, but leaves the lists as they are. -/
def KeepsLists (mem : σ → ListMem T) (v : Slot → Ngx σ Unit) : Prop :=
  ∀ slot s s', v slot s = .ok () s' →
    (mem s').lists = (mem s).lists ∧ (mem s').parts = (mem s).parts

/-- A range-for shows a visitor what `visit` shows it, and each slot it dereferences
is counted by its part. -/
structure ProtocolsAgree (m : ListMem T) (l : Nat) : Prop where
  same : ∀ {σ : Type} (mem : σ → ListMem T) (v : Slot → Ngx σ Unit), KeepsLists mem v →
    ∀ fuel s, mem s = m → rangeFor mem fuel l v s = visitWithin mem fuel l v s
  inside : ∀ it slot, Ranges m l it → it ≠ endIter → it.dereference m = .ok slot m →
    ∃ p part, it.part = some p ∧ m.parts.read p = some part ∧ part.elts = some slot.array ∧
      slot.index < part.nelts

def HasElements (m : ListMem T) (l : Nat) (hdr : NgxListT) : Prop :=
  empty l m = .ok false m ∧
    ∃ first a, m.parts.read hdr.part = some first ∧ first.elts = some a

end NgxList

/-! Testing and moving an iterator look at the parts and at nothing else. -/

namespace NgxListIterator

variable {m m' : ListMem T} {it next : NgxListIterator}

theorem readPart_of_parts {p : Nat} {part : NgxListPart} {mid : ListMem T}
    (same : m'.parts = m.parts) (read : readPart p m = .ok part mid) :
    mid = m ∧ readPart p m' = .ok part m' := by
  obtain ⟨found, rfl⟩ := Exec.deref_eq_ok.mp read
  exact ⟨rfl, readPart_ok (by rw [same, found])⟩

theorem valid_of_parts {more : Bool} (same : m'.parts = m.parts)
    (tested : it.valid m = .ok more m) : it.valid m' = .ok more m' := by
  obtain ⟨_ | p, _ | a, count⟩ := it
  case some.some =>
    obtain ⟨part, mid, read, rest⟩ := Exec.bind_eq_ok.mp tested
    obtain ⟨rfl, read'⟩ := readPart_of_parts same read
    obtain ⟨rfl, -⟩ := Outcome.ok.inj rest
    exact Exec.bind_ok _ read'
  all_goals
    obtain ⟨rfl, -⟩ := Outcome.ok.inj tested
    rfl

theorem increment_of_parts (same : m'.parts = m.parts)
    (moved : it.increment m = .ok next m) : it.increment m' = .ok next m' := by
  obtain ⟨_ | p, _ | a, count⟩ := it
  case some.some =>
    obtain ⟨part, mid, read, rest⟩ := Exec.bind_eq_ok.mp moved
    obtain ⟨rfl, read'⟩ := readPart_of_parts same read
    refine (Exec.bind_ok _ read').trans ?_
    by_cases more : count + 1 < part.nelts
    · rw [if_pos more] at rest ⊢
      obtain ⟨rfl, -⟩ := Outcome.ok.inj rest
      rfl
    · rw [if_neg more] at rest ⊢
      cases later : part.next with
      | none =>
        simp only [later] at rest
        obtain ⟨rfl, -⟩ := Outcome.ok.inj rest
        rfl
      | some q =>
        simp only [later] at rest
        obtain ⟨after, mid, reads, done⟩ := Exec.bind_eq_ok.mp rest
        obtain ⟨rfl, reads'⟩ := readPart_of_parts same reads
        obtain ⟨rfl, -⟩ := Outcome.ok.inj done
        exact Exec.bind_ok _ reads'
  all_goals
    obtain ⟨rfl, -⟩ := Outcome.ok.inj moved
    rfl

end NgxListIterator

namespace NgxList

variable {m : ListMem T} {l : Nat} {hdr : NgxListT} {first last : NgxListPart}
  {sh : ListShape T}

theorem Ranges.position (rep : Represents m l sh) (some : sh.elems ≠ []) {it : NgxListIterator}
    (ranges : Ranges m l it) : ∃ n, it = position sh.views n := by
  induction ranges with
  | start begun =>
    rw [rep.beginIter_of_ne_nil some] at begun
    exact ⟨0, (Outcome.ok.inj begun).1.symm⟩
  | next before more _ moved ih =>
    obtain ⟨n, rfl⟩ := ih
    have inside : n < sh.elems.length := by
      by_contra past
      exact more (position_end (Nat.le_of_not_lt past))
    rw [rep.increment_position (rep.views_filled some) inside] at moved
    exact ⟨n + 1, (Outcome.ok.inj moved).1.symm⟩

theorem rangeForFrom_eq_visitFrom {mem : σ → ListMem T} {v : Slot → Ngx σ Unit}
    (rep : Represents m l sh) (some : sh.elems ≠ []) (keeps : KeepsLists mem v) (fuel n : Nat)
    {s : σ} (same : (mem s).parts = m.parts) :
    rangeForFrom mem v fuel (NgxCpp.position sh.views n) s =
      visitFrom mem v fuel (NgxCpp.position sh.views n) s := by
  induction fuel generalizing n s with
  | zero => rfl
  | succ fuel ih =>
    by_cases inside : n < sh.elems.length
    · have valid := NgxListIterator.valid_of_parts same (rep.valid_position inside)
      rw [rangeForFrom, visitFrom, if_pos (Represents.position_ne_end inside),
        Exec.bind_ok _ (Exec.view_ok valid), if_pos rfl]
      refine Exec.bind_congr fun slot t seen => ?_
      obtain ⟨-, rfl⟩ := Exec.view_eq_ok.mp seen
      refine Exec.bind_congr fun _ s' visited => ?_
      have same' : (mem s').parts = m.parts := (keeps slot t s' visited).2.trans same
      have moved := NgxListIterator.increment_of_parts same'
        (rep.increment_position (rep.views_filled some) inside)
      rw [Exec.bind_ok _ (Exec.view_ok moved), Exec.bind_ok _ (Exec.view_ok moved)]
      exact ih (n + 1) same'
    · rw [position_end (Nat.le_of_not_lt inside)]
      rfl

theorem protocolsAgree_of_elements (rep : Represents m l sh) (some : sh.elems ≠ []) :
    ProtocolsAgree m l where
  same mem v keeps fuel s start := by
    have begun : Exec.view mem (beginIter l) s = .ok (NgxCpp.position sh.views 0) s :=
      Exec.view_ok (s := m) (start ▸ rep.beginIter_of_ne_nil some)
    rw [rangeFor, visitWithin, Exec.bind_ok _ begun, Exec.bind_ok _ begun]
    exact rangeForFrom_eq_visitFrom rep some keeps fuel 0 (start ▸ rfl)
  inside it slot ranges more read := by
    obtain ⟨n, rfl⟩ := ranges.position rep some
    have inside : n < sh.elems.length := by
      by_contra past
      exact more (position_end (Nat.le_of_not_lt past))
    obtain ⟨before, v, after, i, split, bound, at_n, -⟩ := position_split inside
    obtain ⟨slots, part, -⟩ := rep.part_at split
    rw [at_n] at read
    obtain ⟨rfl, -⟩ := Outcome.ok.inj read
    exact ⟨v.addr, _, by rw [at_n], part, rfl, bound⟩

theorem disagree_of_missing (header : m.lists.read l = some hdr)
    (found : m.parts.read hdr.part = some first) (missing : first.elts = none) :
    ¬ ProtocolsAgree m l := by
  intro agree
  have begun : Exec.view id (beginIter l) m = .ok ⟨some hdr.part, none, 0⟩ m :=
    Exec.view_ok (missing ▸ beginIter_eq header found)
  have same := agree.same (T := T) id (fun _ => pure ()) (fun _ s s' done => by
    obtain ⟨-, rfl⟩ := Outcome.ok.inj done
    exact ⟨rfl, rfl⟩) 1 m rfl
  rw [rangeFor, visitWithin, Exec.bind_ok _ begun, Exec.bind_ok _ begun] at same
  simp [rangeForFrom, visitFrom, endIter, NgxListIterator.valid, NgxListIterator.dereference,
    Exec.view, Exec.zoom, Exec.bind_apply] at same

theorem disagree_of_empty (header : m.lists.read l = some hdr)
    (found : m.parts.read hdr.part = some first) {a : Nat} (elts : first.elts = some a)
    (empty : first.nelts = 0) : ¬ ProtocolsAgree m l := by
  intro agree
  have begun := beginIter_eq header found
  rw [elts] at begun
  obtain ⟨p, part, same, found', -, bound⟩ :=
    agree.inside _ ⟨a, 0⟩ (.start begun) (by simp [endIter]) rfl
  obtain rfl := Option.some.inj same
  obtain rfl := Option.some.inj (found.symm.trans found')
  simp [empty] at bound

theorem elements_cases {own : Owners} (owned : Owned m own l hdr first last) :
    (HasElements m l hdr ∧ ∃ sh, Represents m l sh ∧
        (∀ v ∈ sh.views, own.part v.addr = l ∧ own.array v.array = l) ∧ sh.elems ≠ []) ∨
      (¬ HasElements m l hdr ∧ (first.elts = none ∨ first.nelts = 0)) := by
  have found := owned.at_first
  have emptiness := empty_apply owned.header found
  cases elts : first.elts with
  | none =>
    refine .inr ⟨?_, .inl rfl⟩
    rintro ⟨-, first', a, found', elts'⟩
    obtain rfl := Option.some.inj (found.symm.trans found')
    simp [elts] at elts'
  | some a =>
    by_cases none : first.nelts = 0
    · refine .inr ⟨?_, .inr none⟩
      rintro ⟨counted, -⟩
      simp [emptiness, none] at counted
    · refine .inl ⟨⟨by simp [emptiness, none], first, a, found, elts⟩, ?_⟩
      rcases owned.state with broken | ⟨-, -, zero⟩ | ⟨sh, rep, mine⟩
      · simp [broken] at elts
      · exact absurd zero none
      · refine ⟨sh, rep, mine, fun nothing => none ?_⟩
        have known := rep.empty_eq
        rw [emptiness, nothing] at known
        simpa using known

/-- On every list that operations reach, the two protocols agree exactly when the
list has elements. -/
theorem protocols_agree_iff (reach : Reachable m) (header : m.lists.read l = some hdr) :
    ProtocolsAgree m l ↔ HasElements m l hdr := by
  obtain ⟨own, lists⟩ := reach.settled
  obtain ⟨first, last, owned⟩ := lists l hdr header
  obtain ⟨has, sh, rep, -, some⟩ | ⟨hasNot, missing | none⟩ := elements_cases owned
  · exact iff_of_true (protocolsAgree_of_elements rep some) has
  · exact iff_of_false (disagree_of_missing header owned.at_first missing) hasNot
  · refine iff_of_false ?_ hasNot
    cases elts : first.elts with
    | none => exact disagree_of_missing header owned.at_first elts
    | some a => exact disagree_of_empty header owned.at_first elts none

private def twoParts : ListMem Nat where
  lists := ⟨[⟨0, 1, 1⟩]⟩
  parts := ⟨[⟨some 0, 1, some 1⟩, ⟨some 1, 1, none⟩]⟩
  arrays := ⟨[[some 7], [some 8]]⟩

private theorem twoParts_reachable : Reachable twoParts := by
  have created : Reachable _ := (Reachable.start []).step (.op (T := Nat) (.create 1) rfl)
  have pushed : Reachable _ := created.step (.op (.push 0 7) rfl)
  exact pushed.step (.op (.push 0 8) rfl)

theorem protocols_agree_two_parts :
    ProtocolsAgree twoParts 0 ↔ HasElements twoParts 0 ⟨0, 1, 1⟩ :=
  protocols_agree_iff twoParts_reachable rfl

/-- A new list: its first part has an array and no element. -/
theorem protocols_disagree_on_empty :
    ¬ ∀ (m : ListMem Nat) (l : Nat) (hdr : NgxListT), Reachable m → m.lists.read l = some hdr →
      ProtocolsAgree m l := by
  intro agree
  let m : ListMem Nat :=
    { lists := ⟨[⟨0, 0, 10⟩]⟩
      parts := ⟨[⟨some 0, 0, none⟩]⟩
      arrays := ⟨[List.replicate 10 none]⟩ }
  have reach : Reachable m := (Reachable.start []).step (.op (.create 10) rfl)
  exact disagree_of_empty (a := 0) rfl rfl rfl rfl (agree m 0 ⟨0, 0, 10⟩ reach rfl)

end NgxList

end NgxCpp
