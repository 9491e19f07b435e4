import Mathlib.Data.List.Chain
import Mathlib.Data.List.Nodup
import Mathlib.Logic.Function.Iterate

/-! Rings of doubly linked cells: from cell `h` the links lead through the cells `xs` and
back to `h`. Each edit of a ring joins two pairs of cells. -/

namespace Foundation

structure Links (α : Type) where
  next : α → α
  prev : α → α

namespace Links

variable {α : Type} {m : Links α} {a b c h n x : α} {l xs ys : List α}

def Joined (m : Links α) (a b : α) : Prop := m.next a = b ∧ m.prev b = a

def Path (m : Links α) (l : List α) : Prop := l.IsChain m.Joined

structure Ring (m : Links α) (h : α) (xs : List α) : Prop where
  nodup : (h :: xs).Nodup
  path : m.Path (h :: xs ++ [h])

def flip (m : Links α) : Links α := ⟨m.prev, m.next⟩

@[simp] theorem flip_flip (m : Links α) : m.flip.flip = m := rfl

@[simp] theorem flip_next (m : Links α) : m.flip.next = m.prev := rfl

@[simp] theorem flip_prev (m : Links α) : m.flip.prev = m.next := rfl

theorem joined_flip : m.flip.Joined a b ↔ m.Joined b a := and_comm

theorem Path.flip (path : m.Path l) : m.flip.Path l.reverse :=
  List.isChain_reverse.mpr (List.IsChain.imp (fun _ _ joined => joined_flip.mpr joined) path)

theorem Ring.flip (ring : m.Ring h xs) : m.flip.Ring h xs.reverse where
  nodup := ((xs.reverse_perm.cons h).nodup_iff).mpr ring.nodup
  path := by simpa using ring.path.flip

theorem Ring.rotate (ring : m.Ring h (xs ++ x :: ys)) : m.Ring x (ys ++ h :: xs) where
  nodup := by
    have nodup : ((h :: xs) ++ (x :: ys)).Nodup := ring.nodup
    exact List.nodup_append_comm.mp nodup
  path := by
    have whole : h :: (xs ++ x :: ys) ++ [h] = (h :: xs) ++ x :: (ys ++ [h]) := by simp
    have turned : x :: (ys ++ h :: xs) ++ [x] = (x :: ys) ++ h :: (xs ++ [x]) := by simp
    have path := ring.path
    rw [whole] at path
    rw [turned]
    obtain ⟨before, after⟩ := List.isChain_split.mp path
    exact List.isChain_split.mpr ⟨after, before⟩

theorem Ring.rotate_to (ring : m.Ring h xs) (member : c ∈ h :: xs) :
    ∃ ys, m.Ring c ys ∧ (c :: ys).Perm (h :: xs) := by
  obtain rfl | member := List.mem_cons.mp member
  · exact ⟨xs, ring, .refl _⟩
  · obtain ⟨before, after, rfl⟩ := List.append_of_mem member
    have same : ((c :: after) ++ (h :: before)).Perm ((h :: before) ++ (c :: after)) :=
      List.perm_append_comm
    exact ⟨_, ring.rotate, same⟩

theorem Ring.head_eq (ring : m.Ring h xs) : (xs ++ [h]).head? = some (m.next h) := by
  have path := ring.path
  rw [Path, List.cons_append] at path
  cases same : xs ++ [h] with
  | nil => simp at same
  | cons b rest =>
    rw [same, List.isChain_cons_cons] at path
    rw [List.head?_cons, path.1.1]

theorem Ring.getLast_eq (ring : m.Ring h xs) : (h :: xs).getLast? = some (m.prev h) := by
  have first := ring.flip.head_eq
  rwa [← List.reverse_cons, List.head?_reverse] at first

theorem Ring.next_mem (ring : m.Ring h xs) (member : c ∈ h :: xs) : m.next c ∈ h :: xs := by
  obtain ⟨ys, turned, same⟩ := ring.rotate_to member
  have found := List.mem_of_head? turned.head_eq
  exact same.mem_iff.mp (by simpa [or_comm] using found)

theorem Ring.prev_mem (ring : m.Ring h xs) (member : c ∈ h :: xs) : m.prev c ∈ h :: xs := by
  have found := ring.flip.next_mem (c := c) (by simpa using member)
  simpa using found

theorem Ring.prev_next (ring : m.Ring h xs) (member : c ∈ h :: xs) : m.prev (m.next c) = c := by
  obtain ⟨ys, turned, -⟩ := ring.rotate_to member
  have path := turned.path
  have first := turned.head_eq
  rw [Path, List.cons_append, List.isChain_cons] at path
  exact (path.1 _ first).2

theorem Ring.next_prev (ring : m.Ring h xs) (member : c ∈ h :: xs) : m.next (m.prev c) = c :=
  ring.flip.prev_next (by simpa using member)

theorem Path.reach (path : m.Path (a :: l)) (member : c ∈ a :: l) : ∃ i, m.next^[i] a = c := by
  induction l generalizing a with
  | nil => exact ⟨0, (List.mem_singleton.mp member).symm⟩
  | cons b l ih =>
    obtain ⟨joined, rest⟩ := List.isChain_cons_cons.mp path
    obtain rfl | member := List.mem_cons.mp member
    · exact ⟨0, rfl⟩
    · obtain ⟨i, reached⟩ := ih rest member
      exact ⟨i + 1, by rw [Function.iterate_succ_apply, joined.1, reached]⟩

theorem Ring.reach (ring : m.Ring h xs) (member : c ∈ h :: xs) : ∃ i, m.next^[i] h = c :=
  ring.path.reach (List.mem_append_left [h] member)

theorem Ring.prev_eq_self_iff (ring : m.Ring h xs) : m.prev h = h ↔ xs = [] := by
  have last := ring.getLast_eq
  constructor
  · intro alone
    rw [alone] at last
    by_contra more
    obtain ⟨ys, y, rfl⟩ := List.eq_nil_or_concat xs |>.resolve_left more
    rw [List.concat_eq_append, ← List.cons_append, List.getLast?_concat] at last
    have fresh := (List.nodup_cons.mp ring.nodup).1
    simp [Option.some.inj last] at fresh
  · rintro rfl
    exact (Option.some.inj last).symm

theorem nodup_concat (nodup : (h :: xs).Nodup) : (xs ++ [h]).Nodup := by
  rwa [List.nodup_append_comm, List.singleton_append]

theorem Path.uncons (path : m.Path (a :: (xs ++ [h]))) (nodup : (h :: xs).Nodup) :
    ∃ rest, xs ++ [h] = m.next a :: rest ∧ m.Path (m.next a :: rest) ∧ m.next a ∉ rest := by
  have around := nodup_concat nodup
  cases whole : xs ++ [h] with
  | nil => simp at whole
  | cons b rest =>
    rw [whole] at path around
    obtain ⟨joined, path⟩ := List.isChain_cons_cons.mp path
    rw [joined.1]
    exact ⟨rest, rfl, path, (List.nodup_cons.mp around).1⟩

theorem not_mem_dropLast (nodup : l.Nodup) (last : l.getLast? = some c) : c ∉ l.dropLast := by
  obtain ⟨start, rfl⟩ := List.getLast?_eq_some_iff.mp last
  rw [List.dropLast_concat]
  exact fun member => (List.disjoint_of_nodup_append nodup) member (List.mem_singleton.mpr rfl)

/-- Two paths, the last cell of one joined to the first of the other. -/
theorem Path.append (path : m.Path xs) (path' : m.Path ys) (last : xs.getLast? = some a)
    (head : ys.head? = some b) (joined : m.Joined a b) : m.Path (xs ++ ys) := by
  refine List.isChain_append.mpr ⟨path, path', ?_⟩
  intro c at_last d at_head
  obtain rfl := Option.some.inj (last.symm.trans at_last)
  obtain rfl := Option.some.inj (head.symm.trans at_head)
  exact joined

theorem Ring.open (ring : m.Ring h xs) : m.Path (h :: xs) ∧ m.Joined (m.prev h) h := by
  obtain ⟨path, -, joined⟩ := List.isChain_append.mp ring.path
  exact ⟨path, joined _ ring.getLast_eq _ rfl⟩

section Edits

variable [DecidableEq α] {p f : α}

def setNext (m : Links α) (a b : α) : Links α := { m with next := Function.update m.next a b }

def setPrev (m : Links α) (b a : α) : Links α := { m with prev := Function.update m.prev b a }

@[simp] theorem setNext_prev (m : Links α) (a b : α) : (m.setNext a b).prev = m.prev := rfl

@[simp] theorem setPrev_next (m : Links α) (b a : α) : (m.setPrev b a).next = m.next := rfl

@[simp] theorem setNext_next_self (m : Links α) (a b : α) : (m.setNext a b).next a = b :=
  Function.update_self ..

@[simp] theorem setPrev_prev_self (m : Links α) (b a : α) : (m.setPrev b a).prev b = a :=
  Function.update_self ..

def join (m : Links α) (a b : α) : Links α := (m.setNext a b).setPrev b a

theorem join_next (m : Links α) (a b : α) : (m.join a b).next a = b := Function.update_self ..

theorem join_prev (m : Links α) (a b : α) : (m.join a b).prev b = a := Function.update_self ..

theorem join_next_of_ne (m : Links α) (b : α) (other : c ≠ a) :
    (m.join a b).next c = m.next c :=
  Function.update_of_ne other ..

theorem join_prev_of_ne (m : Links α) (a : α) (other : c ≠ b) :
    (m.join a b).prev c = m.prev c :=
  Function.update_of_ne other ..

theorem join_joined (m : Links α) (a b : α) : (m.join a b).Joined a b :=
  ⟨m.join_next a b, m.join_prev a b⟩

theorem flip_join (m : Links α) (a b : α) : (m.join a b).flip = m.flip.join b a := rfl

theorem Joined.join {d : α} (joined : m.Joined c d) (source : c ≠ a) (target : d ≠ b) :
    (m.join a b).Joined c d :=
  ⟨(m.join_next_of_ne b source).trans joined.1, (m.join_prev_of_ne a target).trans joined.2⟩

/-- A path that does not leave `a` nor enter `b` stays when these are joined. -/
theorem Path.join (path : m.Path l) (source : a ∉ l.dropLast) (target : b ∉ l.tail) :
    (m.join a b).Path l := by
  induction l with
  | nil => exact List.IsChain.nil
  | cons c l ih =>
    cases l with
    | nil => exact List.IsChain.singleton c
    | cons d l =>
      obtain ⟨joined, rest⟩ := List.isChain_cons_cons.mp path
      rw [List.dropLast_cons_cons, List.mem_cons, not_or] at source
      have entered : b ∉ l := fun again => target (List.mem_cons_of_mem d again)
      refine List.isChain_cons_cons.mpr ⟨joined.join (Ne.symm source.1) ?_, ?_⟩
      · rintro rfl
        exact target List.mem_cons_self
      · exact ih rest source.2 entered

theorem Ring.join (ring : m.Ring h xs) (source : a ∉ h :: xs) (target : b ∉ h :: xs) :
    (m.join a b).Ring h xs where
  nodup := ring.nodup
  path := ring.path.join (by rwa [List.dropLast_concat]) (by simpa [or_comm] using target)

theorem ring_join_self (m : Links α) (h : α) : (m.join h h).Ring h [] where
  nodup := List.nodup_singleton h
  path := .cons_cons (join_joined m h h) (.singleton h)

theorem Ring.push (ring : m.Ring h xs) (fresh : x ∉ h :: xs) :
    ((m.join x (m.next h)).join h x).Ring h (x :: xs) where
  nodup := by
    obtain ⟨head, rest⟩ := List.nodup_cons.mp ring.nodup
    simp only [List.mem_cons, not_or] at fresh
    simp [fresh.2, head, rest, Ne.symm fresh.1]
  path := by
    obtain ⟨rest, whole, path, once⟩ := ring.path.uncons ring.nodup
    have head := (List.nodup_cons.mp ring.nodup).1
    have start : (m.next h :: rest).dropLast = xs := by rw [← whole, List.dropLast_concat]
    have around : x ∉ m.next h :: rest := by
      rw [← whole]
      simpa [or_comm] using fresh
    simp only [List.mem_cons, not_or] at fresh around
    rw [List.cons_append, List.cons_append, whole]
    have kept : (m.join x (m.next h)).Path (m.next h :: rest) :=
      path.join (by rw [start]; exact fresh.2) once
    have kept' := kept.join (a := h) (b := x) (by rw [start]; exact head) around.2
    have inner := (m.join_joined x (m.next h)).join fresh.1 (Ne.symm around.1)
    exact .cons_cons (join_joined _ h x) (.cons_cons inner kept')

theorem Ring.push_last (ring : m.Ring h xs) (fresh : x ∉ h :: xs) :
    ((m.join (m.prev h) x).join x h).Ring h (xs ++ [x]) := by
  have pushed := ring.flip.push (x := x) (by simpa using fresh)
  rw [flip_next, ← flip_join, ← flip_join] at pushed
  simpa using pushed.flip

theorem Ring.pop (ring : m.Ring h (x :: xs)) : (m.join h (m.next x)).Ring h xs where
  nodup := by
    have nodup := ring.nodup
    simp only [List.nodup_cons, List.mem_cons, not_or] at nodup ⊢
    exact ⟨nodup.1.2, nodup.2.2⟩
  path := by
    have nodup := ring.nodup
    simp only [List.nodup_cons, List.mem_cons, not_or] at nodup
    have path := (List.isChain_cons_cons.mp ring.path).2
    obtain ⟨rest, whole, path, once⟩ :=
      Path.uncons path (List.nodup_cons.mpr ⟨nodup.1.2, nodup.2.2⟩)
    have start : (m.next x :: rest).dropLast = xs := by rw [← whole, List.dropLast_concat]
    rw [List.cons_append, whole]
    exact .cons_cons (join_joined m h (m.next x))
      (path.join (by rw [start]; exact nodup.1.2) once)

/-- The cells of another ring come after those of the ring. The head of that ring is
left behind. -/
theorem Ring.splice (ring : m.Ring h xs) (more : m.Ring n ys)
    (apart : (h :: xs).Disjoint (n :: ys)) :
    ((m.join (m.prev h) (m.next n)).join ((m.join (m.prev h) (m.next n)).prev n) h).Ring h
      (xs ++ ys) where
  nodup := by
    have both := ring.nodup.append (List.nodup_cons.mp more.nodup).2
      fun c left right => apart left (List.mem_cons_of_mem n right)
    simpa using both
  path := by
    obtain ⟨path, -⟩ := ring.open
    have last := ring.getLast_eq
    have source := not_mem_dropLast ring.nodup last
    obtain ⟨head, -⟩ := List.nodup_cons.mp ring.nodup
    cases ys with
    | nil =>
      have alone : m.next n = n := (Option.some.inj more.head_eq).symm
      have fresh : n ∉ xs := fun again => apart (List.mem_cons_of_mem h again) List.mem_cons_self
      rw [alone, join_prev, List.append_nil]
      have kept := (path.join source fresh).join source head
      exact Path.append kept (.singleton h) last rfl (join_joined ..)
    | cons y ys =>
      have first : m.next n = y := (Option.some.inj more.head_eq).symm
      obtain ⟨path', -⟩ := more.open
      obtain ⟨joined, inner⟩ := List.isChain_cons_cons.mp path'
      obtain ⟨outside, nodup⟩ := List.nodup_cons.mp more.nodup
      have last' : (y :: ys).getLast? = some (m.prev n) := by
        rw [← more.getLast_eq, List.getLast?_cons_cons]
      have member := List.mem_of_getLast? last
      have member' := List.mem_of_getLast? last'
      have other : n ≠ y := fun same => outside (same ▸ List.mem_cons_self)
      have foreign : ∀ c ∈ h :: xs, c ∉ y :: ys :=
        fun c left right => apart left (List.mem_cons_of_mem n right)
      have elsewhere := foreign h List.mem_cons_self
      have into : y ∉ xs := fun again =>
        foreign y (List.mem_cons_of_mem h again) List.mem_cons_self
      have from_last : m.prev n ∉ (h :: xs).dropLast := fun again =>
        foreign _ (List.dropLast_subset _ again) member'
      have from_first : m.prev h ∉ (y :: ys).dropLast := fun again =>
        foreign _ member (List.dropLast_subset _ again)
      rw [first, join_prev_of_ne _ _ other, ← List.cons_append, List.append_assoc]
      refine Path.append ((path.join source into).join from_last head) ?_ last rfl ?_
      · have once := (List.nodup_cons.mp nodup).1
        have leaves := not_mem_dropLast nodup last'
        have kept := (Path.join inner from_first once).join leaves
          fun again => elsewhere (List.mem_cons_of_mem y again)
        exact Path.append kept (.singleton h) last' rfl (join_joined ..)
      · refine (join_joined ..).join (fun same => ?_) fun same => ?_
        · exact foreign _ member (same ▸ member')
        · exact elsewhere (same ▸ List.mem_cons_self)

variable {before after : List α}

theorem Ring.push_after (ring : m.Ring h (before ++ c :: after))
    (fresh : x ∉ h :: before ++ c :: after) :
    ((m.join x (m.next c)).join c x).Ring h (before ++ c :: x :: after) := by
  have outside : x ∉ c :: (after ++ h :: before) := by
    simp only [List.mem_cons, List.mem_append, List.cons_append, not_or] at fresh ⊢
    exact ⟨fresh.2.2.1, fresh.2.2.2, fresh.1, fresh.2.1⟩
  have pushed := ring.rotate.push outside
  rw [← List.cons_append] at pushed
  exact pushed.rotate

theorem Ring.remove (ring : m.Ring h (before ++ x :: after)) :
    (m.join (m.prev x) (m.next x)).Ring h (before ++ after) := by
  -- the cell before `x` is taken for the head, which may be it already
  obtain rfl | ⟨start, p, rfl⟩ := List.eq_nil_or_concat before
  · have joined := (List.isChain_cons_cons.mp ring.path).1
    rw [joined.2]
    exact ring.pop
  · rw [List.concat_eq_append, List.append_assoc, List.singleton_append] at ring ⊢
    have turned := ring.rotate
    have joined := (List.isChain_cons_cons.mp turned.path).1
    rw [joined.2]
    exact turned.pop.rotate

end Edits

end Links

end Foundation
