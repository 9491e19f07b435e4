import NgxCpp.Exception
import NgxCpp.Foundation.Ring
import NgxCpp.Foundation.Runs

/-! `NgxQueue`: a ring of the `ngx_queue_t` members of its elements, entered through an
`ngx_queue_t` of its own. Queues in one memory refine sequences of nodes. -/

namespace NgxCpp
open Foundation

/-- The `next` and `prev` of each `ngx_queue_t`, whatever was last written there. -/
abbrev QueueLinks : Type := Links Nat

def ngxQueueInit (q : Nat) : Ngx QueueLinks Unit := Exec.modify fun m =>
  let m := m.setPrev q q
  m.setNext q q

def ngxQueueEmpty (h : Nat) : Ngx QueueLinks Bool := Exec.gets fun m => h == m.prev h

def ngxQueueInsertHead (h x : Nat) : Ngx QueueLinks Unit := Exec.modify fun m =>
  let m := m.setNext x (m.next h)
  let m := m.setPrev (m.next x) x
  let m := m.setPrev x h
  m.setNext h x

def ngxQueueInsertAfter (h x : Nat) : Ngx QueueLinks Unit := ngxQueueInsertHead h x

def ngxQueueInsertTail (h x : Nat) : Ngx QueueLinks Unit := Exec.modify fun m =>
  let m := m.setPrev x (m.prev h)
  let m := m.setNext (m.prev x) x
  let m := m.setNext x h
  m.setPrev h x

def ngxQueueHead (h : Nat) : Ngx QueueLinks Nat := Exec.gets fun m => m.next h

def ngxQueueLast (h : Nat) : Ngx QueueLinks Nat := Exec.gets fun m => m.prev h

def ngxQueueSentinel (h : Nat) : Nat := h

def ngxQueueNext (q : Nat) : Ngx QueueLinks Nat := Exec.gets fun m => m.next q

def ngxQueuePrev (q : Nat) : Ngx QueueLinks Nat := Exec.gets fun m => m.prev q

def ngxQueueRemove (x : Nat) : Ngx QueueLinks Unit := Exec.modify fun m =>
  let m := m.setPrev (m.next x) (m.prev x)
  m.setNext (m.prev x) (m.next x)

def ngxQueueAdd (h n : Nat) : Ngx QueueLinks Unit := Exec.modify fun m =>
  let m := m.setNext (m.prev h) (m.next n)
  let m := m.setPrev (m.next n) (m.prev h)
  let m := m.setPrev h (m.prev n)
  m.setNext (m.prev h) h

/-! An element `v` keeps its node at a fixed `offset`. -/

namespace NgxQueueNode

/-- `v.*q`. -/
def of (offset v : Nat) : Nat := v + offset

def next (node : Nat) : Ngx QueueLinks Nat := ngxQueueNext node

def prev (node : Nat) : Ngx QueueLinks Nat := ngxQueuePrev node

def append (offset node v : Nat) : Ngx QueueLinks Unit := ngxQueueInsertAfter node (of offset v)

def remove (node : Nat) : Ngx QueueLinks Unit := ngxQueueRemove node

def data (offset node : Nat) : Nat := node - offset

@[simp] theorem data_of (offset v : Nat) : data offset (of offset v) = v :=
  Nat.add_sub_cancel v offset

end NgxQueueNode

namespace NgxQueueIterator

def dereference (it : Nat) : Nat := it

def increment (it : Nat) : Ngx QueueLinks Nat := ngxQueueNext it

def decrement (it : Nat) : Ngx QueueLinks Nat := ngxQueuePrev it

def equal (it o : Nat) : Bool := it == o

def forward : (fuel it last : Nat) → Ngx QueueLinks (List Nat)
  | 0, _, _ => Exec.exhausted
  | fuel + 1, it, last =>
    if equal it last then pure [] else do
      let node := dereference it
      let it ← increment it
      let nodes ← forward fuel it last
      pure (node :: nodes)

def backward : (fuel it first : Nat) → Ngx QueueLinks (List Nat)
  | 0, _, _ => Exec.exhausted
  | fuel + 1, it, first =>
    if equal it first then pure [] else do
      let it ← decrement it
      let nodes ← backward fuel it first
      pure (dereference it :: nodes)

end NgxQueueIterator

namespace NgxQueue

def init (h : Nat) : Ngx QueueLinks Unit := ngxQueueInit h

def empty (h : Nat) : Ngx QueueLinks Bool := ngxQueueEmpty h

def beginIter (h : Nat) : Ngx QueueLinks Nat := ngxQueueHead h

def endIter (h : Nat) : Nat := ngxQueueSentinel h

def front (h : Nat) : Ngx QueueLinks Nat := ngxQueueHead h

def back (h : Nat) : Ngx QueueLinks Nat := ngxQueueLast h

def insert (offset h v : Nat) : Ngx QueueLinks Unit :=
  ngxQueueInsertHead h (NgxQueueNode.of offset v)

def append (offset h v : Nat) : Ngx QueueLinks Unit :=
  ngxQueueInsertTail h (NgxQueueNode.of offset v)

/-- `insert` at an iterator. -/
def insertAt (offset iter v : Nat) : Ngx QueueLinks Unit :=
  NgxQueueNode.append offset (NgxQueueIterator.dereference iter) v

def merge (h n : Nat) : Ngx QueueLinks Unit := ngxQueueAdd h n

/-- A loop from `begin()` to `end()`. -/
def nodes (fuel h : Nat) : Ngx QueueLinks (List Nat) := do
  let it ← beginIter h
  NgxQueueIterator.forward fuel it (endIter h)

/-- A loop from `end()` back to `begin()`. -/
def nodesBackward (fuel h : Nat) : Ngx QueueLinks (List Nat) := do
  let it ← beginIter h
  NgxQueueIterator.backward fuel (endIter h) it

end NgxQueue

section Macros

variable {m : QueueLinks} {h n x q : Nat}

theorem ngxQueueInit_eq : ngxQueueInit q m = .ok () (m.join q q) := rfl

theorem ngxQueueInsertHead_eq :
    ngxQueueInsertHead h x m = .ok () ((m.join x (m.next h)).join h x) := by
  rw [ngxQueueInsertHead, Exec.modify_apply]
  simp only [Links.setNext_next_self]
  rfl

theorem ngxQueueInsertTail_eq :
    ngxQueueInsertTail h x m = .ok () ((m.join (m.prev h) x).join x h) := by
  rw [ngxQueueInsertTail, Exec.modify_apply]
  simp only [Links.setPrev_prev_self]
  rfl

theorem ngxQueueRemove_eq : ngxQueueRemove x m = .ok () (m.join (m.prev x) (m.next x)) := by
  -- where `x` is its own successor, it is also written its own predecessor
  have again : (m.setPrev (m.next x) (m.prev x)).prev x = m.prev x := by
    by_cases same : x = m.next x <;> simp [Links.setPrev, Function.update_apply]
  rw [ngxQueueRemove, Exec.modify_apply]
  simp only [again]
  rfl

theorem ngxQueueAdd_eq : ngxQueueAdd h n m = .ok ()
    ((m.join (m.prev h) (m.next n)).join ((m.join (m.prev h) (m.next n)).prev n) h) := by
  have again : (m.setNext (m.prev h) (m.next n)).next n = m.next n := by
    by_cases same : n = m.prev h <;> simp [Links.setNext, Function.update_apply]
  rw [ngxQueueAdd, Exec.modify_apply]
  simp only [again, Links.setPrev_prev_self]
  rfl

end Macros

/-- The nodes of each queue, by the address of the queue; `none` at what is no queue. -/
abbrev Queues : Type := Nat → Option (List Nat)

def insertAfter (u x : Nat) : List Nat → List Nat
  | [] => []
  | y :: ys => if y = u then y :: x :: ys else y :: insertAfter u x ys

inductive QueueOp where
  | init (h : Nat)
  | insert (h v : Nat)
  | append (h v : Nat)
  /-- At the iterator on an element, or at `end()`. -/
  | insertAt (h : Nat) (at_elem : Option Nat) (v : Nat)
  | remove (v : Nat)
  | merge (h n : Nat)
deriving Repr, DecidableEq

namespace QueueOp

def run (offset : Nat) : QueueOp → Ngx QueueLinks Unit
  | init h => NgxQueue.init h
  | insert h v => NgxQueue.insert offset h v
  | append h v => NgxQueue.append offset h v
  | insertAt h at_elem v =>
    NgxQueue.insertAt offset (at_elem.elim (NgxQueue.endIter h) (NgxQueueNode.of offset)) v
  | remove v => NgxQueueNode.remove (NgxQueueNode.of offset v)
  | merge h n => NgxQueue.merge h n

def apply (offset : Nat) (a : Queues) : QueueOp → Queues
  | init h => Function.update a h (some [])
  | insert h v => Function.update a h ((a h).map (NgxQueueNode.of offset v :: ·))
  | append h v => Function.update a h ((a h).map (· ++ [NgxQueueNode.of offset v]))
  | insertAt h none v => Function.update a h ((a h).map (NgxQueueNode.of offset v :: ·))
  | insertAt h (some u) v => Function.update a h
      ((a h).map (insertAfter (NgxQueueNode.of offset u) (NgxQueueNode.of offset v)))
  | remove v => fun h => (a h).map (·.erase (NgxQueueNode.of offset v))
  | merge h n => Function.update
      (Function.update a n none) h ((a h).map (· ++ (a n).getD []))

end QueueOp

namespace Queues

def Unlinked (a : Queues) (x : Nat) : Prop := ∀ h xs, a h = some xs → x ∉ h :: xs

def Allowed (offset : Nat) (a : Queues) : QueueOp → Prop
  | .init h => ∀ h' xs, a h' = some xs → h ∉ xs
  | .insert h v => a.Unlinked (NgxQueueNode.of offset v) ∧ ∃ xs, a h = some xs
  | .append h v => a.Unlinked (NgxQueueNode.of offset v) ∧ ∃ xs, a h = some xs
  | .insertAt h at_elem v => a.Unlinked (NgxQueueNode.of offset v) ∧
      ∃ xs, a h = some xs ∧ ∀ u ∈ at_elem, NgxQueueNode.of offset u ∈ xs
  | .remove v => ∃ h xs, a h = some xs ∧ NgxQueueNode.of offset v ∈ xs
  | .merge h n => h ≠ n ∧ (∃ xs, a h = some xs) ∧ ∃ ys, a n = some ys

structure Represented (a : Queues) (m : QueueLinks) : Prop where
  ring : ∀ h xs, a h = some xs → m.Ring h xs
  apart : ∀ h h' xs ys, h ≠ h' → a h = some xs → a h' = some ys →
    (h :: xs).Disjoint (h' :: ys)

section Steps

variable {a : Queues} {m m' : QueueLinks} {h n p q x : Nat} {xs xs' ys : List Nat}

theorem Represented.update (rep : a.Represented m) (ring : m'.Ring h xs')
    (kept : ∀ h' ys, h' ≠ h → a h' = some ys → m'.Ring h' ys)
    (own : ∀ h' ys, h' ≠ h → a h' = some ys → (h :: xs').Disjoint (h' :: ys)) :
    Represented (Function.update a h (some xs')) m' where
  ring h' ys found := by
    by_cases same : h' = h
    · subst same
      rw [Function.update_self] at found
      obtain rfl := Option.some.inj found
      exact ring
    · rw [Function.update_of_ne same] at found
      exact kept h' ys same found
  apart h₁ h₂ xs₁ xs₂ other found₁ found₂ := by
    by_cases first : h₁ = h
    · subst first
      rw [Function.update_self] at found₁
      obtain rfl := Option.some.inj found₁
      rw [Function.update_of_ne (Ne.symm other)] at found₂
      exact own h₂ xs₂ (Ne.symm other) found₂
    · rw [Function.update_of_ne first] at found₁
      by_cases second : h₂ = h
      · subst second
        rw [Function.update_self] at found₂
        obtain rfl := Option.some.inj found₂
        exact fun c left right => own h₁ xs₁ first found₁ right left
      · rw [Function.update_of_ne second] at found₂
        exact rep.apart h₁ h₂ xs₁ xs₂ other found₁ found₂

theorem Represented.forget (rep : a.Represented m) (n : Nat) :
    Represented (Function.update a n none) m where
  ring h xs found := by
    by_cases same : h = n
    · simp [same] at found
    · exact rep.ring h xs (by rwa [Function.update_of_ne same] at found)
  apart h h' xs ys other found found' := by
    by_cases same : h = n
    · simp [same] at found
    · by_cases same' : h' = n
      · simp [same'] at found'
      · rw [Function.update_of_ne same] at found
        rw [Function.update_of_ne same'] at found'
        exact rep.apart h h' xs ys other found found'

theorem Represented.outside (rep : a.Represented m) {c h' : Nat} (found : a h = some xs)
    (other : h' ≠ h) (found' : a h' = some ys) (own : c ∈ h :: xs ∨ a.Unlinked c) :
    c ∉ h' :: ys := by
  intro member
  obtain own | free := own
  · exact rep.apart h h' xs ys (Ne.symm other) found found' own member
  · exact free h' ys found' member

/-- An edit that makes the queue another ring of such cells and keeps every ring apart
from such cells. -/
theorem Represented.edit (rep : a.Represented m) (found : a h = some xs) (ring : m'.Ring h xs')
    (cells : ∀ c ∈ xs', c ∈ xs ∨ a.Unlinked c)
    (kept : ∀ h' ys, m.Ring h' ys →
      (∀ c, c ∈ h :: xs ∨ a.Unlinked c → c ∉ h' :: ys) → m'.Ring h' ys) :
    Represented (Function.update a h (some xs')) m' := by
  refine rep.update ring (fun h' ys other found' => ?_) fun h' ys other found' c member => ?_
  · exact kept h' ys (rep.ring h' ys found') fun c own => rep.outside found other found' own
  · obtain rfl | member := List.mem_cons.mp member
    · exact rep.outside found other found' (.inl List.mem_cons_self)
    · exact rep.outside found other found' ((cells c member).imp_left (List.mem_cons_of_mem h))

theorem Represented.init (rep : a.Represented m) (free : ∀ h' xs, a h' = some xs → h ∉ xs) :
    Represented (Function.update a h (some [])) (m.join h h) := by
  have outside : ∀ h' ys, h' ≠ h → a h' = some ys → h ∉ h' :: ys := by
    intro h' ys other found member
    obtain rfl | member := List.mem_cons.mp member
    · exact other rfl
    · exact free h' ys found member
  refine rep.update (Links.ring_join_self m h) (fun h' ys other found => ?_)
    fun h' ys other found c member => ?_
  · have apart := outside h' ys other found
    exact (rep.ring h' ys found).join apart apart
  · rw [List.mem_singleton.mp member]
    exact outside h' ys other found

theorem Represented.push (rep : a.Represented m) (found : a h = some xs) (free : a.Unlinked x) :
    Represented (Function.update a h (some (x :: xs))) ((m.join x (m.next h)).join h x) := by
  have ring := rep.ring h xs found
  have near := ring.next_mem List.mem_cons_self
  refine rep.edit found (ring.push (free h xs found)) (fun c member => ?_)
    fun h' ys other outside => ?_
  · obtain rfl | member := List.mem_cons.mp member
    · exact .inr free
    · exact .inl member
  · exact (other.join (outside x (.inr free)) (outside _ (.inl near))).join
      (outside h (.inl List.mem_cons_self)) (outside x (.inr free))

theorem Represented.push_last (rep : a.Represented m) (found : a h = some xs)
    (free : a.Unlinked x) :
    Represented (Function.update a h (some (xs ++ [x]))) ((m.join (m.prev h) x).join x h) := by
  have ring := rep.ring h xs found
  have near := ring.prev_mem List.mem_cons_self
  refine rep.edit found (ring.push_last (free h xs found)) (fun c member => ?_)
    fun h' ys other outside => ?_
  · obtain member | member := List.mem_append.mp member
    · exact .inl member
    · exact .inr (List.mem_singleton.mp member ▸ free)
  · exact (other.join (outside _ (.inl near)) (outside x (.inr free))).join
      (outside x (.inr free)) (outside h (.inl List.mem_cons_self))

theorem insertAfter_eq {u : Nat} {before after : List Nat} (first : u ∉ before) (x : Nat) :
    insertAfter u x (before ++ u :: after) = before ++ u :: x :: after := by
  induction before with
  | nil => rw [List.nil_append, insertAfter, if_pos rfl, List.nil_append]
  | cons y ys ih =>
    obtain ⟨other, rest⟩ := not_or.mp (mt List.mem_cons.mpr first)
    rw [List.cons_append, insertAfter, if_neg (Ne.symm other), ih rest, List.cons_append]

theorem Represented.push_after {u : Nat} (rep : a.Represented m) (found : a h = some xs)
    (member : u ∈ xs) (free : a.Unlinked x) :
    Represented (Function.update a h (some (insertAfter u x xs)))
      ((m.join x (m.next u)).join u x) := by
  have ring := rep.ring h xs found
  have within := List.mem_cons_of_mem h member
  have near := ring.next_mem within
  obtain ⟨before, after, rfl⟩ := List.append_of_mem member
  have first : u ∉ before := fun again =>
    List.disjoint_of_nodup_append (List.nodup_cons.mp ring.nodup).2 again List.mem_cons_self
  rw [insertAfter_eq first]
  refine rep.edit found (ring.push_after (free h _ found)) (fun c member => ?_)
    fun h' ys other outside => ?_
  · by_cases same : c = x
    · exact .inr (same ▸ free)
    · simp only [List.mem_append, List.mem_cons, same, false_or] at member ⊢
      exact .inl member
  · exact (other.join (outside x (.inr free)) (outside _ (.inl near))).join
      (outside u (.inl within)) (outside x (.inr free))

theorem Represented.remove (rep : a.Represented m) (found : a h = some xs) (member : x ∈ xs) :
    Represented (fun h => (a h).map (·.erase x)) (m.join (m.prev x) (m.next x)) := by
  have ring := rep.ring h xs found
  have within := List.mem_cons_of_mem h member
  have only : (fun h => (a h).map (·.erase x)) = Function.update a h (some (xs.erase x)) := by
    funext h'
    by_cases same : h' = h
    · rw [same, Function.update_self, found, Option.map_some]
    · rw [Function.update_of_ne same]
      cases found' : a h' with
      | none => rfl
      | some ys =>
        have outside := rep.outside found same found' (.inl within)
        rw [Option.map_some, List.erase_of_not_mem (mt (List.mem_cons_of_mem h') outside)]
  rw [only]
  refine rep.edit found ?_ (fun c member => .inl (List.mem_of_mem_erase member))
    fun h' ys other outside => ?_
  · obtain ⟨before, after, rfl⟩ := List.append_of_mem member
    have first : x ∉ before := fun again =>
      List.disjoint_of_nodup_append (List.nodup_cons.mp ring.nodup).2 again List.mem_cons_self
    rw [List.erase_append_right _ first, List.erase_cons_head]
    exact ring.remove
  · exact other.join (outside _ (.inl (ring.prev_mem within)))
      (outside _ (.inl (ring.next_mem within)))

theorem Represented.merge (rep : a.Represented m) (different : h ≠ n) (found : a h = some xs)
    (found' : a n = some ys) :
    Represented (Function.update (Function.update a n none) h (some (xs ++ ys)))
      ((m.join (m.prev h) (m.next n)).join ((m.join (m.prev h) (m.next n)).prev n) h) := by
  have ring := rep.ring h xs found
  have more := rep.ring n ys found'
  have left : Function.update a n none h = some xs := by rw [Function.update_of_ne different, found]
  have loose : ∀ c ∈ n :: ys, Unlinked (Function.update a n none) c := by
    intro c member h' zs other again
    by_cases same : h' = n
    · simp [same] at other
    · rw [Function.update_of_ne same] at other
      exact rep.apart n h' ys zs (Ne.symm same) found' other member again
  have last := ring.prev_mem List.mem_cons_self
  have first := more.next_mem List.mem_cons_self
  refine (rep.forget n).edit left (ring.splice more (rep.apart h n xs ys different found found'))
    (fun c member => ?_) fun h' zs other outside => ?_
  · obtain member | member := List.mem_append.mp member
    · exact .inl member
    · exact .inr (loose c (List.mem_cons_of_mem n member))
  · have joined := other.join (outside _ (.inl last)) (outside _ (.inr (loose _ first)))
    refine joined.join ?_ (outside h (.inl List.mem_cons_self))
    -- the second join starts at the last node of the other queue, or at the same one
    by_cases empty : n = m.next n
    · have back := m.join_prev (m.prev h) (m.next n)
      rw [← empty] at back
      rw [← empty, back]
      exact outside _ (.inl last)
    · rw [Links.join_prev_of_ne _ _ empty]
      exact outside _ (.inr (loose _ (more.prev_mem List.mem_cons_self)))

theorem Represented.step (rep : a.Represented m) (offset : Nat) (op : QueueOp)
    (allowed : a.Allowed offset op) :
    ∃ m', op.run offset m = .ok () m' ∧ (op.apply offset a).Represented m' := by
  cases op with
  | init h => exact ⟨_, ngxQueueInit_eq, rep.init allowed⟩
  | insert h v =>
    obtain ⟨free, xs, found⟩ := allowed
    refine ⟨_, ngxQueueInsertHead_eq, ?_⟩
    rw [QueueOp.apply, found]
    exact rep.push found free
  | append h v =>
    obtain ⟨free, xs, found⟩ := allowed
    refine ⟨_, ngxQueueInsertTail_eq, ?_⟩
    rw [QueueOp.apply, found]
    exact rep.push_last found free
  | insertAt h at_elem v =>
    obtain ⟨free, xs, found, member⟩ := allowed
    refine ⟨_, ngxQueueInsertHead_eq, ?_⟩
    cases at_elem with
    | none =>
      rw [QueueOp.apply, found]
      exact rep.push found free
    | some u =>
      rw [QueueOp.apply, found]
      exact rep.push_after found (member u rfl) free
  | remove v =>
    obtain ⟨h, xs, found, member⟩ := allowed
    exact ⟨_, ngxQueueRemove_eq, rep.remove found member⟩
  | merge h n =>
    obtain ⟨different, ⟨xs, found⟩, ys, found'⟩ := allowed
    refine ⟨_, ngxQueueAdd_eq, ?_⟩
    rw [QueueOp.apply, found, found']
    exact rep.merge different found found'

theorem Represented.run (rep : a.Represented m) (offset : Nat) {ops : List QueueOp}
    (allowed : Along (fun a op => QueueOp.apply offset a op) (Allowed offset) a ops) :
    ∃ m', Exec.each (QueueOp.run offset) ops m = .ok () m' ∧
      (ops.foldl (fun a op => QueueOp.apply offset a op) a).Represented m' := by
  induction ops generalizing a m with
  | nil => exact ⟨m, rfl, rep⟩
  | cons op ops ih =>
    obtain ⟨m₁, first, rep₁⟩ := rep.step offset op allowed.1
    obtain ⟨m₂, rest, rep₂⟩ := ih rep₁ allowed.2
    exact ⟨m₂, (Exec.each_cons_ok first).trans rest, rep₂⟩

end Steps

end Queues

namespace NgxQueueIterator

variable {m : QueueLinks} {h it last first fuel : Nat} {xs ys zs : List Nat}

theorem forward_eq (path : m.Path (xs ++ [last])) (start : (xs ++ [last]).head? = some it)
    (fresh : last ∉ xs) (enough : xs.length < fuel) : forward fuel it last m = .ok xs m := by
  induction xs generalizing it fuel with
  | nil =>
    obtain rfl := Option.some.inj start
    obtain ⟨fuel, rfl⟩ := Nat.exists_eq_add_one.mpr enough
    simp [forward, equal]
  | cons x xs ih =>
    obtain rfl := Option.some.inj start
    obtain ⟨fuel, rfl⟩ := Nat.exists_eq_add_one.mpr (Nat.zero_lt_of_lt enough)
    obtain ⟨other, fresh⟩ := not_or.mp (mt List.mem_cons.mpr fresh)
    rw [List.cons_append, Links.Path, List.isChain_cons] at path
    obtain ⟨at_next, path⟩ := path
    obtain ⟨y, start⟩ : ∃ y, (xs ++ [last]).head? = some y := by
      cases xs <;> exact ⟨_, rfl⟩
    have moved : increment x m = .ok y m := congrArg (Outcome.ok · m) (at_next y start).1
    have rest := ih path start fresh (Nat.lt_of_succ_lt_succ enough)
    rw [forward, if_neg (by simpa [equal] using Ne.symm other), Exec.bind_ok _ moved,
      Exec.bind_ok _ rest]
    rfl

theorem backward_eq (path : m.Path (ys ++ zs)) (nodup : (ys ++ zs).Nodup)
    (start : zs.head? = some it) (stop : (ys ++ zs).head? = some first)
    (enough : ys.length < fuel) : backward fuel it first m = .ok ys.reverse m := by
  induction ys using List.reverseRecOn generalizing zs it fuel with
  | nil =>
    obtain rfl := Option.some.inj (start.symm.trans stop)
    obtain ⟨fuel, rfl⟩ := Nat.exists_eq_add_one.mpr enough
    simp [backward, equal]
  | append_singleton ys y ih =>
    obtain ⟨fuel, rfl⟩ := Nat.exists_eq_add_one.mpr (Nat.zero_lt_of_lt enough)
    obtain ⟨-, -, joined⟩ := List.isChain_append.mp path
    have before : m.prev it = y := (joined y (by simp) it start).2
    have other : it ≠ first := by
      rintro rfl
      have member : it ∈ ys ++ [y] := List.mem_of_head? (by simpa using stop)
      exact List.disjoint_of_nodup_append nodup member (List.mem_of_head? start)
    have moved : decrement it m = .ok y m := congrArg (Outcome.ok · m) before
    rw [List.append_assoc, List.singleton_append] at path nodup stop
    rw [List.length_append, List.length_singleton] at enough
    have rest := ih path nodup rfl stop (Nat.lt_of_succ_lt_succ enough)
    rw [backward, if_neg (by simpa [equal] using other), Exec.bind_ok _ moved,
      Exec.bind_ok _ rest, List.reverse_concat]
    rfl

end NgxQueueIterator

/-- Queue `h` holds the nodes `xs`, as far as its operations can tell. -/
structure Sequence (m : QueueLinks) (h : Nat) (xs : List Nat) : Prop where
  next_prev : ∀ c ∈ h :: xs, (NgxQueueNode.next c >>= NgxQueueNode.prev) m = .ok c m
  prev_next : ∀ c ∈ h :: xs, (NgxQueueNode.prev c >>= NgxQueueNode.next) m = .ok c m
  reach : ∀ c ∈ h :: xs, ∃ i, m.next^[i] h = c
  nodes : ∀ fuel, xs.length < fuel → NgxQueue.nodes fuel h m = .ok xs m
  nodesBackward : ∀ fuel, xs.length < fuel → NgxQueue.nodesBackward fuel h m = .ok xs.reverse m
  empty : ∃ b, NgxQueue.empty h m = .ok b m ∧ (b = true ↔ xs = [])
  front : ∀ x ∈ xs.head?, NgxQueue.front h m = .ok x m
  back : ∀ x ∈ xs.getLast?, NgxQueue.back h m = .ok x m

section Refinement

variable {a : Queues} {m : QueueLinks} {h : Nat} {xs : List Nat}

theorem sequence_of_ring (ring : m.Ring h xs) : Sequence m h xs where
  next_prev c member := congrArg (Outcome.ok · m) (ring.prev_next member)
  prev_next c member := congrArg (Outcome.ok · m) (ring.next_prev member)
  reach c member := ring.reach member
  nodes fuel enough := by
    have path := (List.isChain_cons.mp ring.path).2
    exact NgxQueueIterator.forward_eq path ring.head_eq (List.nodup_cons.mp ring.nodup).1 enough
  nodesBackward fuel enough := by
    have path := (List.isChain_cons.mp ring.path).2
    have nodup := Links.nodup_concat ring.nodup
    exact NgxQueueIterator.backward_eq path nodup rfl ring.head_eq enough
  empty := by
    refine ⟨h == m.prev h, rfl, ?_⟩
    rw [beq_iff_eq, eq_comm]
    exact ring.prev_eq_self_iff
  front x member := by
    have first := ring.head_eq
    rw [List.head?_append, member, Option.some_or] at first
    exact congrArg (Outcome.ok · m) (Option.some.inj first).symm
  back x member := by
    have last := ring.getLast_eq
    rw [List.getLast?_cons, member] at last
    exact congrArg (Outcome.ok · m) (Option.some.inj last).symm

/-- Whatever is done to queues that share no cell, they behave as their sequences. -/
theorem refines_sequences (rep : a.Represented m) (offset : Nat) {ops : List QueueOp}
    (allowed : Along (fun a op => QueueOp.apply offset a op) (Queues.Allowed offset) a ops) :
    ∃ m', Exec.each (QueueOp.run offset) ops m = .ok () m' ∧
      (ops.foldl (fun a op => QueueOp.apply offset a op) a).Represented m' ∧
      ∀ h xs, ops.foldl (fun a op => QueueOp.apply offset a op) a h = some xs →
        Sequence m' h xs := by
  obtain ⟨m', run, rep'⟩ := rep.run offset allowed
  exact ⟨m', run, rep', fun h xs found => sequence_of_ring (rep'.ring h xs found)⟩

private theorem unlinked_of_two {ys : List Nat} {x : Nat} (first : a 0 = some xs)
    (second : a 1 = some ys) (others : ∀ h, a (h + 2) = none) (apart : x ∉ 0 :: xs ++ 1 :: ys) :
    a.Unlinked x := by
  rw [List.mem_append, not_or] at apart
  rintro (_ | _ | h) zs found
  · exact Option.some.inj (first.symm.trans found) ▸ apart.1
  · exact Option.some.inj (second.symm.trans found) ▸ apart.2
  · cases (others h).symm.trans found

/-- Insertions at both ends and in the middle, a merge, removals, and the merged queue anew. -/
private def queueOps : List QueueOp :=
  [.init 0, .init 1, .append 0 16, .insert 0 32, .append 1 48, .insertAt 0 (some 32) 64,
    .merge 0 1, .remove 16, .init 1, .insertAt 1 none 16, .remove 16]

theorem refines_sequences_merged : ∃ m', Exec.each (QueueOp.run 4) queueOps ⟨id, id⟩ = .ok () m' ∧
    Sequence m' 0 [36, 68, 52] ∧ Sequence m' 1 [] := by
  have rep : Queues.Represented (fun _ => none) (⟨id, id⟩ : QueueLinks) :=
    ⟨fun _ _ found => by simp at found, fun _ _ _ _ _ found => by simp at found⟩
  have allowed : Along (fun a op => QueueOp.apply 4 a op) (Queues.Allowed 4) (fun _ => none)
      queueOps := by
    refine ⟨fun _ _ found => (by simp at found), ?_,
      ⟨unlinked_of_two rfl rfl (fun _ => rfl) (by decide), _, rfl⟩,
      ⟨unlinked_of_two rfl rfl (fun _ => rfl) (by decide), _, rfl⟩,
      ⟨unlinked_of_two rfl rfl (fun _ => rfl) (by decide), _, rfl⟩,
      ⟨unlinked_of_two rfl rfl (fun _ => rfl) (by decide), _, rfl, by decide⟩,
      ⟨by decide, ⟨_, rfl⟩, _, rfl⟩, ⟨0, _, rfl, by decide⟩, ?_,
      ⟨unlinked_of_two rfl rfl (fun _ => rfl) (by decide), _, rfl, by decide⟩,
      ⟨1, _, rfl, by decide⟩, trivial⟩
    · rintro (_ | h) xs found
      · cases found
        decide
      · cases found
    · rintro (_ | _ | h) xs found
      · cases found
        decide
      · cases found
      · cases found
  obtain ⟨m', run, -, holds⟩ := refines_sequences rep 4 allowed
  exact ⟨m', run, holds 0 _ rfl, holds 1 _ rfl⟩

end Refinement

end NgxCpp
