import NgxCpp.NgxChainTraversal

/-! `NgxChain::free` gives the first nodes of a chain back to the pool, which links
them before those that it has: each node is left before it is relinked. -/

namespace NgxCpp
open Foundation

/-- The chains and `chain` of `ngx_pool_t`, the first of its free nodes. -/
structure ChainPool where
  chains : ChainMem
  chain : Option Nat
deriving Repr, DecidableEq

namespace ChainPool

def next (w : ChainPool) : Nat → Option (Option Nat) := w.chains.nextLink

end ChainPool

def ngxFreeChain (cl : Nat) : Ngx ChainPool Unit := do
  let link ← Exec.view ChainPool.chains (readLink cl)
  Exec.modify fun w =>
    ⟨{ w.chains with links := w.chains.links.write cl { link with next := w.chain } }, some cl⟩

namespace NgxChain

/-- The loop of `free`. -/
def freeFrom (sentinel : Option Nat) : Nat → Option Nat → Ngx ChainPool Unit
  | _, none => pure ()
  | 0, some _ => Exec.exhausted
  | fuel + 1, some cur =>
    if some cur = sentinel then pure ()
    else do
      let iter ← Exec.view ChainPool.chains (NgxChainIterator.increment (some cur))
      ngxFreeChain cur
      freeFrom sentinel fuel iter

def free (head pos : Option Nat) : Ngx ChainPool (Option Nat) := do
  let fuel ← Exec.gets fun w => w.chains.links.size
  freeFrom pos fuel head
  pure pos

/-- The nodes `front` are the first of the pool's free nodes now, and the others are
as they were. -/
structure Freed (w w' : ChainPool) (front fs : List Nat) : Prop where
  pool : Linked w'.next w'.chain (front.reverse ++ fs)
  kept : ∀ q, q ∉ front → w'.chains.links.read q = w.chains.links.read q
  bufs : w'.chains.bufs = w.chains.bufs

section Free

variable {w : ChainPool} {head pos it : Option Nat} {p : Nat} {ps front back fs : List Nat}

theorem ngxFreeChain_ok (linked : Linked w.next (some p) (p :: ps))
    (pool : Linked w.next w.chain fs) (apart : p ∉ fs) :
    ∃ w', ngxFreeChain p w = .ok () w' ∧ Linked w'.next ps.head? ps ∧ Freed w w' [p] fs := by
  obtain ⟨b, at_p⟩ := ChainMem.link_at [] linked
  let w' : ChainPool :=
    ⟨{ w.chains with links := w.chains.links.write p ⟨b, w.chain⟩ }, some p⟩
  have done : ngxFreeChain p w = .ok () w' := by
    rw [ngxFreeChain, Exec.bind_ok _ (Exec.view_ok (readLink_ok at_p))]
    rfl
  have others : ∀ q, q ≠ p → w'.chains.links.read q = w.chains.links.read q :=
    fun q other => Heap.read_write_ne other
  have same : ∀ q, q ≠ p → w'.next q = w.next q := fun q other => by
    rw [ChainPool.next, ChainPool.next, ChainMem.nextLink, ChainMem.nextLink, others q other]
  have written : w'.next p = some w.chain := by
    rw [ChainPool.next, ChainMem.nextLink, Heap.read_write_self at_p]
    rfl
  have distinct := (List.nodup_cons.mp linked.nodup).1
  cases linked with
  | @cons _ q _ found rest =>
    refine ⟨w', done, ?_, .cons written (pool.frame fun q member => same q ?_), ?_, rfl⟩
    · rw [rest.head_eq]
      exact rest.frame fun q member => same q fun at_p => distinct (at_p ▸ member)
    · exact fun at_p => apart (at_p ▸ member)
    · exact fun q other => others q (by simpa using other)

/-- The loop at a node: what is before it is free, what is left of the prefix and the
rest are linked as they were. -/
theorem freeFrom_ok (fuel : Nat) (linked : Linked w.next it (front ++ back))
    (pool : Linked w.next w.chain fs) (apart : (front ++ back).Disjoint fs)
    (stop : back.head? = pos) (enough : (front ++ back).length ≤ fuel) :
    ∃ w', freeFrom pos fuel it w = .ok () w' ∧ Freed w w' front fs := by
  induction front generalizing w it fuel fs with
  | nil =>
    have start : it = pos := by rw [← linked.head_eq, List.nil_append, stop]
    subst start
    refine ⟨w, ?_, pool, fun _ _ => rfl, rfl⟩
    cases it with
    | none => cases fuel <;> rfl
    | some p =>
      obtain ⟨fuel, rfl⟩ : ∃ k, fuel = k + 1 := Nat.exists_eq_add_one_of_ne_zero fun none => by
        obtain rfl : back = [] := by simpa [none] using enough
        simp at stop
      rw [freeFrom, if_pos rfl]
      rfl
  | cons p front ih =>
    obtain ⟨fuel, rfl⟩ : ∃ k, fuel = k + 1 := Nat.exists_eq_add_one_of_ne_zero (by
      rw [List.cons_append, List.length_cons] at enough
      omega)
    obtain rfl : some p = it := linked.head_eq
    have distinct := linked.nodup
    rw [List.cons_append, List.nodup_cons] at distinct
    rw [List.cons_append, List.disjoint_cons_left] at apart
    have before : some p ≠ pos := by
      rintro rfl
      exact distinct.1 (List.mem_append_right _ (List.mem_of_mem_head? stop))
    have next : NgxChainIterator.increment (some p) w.chains =
        .ok (front ++ back).head? w.chains := NgxChainIterator.increment_eq [] linked
    obtain ⟨w1, given, rest, freed⟩ := ngxFreeChain_ok linked pool apart.1
    obtain ⟨w', run, done⟩ := ih fuel rest freed.pool
      (List.disjoint_cons_right.mpr ⟨distinct.1, apart.2⟩) (Nat.le_of_succ_le_succ enough)
    refine ⟨w', ?_, ?_, fun q other => ?_, done.bufs.trans freed.bufs⟩
    · rw [freeFrom, if_neg before, Exec.bind_ok _ (Exec.view_ok next), Exec.bind_ok _ given]
      exact run
    · simpa using done.pool
    · rw [List.mem_cons, not_or] at other
      rw [done.kept q other.2, freed.kept q (by simpa using other.1)]

/-- `free` gives back the nodes before `pos`, or all of them, and these only. -/
theorem free_releases_prefix (linked : Linked w.next head ps) (pool : Linked w.next w.chain fs)
    (apart : ps.Disjoint fs) (place : ∀ p, pos = some p → p ∈ ps) :
    ∃ front back w', ps = front ++ back ∧ back.head? = pos ∧ free head pos w = .ok pos w' ∧
      Freed w w' front fs ∧ (front.reverse ++ fs).Nodup ∧ Linked w'.next pos back := by
  obtain ⟨front, back, rfl, stop⟩ : ∃ front back, ps = front ++ back ∧ back.head? = pos := by
    cases pos with
    | none => exact ⟨ps, [], by simp, rfl⟩
    | some p =>
      obtain ⟨front, back, split⟩ := List.append_of_mem (place p rfl)
      exact ⟨front, p :: back, split, rfl⟩
  obtain ⟨w', run, freed⟩ := freeFrom_ok w.chains.links.size linked pool apart stop
    (ChainMem.length_le linked)
  have suffix : Linked w'.next pos back := by
    have old : Linked w.next pos back := by
      cases back with
      | nil =>
        obtain rfl := stop
        exact .nil
      | cons p back =>
        obtain rfl := stop
        exact linked.suffix
    refine old.frame fun q member => ?_
    have outside : q ∉ front := fun inside =>
      List.disjoint_of_nodup_append linked.nodup inside member
    rw [ChainPool.next, ChainPool.next, ChainMem.nextLink, ChainMem.nextLink, freed.kept q outside]
  refine ⟨front, back, w', rfl, stop, ?_, freed, freed.pool.nodup, suffix⟩
  rw [free, Exec.bind_ok _ (Exec.gets_apply _ w), Exec.bind_ok _ run]
  rfl

private def threeNodes : ChainPool where
  chains := { links := ⟨[⟨0, some 1⟩, ⟨1, some 2⟩, ⟨2, none⟩, ⟨3, none⟩]⟩ }
  chain := some 3

theorem free_releases_two : ∃ front back w', [0, 1, 2] = front ++ back ∧
    back.head? = some 2 ∧ free (some 0) (some 2) threeNodes = .ok (some 2) w' ∧
    Freed threeNodes w' front [3] ∧ (front.reverse ++ [3]).Nodup ∧
      Linked w'.next (some 2) back := by
  have linked : Linked threeNodes.next (some 0) [0, 1, 2] :=
    .cons rfl (.cons rfl (.cons rfl .nil))
  have pool : Linked threeNodes.next threeNodes.chain [3] := .cons rfl .nil
  exact free_releases_prefix linked pool (by simp) (by simp)

end Free

end NgxChain

end NgxCpp
