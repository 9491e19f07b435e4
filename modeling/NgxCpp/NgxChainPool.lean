import NgxCpp.Foundation.Keeps
import NgxCpp.NgxChainFree

/-! Nodes of chains from a pool that hands out again what was given back to it, and what a
program sees of a chain. -/

namespace NgxCpp
open Foundation

namespace ChainPool

def onChains {α : Type} (x : Ngx ChainMem α) : Ngx ChainPool α :=
  Exec.zoom ChainPool.chains (fun chains w => { w with chains }) x

end ChainPool

/-- `ngx_alloc_chain_link`: the node that was given back last, or else new memory with
whatever it holds. -/
def ngxAllocChainLink (held : NgxChainT) : Ngx ChainPool (Option Nat) := do
  match ← Exec.gets ChainPool.chain with
  | some cl => do
    let link ← Exec.view ChainPool.chains (readLink cl)
    Exec.modify fun w => { w with chain := link.next }
    pure (some cl)
  | none => do
    if ← ChainPool.onChains chainPalloc then
      fun w => .ok (some w.chains.links.size)
        { w with chains := { w.chains with links := w.chains.links.alloc held } }
    else pure none

namespace NgxChainNode

def set (ch : Option Nat) (b : Nat) : Ngx ChainMem Unit := do
  let p ← Exec.deref fun _ => ch
  let link ← readLink p
  setLink p { link with buf := b }

def link (ch c : Option Nat) : Ngx ChainMem Unit := do
  let p ← Exec.deref fun _ => ch
  let link ← readLink p
  setLink p { link with next := c }

end NgxChainNode

namespace NgxPool

/-- `chain` of a pool that may have nodes to hand out again. -/
def chainAgain (held : NgxChainT) : Ngx ChainPool Nat := do
  let cl ← ngxAllocChainLink held
  let p ← NgxException.requirePtr cl
  ChainPool.onChains (NgxChainNode.link (some p) none)
  pure p

/-- A new node, and `set`. -/
def nodeOf (held : NgxChainT) (b : Nat) : Ngx ChainPool Nat := do
  let p ← chainAgain held
  ChainPool.onChains (NgxChainNode.set (some p) b)
  pure p

end NgxPool

namespace NgxChain

def advance : Nat → Option Nat → Ngx ChainMem (Option Nat)
  | 0, it => pure it
  | k + 1, it => do
    let next ← NgxChainIterator.increment it
    advance k next

def dataStep (c : Nat) (bs : List Nat) : Ngx ChainMem (List Nat) := do
  let b ← NgxChainNode.data (some c)
  pure (bs ++ [b])

def datas (head : Option Nat) : Ngx ChainMem (List Nat) := do
  let fuel ← Exec.gets fun m => m.links.size
  forNodes id dataStep fuel head []

end NgxChain

section Nodes

variable {w : ChainPool} {m : ChainMem} {p b : Nat} {head ch : Option Nat} {link : NgxChainT}
  {ps bs : List Nat}

theorem NgxChainNode.set_ok (found : m.links.read p = some link) (b : Nat) :
    NgxChainNode.set (some p) b m =
      .ok () { m with links := m.links.write p { link with buf := b } } := by
  rw [NgxChainNode.set, Exec.bind_ok _ (Exec.deref_given p m), Exec.bind_ok _ (readLink_ok found)]
  rfl

theorem NgxChainNode.link_ok (found : m.links.read p = some link) (ch : Option Nat) :
    NgxChainNode.link (some p) ch m =
      .ok () { m with links := m.links.write p { link with next := ch } } := by
  rw [NgxChainNode.link, Exec.bind_ok _ (Exec.deref_given p m), Exec.bind_ok _ (readLink_ok found)]
  rfl

theorem NgxPool.nodeOf_eq {w' : ChainPool} {held : NgxChainT}
    (given : ngxAllocChainLink held w = .ok (some p) w')
    (found : w'.chains.links.read p = some link) (b : Nat) : NgxPool.nodeOf held b w = .ok p
      { w' with chains := { w'.chains with links := w'.chains.links.write p ⟨b, none⟩ } } := by
  let last : ChainPool := { w' with
    chains := { w'.chains with links := w'.chains.links.write p { link with next := none } } }
  have made : NgxPool.chainAgain held w = .ok p last := by
    have ended : ChainPool.onChains (NgxChainNode.link (some p) none) w' = .ok () last :=
      Exec.zoom_ok (NgxChainNode.link_ok found none)
    rw [NgxPool.chainAgain, Exec.bind_ok _ given,
      Exec.bind_ok _ (NgxException.requirePtr_some p _ w'), Exec.bind_ok _ ended]
    rfl
  have at_last : last.chains.links.read p = some { link with next := none } :=
    Heap.read_write_self found
  have filled : ChainPool.onChains (NgxChainNode.set (some p) b) last = .ok () { last with
      chains := { last.chains with links := last.chains.links.write p ⟨b, none⟩ } } :=
    Exec.zoom_ok (NgxChainNode.set_ok at_last b)
  rw [NgxPool.nodeOf, Exec.bind_ok _ made, Exec.bind_ok _ filled, Heap.write_write]
  rfl

theorem NgxPool.nodeOf_again (first : w.chain = some p) (found : w.chains.links.read p = some link)
    (held : NgxChainT) (b : Nat) : NgxPool.nodeOf held b w = .ok p
      ⟨{ w.chains with links := w.chains.links.write p ⟨b, none⟩ }, link.next⟩ := by
  have given : ngxAllocChainLink held w = .ok (some p) { w with chain := link.next } := by
    rw [ngxAllocChainLink, Exec.bind_ok _ (Exec.gets_apply _ w), first]
    exact Exec.bind_ok _ (Exec.view_ok (readLink_ok found))
  exact NgxPool.nodeOf_eq given found b

theorem NgxPool.nodeOf_new (none_free : w.chain = none) (held : NgxChainT) (b : Nat) :
    NgxPool.nodeOf held b w = ChainPool.onChains (NgxPool.chain b) w := by
  have asked : ngxAllocChainLink held w = (do
      if ← ChainPool.onChains chainPalloc then
        fun w => .ok (some w.chains.links.size)
          { w with chains := { w.chains with links := w.chains.links.alloc held } }
      else pure none : Ngx ChainPool (Option Nat)) w := by
    rw [ngxAllocChainLink, Exec.bind_ok _ (Exec.gets_apply _ w), none_free]
  have answered : ChainPool.onChains chainPalloc w = .ok (granted w.chains.grants) _ :=
    Exec.zoom_ok (chainPalloc_eq w.chains)
  rw [Exec.bind_ok _ answered] at asked
  have plain := chain_eq b w.chains
  cases answer : granted w.chains.grants with
  | true =>
    rw [answer] at asked plain
    rw [NgxPool.nodeOf_eq asked Heap.read_alloc_self, ChainPool.onChains, Exec.zoom_ok plain,
      Heap.write_alloc]
  | false =>
    rw [answer] at asked plain
    have refused : NgxPool.chainAgain held w = .raised ⟨ngxError⟩
        { w with chains := { w.chains with grants := w.chains.grants.tail } } := by
      rw [NgxPool.chainAgain, Exec.bind_ok _ asked]
      exact Exec.bind_raised _ (NgxException.requirePtr_none _ _)
    rw [NgxPool.nodeOf, Exec.bind_raised _ refused, ChainPool.onChains, Exec.zoom_raised plain]

theorem NgxChain.advance_eq (linked : Linked m.nextLink head ps) (k : Nat) :
    NgxChain.advance k head m = .ok (ps.drop k).head? m := by
  induction k generalizing head ps with
  | zero =>
    rw [List.drop_zero, linked.head_eq]
    rfl
  | succ k ih =>
    cases linked with
    | nil =>
      rw [List.drop_nil, ← List.drop_nil]
      exact ih .nil
    | @cons p q ps found rest =>
      have next := NgxChainIterator.increment_eq [] (Linked.cons found rest)
      rw [NgxChain.advance, Exec.bind_ok _ next, rest.head_eq, List.drop_succ_cons]
      exact ih rest

theorem NgxChain.tailOf_last (linked : Linked m.nextLink head (ps ++ [p])) :
    NgxChain.tailOf head m = .ok (some p) m := by
  obtain ⟨q, qs, same⟩ := List.exists_cons_of_ne_nil (List.append_ne_nil_of_right_ne_nil ps
    (List.cons_ne_nil p []))
  rw [same] at linked
  obtain rfl := linked.head_eq
  have last := NgxChain.tailOf_eq linked
  rwa [← same, List.getLast?_concat] at last

def ChainMem.bufAt (m : ChainMem) (p : Nat) : Option Nat := (m.links.read p).map NgxChainT.buf

theorem ChainMem.bufAt_of_read (found : m.links.read p = some link) :
    m.bufAt p = some link.buf := by
  rw [ChainMem.bufAt, found]
  rfl

theorem ChainMem.bufAt_congr {m' : ChainMem} (same : m'.links.read p = m.links.read p) :
    m'.bufAt p = m.bufAt p := by
  rw [ChainMem.bufAt, ChainMem.bufAt, same]

theorem ChainPool.next_of_read (found : w.chains.links.read p = some link) :
    w.next p = some link.next := by
  rw [ChainPool.next, ChainMem.nextLink, found]
  rfl

theorem ChainPool.next_congr {w' : ChainPool}
    (same : w'.chains.links.read p = w.chains.links.read p) : w'.next p = w.next p := by
  rw [ChainPool.next, ChainPool.next, ChainMem.nextLink, ChainMem.nextLink, same]

theorem NgxChainNode.data_keeps {m' : ChainMem} (read : NgxChainNode.data ch m = .ok b m') :
    m' = m := by
  obtain ⟨p, mid, at_ch, read⟩ := Exec.bind_eq_ok.mp read
  obtain ⟨-, rfl⟩ := Exec.deref_eq_ok.mp at_ch
  obtain ⟨link, mid', found, read⟩ := Exec.bind_eq_ok.mp read
  obtain ⟨-, rfl⟩ := Exec.deref_eq_ok.mp found
  exact (Outcome.ok.inj read).2.symm

theorem NgxChain.dataSteps (held : ps.map m.bufAt = bs.map some) (seen : List Nat) :
    ps.foldlM (fun bs c => NgxChain.dataStep c bs) seen m = .ok (seen ++ bs) m := by
  induction ps generalizing bs seen with
  | nil =>
    obtain rfl : bs = [] := by simpa using held.symm
    rw [List.foldlM_nil, List.append_nil]
    rfl
  | cons p ps ih =>
    cases bs with
    | nil => simp at held
    | cons b bs =>
      rw [List.map_cons, List.map_cons, List.cons.injEq] at held
      obtain ⟨link, found, rfl⟩ := Option.map_eq_some_iff.mp held.1
      have step : NgxChain.dataStep p seen m = .ok (seen ++ [link.buf]) m := by
        rw [NgxChain.dataStep, Exec.bind_ok _ (NgxChainNode.data_ok found)]
        rfl
      rw [List.foldlM_cons, Exec.bind_ok _ step, ih held.2]
      simp

theorem NgxChain.datas_eq (linked : Linked m.nextLink head ps)
    (held : ps.map m.bufAt = bs.map some) : NgxChain.datas head m = .ok bs m := by
  have keeps : ∀ p x y s s', Linked (id s).nextLink head ps →
      NgxChain.dataStep p x s = .ok y s' → Linked (id s').nextLink head ps := by
    intro p x y s s' linked done
    obtain ⟨b, mid, read, noted⟩ := Exec.bind_eq_ok.mp done
    obtain ⟨-, rfl⟩ := Outcome.ok.inj noted
    obtain rfl := NgxChainNode.data_keeps read
    exact linked
  have loop := NgxChain.forNodes_eq id keeps m.links.size [] rfl linked
    (ChainMem.length_le linked) []
  rw [linked.head_eq] at loop
  rw [NgxChain.datas, Exec.bind_ok _ (Exec.gets_apply _ m), loop, NgxChain.dataSteps held]
  rfl

theorem NgxChain.free_keeps (head pos : Option Nat) (n : Nat) (grants : List Bool) :
    Exec.Keeps (fun w => w.chains.links.size = n ∧ w.chains.grants = grants)
      (NgxChain.free head pos) := by
  have given : ∀ cl, Exec.Keeps (fun w => w.chains.links.size = n ∧ w.chains.grants = grants)
      (ngxFreeChain cl) := by
    refine fun cl => .bind (.zoom _ fun _ _ kept => kept) fun link => .modify ?_
    rintro w ⟨size, answers⟩
    exact ⟨Heap.size_write.trans size, answers⟩
  have loop : ∀ fuel it, Exec.Keeps
      (fun w => w.chains.links.size = n ∧ w.chains.grants = grants)
      (NgxChain.freeFrom pos fuel it) := by
    intro fuel
    induction fuel with
    | zero =>
      intro it
      cases it with
      | none => exact .pure ()
      | some p =>
        intro w _ w' left
        cases left
    | succ fuel ih =>
      intro it
      cases it with
      | none => exact .pure ()
      | some p =>
        exact .ite (.pure ()) (.bind (.zoom _ fun _ _ kept => kept) fun next =>
          .bind (given p) fun _ => ih next)
  exact .bind (.gets _) fun fuel => .bind (loop fuel head) fun _ => .pure pos

theorem NgxChain.free_front {front back fs : List Nat}
    (linked : Linked w.next head (front ++ back)) (pool : Linked w.next w.chain fs)
    (apart : (front ++ back).Disjoint fs) :
    ∃ w', NgxChain.free head back.head? w = .ok back.head? w' ∧ NgxChain.Freed w w' front fs ∧
      w'.chains.links.size = w.chains.links.size ∧ w'.chains.grants = w.chains.grants := by
  obtain ⟨w', run, freed⟩ := NgxChain.freeFrom_ok w.chains.links.size linked pool apart rfl
    (ChainMem.length_le linked)
  have done : NgxChain.free head back.head? w = .ok back.head? w' := by
    rw [NgxChain.free, Exec.bind_ok _ (Exec.gets_apply _ w), Exec.bind_ok _ run]
    rfl
  obtain ⟨size, answers⟩ := NgxChain.free_keeps head back.head? w.chains.links.size
    w.chains.grants w ⟨rfl, rfl⟩ w' (by rw [done]; rfl)
  exact ⟨w', done, freed, size, answers⟩

end Nodes

end NgxCpp
