import NgxCpp.NgxBuf

/-! The traversals of `NgxChain`, whose pointer may be null: `visit` goes with an
iterator, while `trace` and `tail` look for the node without a next one. -/

namespace NgxCpp
open Foundation

variable {σ : Type}

def NgxChainNode.data (ch : Option Nat) : Ngx ChainMem Nat := do
  let p ← Exec.deref fun _ => ch
  let link ← readLink p
  pure link.buf

theorem NgxChainNode.data_ok {m : ChainMem} {p : Nat} {link : NgxChainT}
    (found : m.links.read p = some link) : NgxChainNode.data (some p) m = .ok link.buf m := by
  rw [NgxChainNode.data, Exec.bind_ok _ (Exec.deref_given p m), Exec.bind_ok _ (readLink_ok found)]
  rfl

/-- `increment`, which stays at the end. -/
def NgxChainIterator.increment : Option Nat → Ngx ChainMem (Option Nat)
  | none => pure none
  | some p => do
    let link ← readLink p
    pure link.next

namespace NgxChain

def forNodes {L : Type} (mem : σ → ChainMem) (body : Nat → L → Ngx σ L) :
    Nat → Option Nat → L → Ngx σ L
  | _, none, x => pure x
  | 0, some _, _ => Exec.exhausted
  | fuel + 1, some p, x => do
    let y ← body p x
    let next ← Exec.view mem (NgxChainIterator.increment (some p))
    forNodes mem body fuel next y

def visit (mem : σ → ChainMem) (head : Option Nat) (v : Nat → Ngx σ Unit) : Ngx σ Unit := do
  let fuel ← Exec.gets fun s => (mem s).links.size
  forNodes mem (fun p _ => v p) fuel head ()

def empty (head : Option Nat) : Bool := head.isNone

/-- The loop of `trace`: both its test and its step read `p->next`. -/
def traceFrom (mem : σ → ChainMem) (v : Nat → Ngx σ Unit) : Nat → Option Nat → Ngx σ (Option Nat)
  | 0, _ => Exec.exhausted
  | fuel + 1, it => do
    let p ← Exec.deref fun _ => it
    let link ← Exec.view mem (readLink p)
    match link.next with
    | none => do
      v p
      pure (some p)
    | some _ => do
      v p
      let next ← Exec.view mem (NgxChainIterator.increment (some p))
      traceFrom mem v fuel next

def trace (mem : σ → ChainMem) (head : Option Nat) (v : Nat → Ngx σ Unit) : Ngx σ (Option Nat) := do
  let fuel ← Exec.gets fun s => (mem s).links.size
  traceFrom mem v (fuel + 1) head

/-- `tail`, from the pointer that the wrapper holds. -/
def tailOf (head : Option Nat) : Ngx ChainMem (Option Nat) := do
  let p ← Exec.deref fun _ => head
  let fuel ← Exec.gets fun m => m.links.size
  let q ← tail fuel p
  pure (some q)

/-- `append`, to the pointer that the wrapper holds. -/
def appendTo (head ch : Option Nat) : Ngx ChainMem Unit := do
  let last ← tailOf head
  let p ← Exec.deref fun _ => last
  let link ← readLink p
  setLink p { link with next := ch }

def KeepsChain (mem : σ → ChainMem) (v : Nat → Ngx σ Unit) (head : Option Nat) (ps : List Nat) :
    Prop :=
  ∀ p s s', Linked (mem s).nextLink head ps → v p s = .ok () s' → Linked (mem s').nextLink head ps

/-- The chain of the nodes `ps` seen by its traversals, and the chain `qs` appended. -/
structure TraversalsAgree (m : ChainMem) (head ch : Option Nat) (ps qs : List Nat) : Prop where
  visited : ∀ {σ : Type} (mem : σ → ChainMem) (v : Nat → Ngx σ Unit) (s : σ), mem s = m →
    KeepsChain mem v head ps → visit mem head v s = Exec.each v ps s
  traced : ∀ {σ : Type} (mem : σ → ChainMem) (v : Nat → Ngx σ Unit) (s : σ), mem s = m →
    KeepsChain mem v head ps → trace mem head v s = (do
      visit mem head v
      pure ps.getLast?) s
  tail : tailOf head m = .ok ps.getLast? m
  append : ∃ m', appendTo head ch m = .ok () m' ∧ Linked m'.nextLink head (ps ++ qs)

end NgxChain

section Nodes

variable {m : ChainMem} {head : Option Nat} {p : Nat} {ps qs : List Nat}

theorem ChainMem.length_le (linked : Linked m.nextLink head ps) : ps.length ≤ m.links.size := by
  have inside : ps ⊆ List.range m.links.size := by
    intro p member
    obtain ⟨front, back, rfl⟩ := List.append_of_mem member
    have found := linked.next_eq
    rw [ChainMem.nextLink, Option.map_eq_some_iff] at found
    obtain ⟨link, at_p, -⟩ := found
    exact List.mem_range.mpr (Heap.read_lt at_p)
  simpa using (List.subperm_of_subset linked.nodup inside).length_le

theorem ChainMem.link_at (before : List Nat) (linked : Linked m.nextLink head (before ++ p :: qs)) :
    ∃ b, m.links.read p = some ⟨b, qs.head?⟩ := by
  have found := linked.next_eq
  rw [ChainMem.nextLink, Option.map_eq_some_iff] at found
  obtain ⟨⟨b, next⟩, at_p, rfl⟩ := found
  exact ⟨b, at_p⟩

theorem NgxChainIterator.increment_eq (before : List Nat)
    (linked : Linked m.nextLink head (before ++ p :: qs)) :
    NgxChainIterator.increment (some p) m = .ok qs.head? m := by
  obtain ⟨b, at_p⟩ := ChainMem.link_at before linked
  rw [NgxChainIterator.increment, Exec.bind_ok _ (readLink_ok at_p)]
  rfl

end Nodes

namespace NgxChain

section Loops

variable {mem : σ → ChainMem} {v : Nat → Ngx σ Unit} {head : Option Nat} {ps : List Nat} {s : σ}

theorem forNodes_eq {L : Type} (mem : σ → ChainMem) {body : Nat → L → Ngx σ L}
    (keeps : ∀ p x y s s', Linked (mem s).nextLink head ps → body p x s = .ok y s' →
      Linked (mem s').nextLink head ps) (fuel : Nat) (before : List Nat) {qs : List Nat}
    (split : ps = before ++ qs) (linked : Linked (mem s).nextLink head ps)
    (enough : qs.length ≤ fuel) (x : L) :
    forNodes mem body fuel qs.head? x s = qs.foldlM (fun x p => body p x) x s := by
  induction qs generalizing before s fuel x with
  | nil => cases fuel <;> rfl
  | cons p qs ih =>
    obtain ⟨fuel, rfl⟩ : ∃ k, fuel = k + 1 := Nat.exists_eq_add_one_of_ne_zero (by
      rw [List.length_cons] at enough
      omega)
    rw [List.head?_cons, forNodes, List.foldlM_cons, Exec.bind_apply, Exec.bind_apply]
    cases done : body p x s with
    | ok y s' =>
      have later := keeps p x y s s' linked done
      have next : NgxChainIterator.increment (some p) (mem s') = .ok qs.head? (mem s') := by
        rw [split] at later
        exact NgxChainIterator.increment_eq before later
      simp only
      rw [Exec.bind_ok _ (Exec.view_ok next)]
      exact ih fuel (before ++ [p]) (by simp [split]) later (Nat.le_of_succ_le_succ enough) y
    | raised e s' => rfl
    | undefined => rfl
    | exhausted => rfl

theorem visit_eq (keeps : KeepsChain mem v head ps) (linked : Linked (mem s).nextLink head ps) :
    visit mem head v s = Exec.each v ps s := by
  have whole := forNodes_eq mem (fun p _ _ s s' => keeps p s s') (mem s).links.size []
    rfl linked (ChainMem.length_le linked) ()
  rw [visit, Exec.bind_ok _ (Exec.gets_apply _ s), ← linked.head_eq, whole,
    Exec.foldlM_eq_each]

theorem traceFrom_at {before qs : List Nat} {p : Nat} (fuel : Nat)
    (linked : Linked (mem s).nextLink head (before ++ p :: qs)) :
    traceFrom mem v (fuel + 1) (some p) s =
      (match qs.head? with
      | none => do
        v p
        pure (some p)
      | some _ => do
        v p
        let next ← Exec.view mem (NgxChainIterator.increment (some p))
        traceFrom mem v fuel next) s := by
  obtain ⟨b, at_p⟩ := ChainMem.link_at before linked
  rw [traceFrom, Exec.bind_ok _ (Exec.deref_given p s),
    Exec.bind_ok _ (Exec.view_ok (readLink_ok at_p))]

theorem traceFrom_eq (keeps : KeepsChain mem v head ps) (fuel : Nat) (before : List Nat)
    {qs : List Nat} {p : Nat}
    (split : ps = before ++ p :: qs) (linked : Linked (mem s).nextLink head ps)
    (enough : qs.length ≤ fuel) : traceFrom mem v (fuel + 1) (some p) s = (do
      Exec.each v (p :: qs)
      pure (p :: qs).getLast?) s := by
  induction qs generalizing before p s fuel with
  | nil =>
    rw [traceFrom_at fuel (split ▸ linked)]
    simp only [List.head?_nil, Exec.each, Exec.bind_apply]
    cases v p s <;> rfl
  | cons q qs ih =>
    obtain ⟨fuel, rfl⟩ : ∃ k, fuel = k + 1 := Nat.exists_eq_add_one_of_ne_zero (by
      rw [List.length_cons] at enough
      omega)
    rw [traceFrom_at _ (split ▸ linked), Exec.each, Exec.bind_apply]
    simp only [List.head?_cons]
    rw [Exec.bind_apply, Exec.bind_apply]
    cases done : v p s with
    | ok u s' =>
      have later := keeps p s s' linked done
      have next := NgxChainIterator.increment_eq before (split ▸ later)
      simp only
      rw [Exec.bind_ok _ (Exec.view_ok next), List.head?_cons, List.getLast?_cons_cons]
      exact ih fuel (before ++ [p]) (by simp [split]) later (Nat.le_of_succ_le_succ enough)
    | raised e s' => rfl
    | undefined => rfl
    | exhausted => rfl

theorem trace_eq {p : Nat} {qs : List Nat} (keeps : KeepsChain mem v (some p) (p :: qs))
    (linked : Linked (mem s).nextLink (some p) (p :: qs)) :
    trace mem (some p) v s = (do
      visit mem (some p) v
      pure (p :: qs).getLast?) s := by
  have enough := Nat.le_of_succ_le (ChainMem.length_le linked)
  rw [trace, Exec.bind_ok _ (Exec.gets_apply _ s),
    traceFrom_eq keeps _ [] rfl linked enough]
  exact Exec.bind_congr_left _ (visit_eq keeps linked).symm

end Loops

section Ends

variable {m : ChainMem} {head ch : Option Nat} {p b : Nat} {ps qs : List Nat}

theorem tail_eq (linked : Linked m.nextLink (some p) (p :: ps)) (fuel : Nat)
    (enough : ps.length < fuel) : tail fuel p m = .ok ((p :: ps).getLast (by simp)) m := by
  induction ps generalizing p fuel with
  | nil =>
    obtain ⟨fuel, rfl⟩ : ∃ k, fuel = k + 1 := Nat.exists_eq_add_one_of_ne_zero (by omega)
    obtain ⟨b, at_p⟩ := ChainMem.link_at [] linked
    rw [tail, Exec.bind_ok _ (readLink_ok at_p)]
    rfl
  | cons q ps ih =>
    obtain ⟨fuel, rfl⟩ : ∃ k, fuel = k + 1 := Nat.exists_eq_add_one_of_ne_zero (by omega)
    obtain ⟨b, at_p⟩ := ChainMem.link_at [] linked
    have later : Linked m.nextLink (some q) (q :: ps) :=
      Linked.suffix (show Linked m.nextLink (some p) ([p] ++ q :: ps) from linked)
    rw [tail, Exec.bind_ok _ (readLink_ok at_p)]
    simp only [List.head?_cons]
    rw [ih later fuel (by
      rw [List.length_cons] at enough
      omega), List.getLast_cons_cons]

theorem tailOf_eq (linked : Linked m.nextLink (some p) (p :: ps)) :
    tailOf (some p) m = .ok (p :: ps).getLast? m := by
  rw [tailOf, Exec.bind_ok _ (Exec.deref_given p m), Exec.bind_ok _ (Exec.gets_apply _ m),
    Exec.bind_ok _ (tail_eq linked _ (ChainMem.length_le linked)),
    List.getLast?_eq_getLast_of_ne_nil (List.cons_ne_nil p ps)]
  rfl

theorem appendTo_some (h ch : Nat) : appendTo (some h) (some ch) = append h ch := by
  funext m
  rw [appendTo, tailOf, append, Exec.bind_apply, Exec.bind_ok _ (Exec.deref_given h m),
    Exec.bind_ok _ (Exec.gets_apply _ m), Exec.bind_ok _ (Exec.gets_apply _ m), Exec.bind_apply,
    Exec.bind_apply]
  cases tail m.links.size h m <;> rfl

theorem appendTo_linked (linked : Linked m.nextLink (some p) (p :: ps))
    (other : Linked m.nextLink ch qs) (apart : (p :: ps).Disjoint qs) :
    ∃ m', appendTo (some p) ch m = .ok () m' ∧ Linked m'.nextLink (some p) (p :: ps ++ qs) := by
  obtain ⟨front, last, split⟩ := (List.eq_nil_or_concat' (p :: ps)).resolve_left (by simp)
  obtain ⟨b, at_last⟩ := ChainMem.link_at _ (split ▸ linked)
  have found : tailOf (some p) m = .ok (some last) m := by
    rw [tailOf_eq linked, split, List.getLast?_concat]
  let m' : ChainMem := { m with links := m.links.write last ⟨b, ch⟩ }
  have written : m'.nextLink last = some ch := by
    rw [ChainMem.nextLink, Heap.read_write_self at_last]
    rfl
  have kept : ∀ q, q ≠ last → m'.nextLink q = m.nextLink q := fun q different => by
    rw [ChainMem.nextLink, ChainMem.nextLink, Heap.read_write_ne different]
  refine ⟨m', ?_, ?_⟩
  · rw [appendTo, Exec.bind_ok _ found, Exec.bind_ok _ (Exec.deref_given last m),
      Exec.bind_ok _ (readLink_ok at_last)]
    rfl
  · rw [split] at linked apart ⊢
    have behind : Linked m'.nextLink ch qs := other.frame fun q member =>
      kept q fun same => apart (by simp) (same ▸ member)
    have distinct := linked.nodup
    rw [List.nodup_append] at distinct
    rw [List.append_assoc]
    exact linked.append behind
      (fun q member => kept q (distinct.2.2 q member last (by simp))) written

/-- The traversals agree on a chain exactly when it has a node, and `append` when the
other chain has none of its nodes. -/
theorem traversals_agree_iff (linked : Linked m.nextLink head ps)
    (other : Linked m.nextLink ch qs) :
    TraversalsAgree m head ch ps qs ↔ empty head = false ∧ ps.Disjoint qs := by
  constructor
  · intro agree
    obtain ⟨m', -, together⟩ := agree.append
    refine ⟨?_, List.disjoint_of_nodup_append together.nodup⟩
    cases head with
    | none =>
      have stuck := agree.tail
      simp [tailOf, Exec.bind_apply, Exec.deref] at stuck
    | some p => rfl
  · rintro ⟨some, apart⟩
    cases linked with
    | nil => simp [empty] at some
    | @cons p _ ps found rest =>
      have linked : Linked m.nextLink (.some p) (p :: ps) := .cons found rest
      refine ⟨fun mem v s same keeps => ?_, fun mem v s same keeps => ?_, tailOf_eq linked,
        appendTo_linked linked other apart⟩
      · subst same
        exact visit_eq keeps linked
      · subst same
        exact trace_eq keeps linked

private def twoChains : ChainMem := { links := ⟨[⟨0, some 1⟩, ⟨1, none⟩, ⟨2, none⟩]⟩ }

theorem traversals_agree_two : TraversalsAgree twoChains (some 0) (some 2) [0, 1] [2] := by
  have linked : Linked twoChains.nextLink (some 0) [0, 1] := .cons rfl (.cons rfl .nil)
  have other : Linked twoChains.nextLink (some 2) [2] := .cons rfl .nil
  exact (traversals_agree_iff linked other).mpr ⟨rfl, by simp⟩

/-- `tail` of the empty chain follows the null pointer. -/
theorem traversals_disagree_on_empty : ¬ TraversalsAgree {} none none [] [] := by
  intro agree
  exact absurd agree.tail (by decide)

end Ends

end NgxChain

end NgxCpp
