import NgxCpp.Foundation.Runs
import NgxCpp.Foundation.Shared
import NgxCpp.NgxChainPool

/-! Runs of chain operations over one pool against runs on sequences of buffers. Where all
the nodes are is said once, for the free ones and those of every chain together. -/

namespace NgxCpp
open Foundation

structure ChainVars where
  pool : ChainPool
  vars : List (Option Nat) := []
deriving Repr, DecidableEq

namespace ChainVars

def onPool {α : Type} (x : Ngx ChainPool α) : Ngx ChainVars α :=
  Exec.zoom ChainVars.pool (fun pool s => { s with pool }) x

def onChains {α : Type} (x : Ngx ChainMem α) : Ngx ChainVars α :=
  onPool (ChainPool.onChains x)

def var (c : Nat) : Ngx ChainVars (Option Nat) := Exec.deref fun s => s.vars[c]?

def assign (c : Nat) (head : Option Nat) : Ngx ChainVars Unit :=
  Exec.modify fun s => { s with vars := s.vars.set c head }

end ChainVars

/-- What a program does with its chains; `k` counts the increments of an iterator. -/
inductive ChainOp where
  | create (held : NgxChainT) (b : Nat)
  | set (c k b : Nat)
  | link (c k d : Nat)
  | append (c d : Nat)
  | free (c k : Nat)
deriving Repr, DecidableEq

namespace ChainOp
open ChainVars

/-- A chain that is linked into another is left to it: its variable gets what the new
link cuts off, which is nothing after `append`. -/
def run : ChainOp → Ngx ChainVars Unit
  | create held b => do
    let p ← onPool (NgxPool.nodeOf held b)
    Exec.modify fun s => { s with vars := s.vars ++ [some p] }
  | set c k b => do
    let head ← var c
    let it ← onChains (NgxChain.advance k head)
    onChains (NgxChainNode.set it b)
  | link c k d => do
    let head ← var c
    let ch ← var d
    let it ← onChains (NgxChain.advance k head)
    let rest ← onChains (NgxChainIterator.increment it)
    onChains (NgxChainNode.link it ch)
    assign d rest
  | append c d => do
    let head ← var c
    let ch ← var d
    onChains (NgxChain.appendTo head ch)
    assign d none
  | free c k => do
    let head ← var c
    let pos ← onChains (NgxChain.advance k head)
    let rest ← onPool (NgxChain.free head pos)
    assign c rest

def attempt : ChainOp → Ngx ChainVars Unit
  | create held b => Exec.catching (create held b).run fun _ => pure ()
  | op => op.run

end ChainOp

/-- The buffers of each chain, how many nodes are free, and the pool's coming answers. -/
structure ChainSpec where
  chains : List (List Nat) := []
  free : Nat := 0
  grants : List Bool := []
deriving Repr, DecidableEq

namespace ChainSpec

def chainAt (a : ChainSpec) (c : Nat) : List Nat := a.chains[c]?.getD []

def step (a : ChainSpec) : ChainOp → ChainSpec
  | .create _ b =>
    if a.free = 0 then
      if granted a.grants then { a with chains := a.chains ++ [[b]], grants := a.grants.tail }
      else { a with grants := a.grants.tail }
    else { a with chains := a.chains ++ [[b]], free := a.free - 1 }
  | .set c k b => { a with chains := a.chains.set c ((a.chainAt c).set k b) }
  | .link c k d => { a with
      chains := (a.chains.set c ((a.chainAt c).take (k + 1) ++ a.chainAt d)).set d
        ((a.chainAt c).drop (k + 1)) }
  | .append c d => { a with
      chains := (a.chains.set c (a.chainAt c ++ a.chainAt d)).set d [] }
  | .free c k => { a with
      chains := a.chains.set c ((a.chainAt c).drop k)
      free := a.free + min k (a.chainAt c).length }

/-- A node that is used is there, no chain is linked into itself, and none is appended to
the empty chain. -/
def Allowed (a : ChainSpec) : ChainOp → Prop
  | .create _ _ => True
  | .set c k _ => k < (a.chainAt c).length
  | .link c k d => k < (a.chainAt c).length ∧ d < a.chains.length ∧ c ≠ d
  | .append c d => a.chainAt c ≠ [] ∧ d < a.chains.length ∧ c ≠ d
  | .free c _ => c < a.chains.length

instance (a : ChainSpec) : (op : ChainOp) → Decidable (a.Allowed op)
  | .create _ _ => inferInstanceAs (Decidable True)
  | .set c k _ => inferInstanceAs (Decidable (k < (a.chainAt c).length))
  | .link c k d =>
    inferInstanceAs (Decidable (k < (a.chainAt c).length ∧ d < a.chains.length ∧ c ≠ d))
  | .append c d => inferInstanceAs (Decidable (a.chainAt c ≠ [] ∧ d < a.chains.length ∧ c ≠ d))
  | .free c _ => inferInstanceAs (Decidable (c < a.chains.length))

def inUse (a : ChainSpec) : Nat := (a.chains.map List.length).sum

def size (a : ChainSpec) : Nat := a.inUse + a.free

section Sizes

variable {a : ChainSpec} {c d k : Nat}

theorem chainAt_lt (inside : k < (a.chainAt c).length) : c < a.chains.length := by
  by_contra outside
  rw [chainAt, List.getElem?_eq_none (Nat.le_of_not_lt outside)] at inside
  simp at inside

theorem at_lt (inside : c < a.chains.length) : a.chains[c]? = some (a.chainAt c) := by
  rw [chainAt, List.getElem?_eq_getElem inside]
  rfl

theorem inUse_set (inside : c < a.chains.length) (xs : List Nat) :
    ((a.chains.set c xs).map List.length).sum + (a.chainAt c).length = a.inUse + xs.length :=
  sum_map_set List.length (at_lt inside) xs

theorem inUse_exchange (inside : c < a.chains.length) (there : d < a.chains.length)
    (apart : c ≠ d) (xs ys : List Nat)
    (moved : xs.length + ys.length = (a.chainAt c).length + (a.chainAt d).length) :
    (((a.chains.set c xs).set d ys).map List.length).sum = a.inUse := by
  have at_d : (a.chains.set c xs)[d]? = some (a.chainAt d) := by
    rw [List.getElem?_set_ne apart]
    exact at_lt there
  have first := inUse_set inside xs
  have second := sum_map_set List.length at_d ys
  omega

theorem size_step (op : ChainOp) (allowed : a.Allowed op) :
    (a.step op).size = max a.size (a.step op).inUse := by
  cases op with
  | create held b =>
    by_cases none_free : a.free = 0
    · by_cases granted : NgxCpp.granted a.grants = true
      · simp [step, size, inUse, none_free, granted]
      · simp [step, size, inUse, none_free, granted]
    · simp only [step, size, inUse, if_neg none_free, List.map_append, List.sum_append]
      simp
      omega
  | set c k b =>
    have kept := inUse_set (chainAt_lt allowed) ((a.chainAt c).set k b)
    rw [List.length_set] at kept
    simp only [step, size, inUse] at kept ⊢
    omega
  | link c k d =>
    obtain ⟨inside, there, apart⟩ := allowed
    have kept := inUse_exchange (chainAt_lt inside) there apart
      ((a.chainAt c).take (k + 1) ++ a.chainAt d) ((a.chainAt c).drop (k + 1)) (by simp; omega)
    simp only [step, size, inUse] at kept ⊢
    omega
  | append c d =>
    obtain ⟨some_node, there, apart⟩ := allowed
    have kept := inUse_exchange (chainAt_lt (List.length_pos_iff.mpr some_node)) there apart
      (a.chainAt c ++ a.chainAt d) [] (by simp)
    simp only [step, size, inUse] at kept ⊢
    omega
  | free c k =>
    have kept := inUse_set allowed ((a.chainAt c).drop k)
    rw [List.length_drop] at kept
    simp only [step, size, inUse] at kept ⊢
    omega

end Sizes

end ChainSpec

namespace ChainVars

/-- The variables hold the chains of the specification, and their nodes and the free ones
`fs` share out all that the pool ever made. -/
structure Models (s : ChainVars) (fs : List Nat) (own : List (List Nat)) (a : ChainSpec) :
    Prop where
  shared : Shared s.pool.next s.pool.chains.links.size (s.pool.chain :: s.vars) (fs :: own)
  bufs : own.map (List.map s.pool.chains.bufAt) = a.chains.map (List.map some)
  count : fs.length = a.free
  grants : s.pool.chains.grants = a.grants

/-- The chains in the variables are those of the specification, and no node is in two of
them, in one of them and free, or lost. -/
structure Shows (s : ChainVars) (a : ChainSpec) : Prop where
  count : s.vars.length = a.chains.length
  datas : ∀ (c : Nat) head, s.vars[c]? = some head →
    NgxChain.datas head s.pool.chains = .ok (a.chainAt c) s.pool.chains
  nodes : ∃ fs own, Shared s.pool.next s.pool.chains.links.size (s.pool.chain :: s.vars)
    (fs :: own) ∧ fs.length = a.free

def setLink (s : ChainVars) (p : Nat) (link : NgxChainT) : ChainVars := { s with
  pool := { s.pool with chains := { s.pool.chains with
    links := s.pool.chains.links.write p link } } }

theorem setLink_read_self {s : ChainVars} {p : Nat} {old : NgxChainT}
    (found : s.pool.chains.links.read p = some old) (link : NgxChainT) :
    (s.setLink p link).pool.chains.links.read p = some link :=
  Heap.read_write_self found

theorem setLink_read_ne {s : ChainVars} {p q : Nat} {link : NgxChainT} (other : q ≠ p) :
    (s.setLink p link).pool.chains.links.read q = s.pool.chains.links.read q :=
  Heap.read_write_ne other

theorem onChains_ok {α : Type} {x : Ngx ChainMem α} {s : ChainVars} {v : α} {chains : ChainMem}
    (done : x s.pool.chains = .ok v chains) :
    onChains x s = .ok v { s with pool := { s.pool with chains } } := by
  have inner : ChainPool.onChains x s.pool = .ok v { s.pool with chains } := Exec.zoom_ok done
  rw [onChains, onPool, Exec.zoom_ok inner]

theorem var_ok {s : ChainVars} {c : Nat} {head : Option Nat} (found : s.vars[c]? = some head) :
    var c s = .ok head s :=
  Exec.deref_some found

theorem advance_past {s : ChainVars} {head : Option Nat} {front ps : List Nat}
    (linked : Linked s.pool.next head (front ++ ps)) :
    onChains (NgxChain.advance front.length head) s = .ok ps.head? s := by
  have reached := NgxChain.advance_eq linked front.length
  rw [List.drop_left] at reached
  rw [onChains_ok reached]

namespace Models

variable {s : ChainVars} {fs : List Nat} {own : List (List Nat)} {a : ChainSpec}
  {c d k b p : Nat}

theorem bufs_at (models : Models s fs own a) {ps : List Nat} (at_c : own[c]? = some ps) :
    ps.map s.pool.chains.bufAt = (a.chainAt c).map some := by
  have both := congrArg (fun xss => xss[c]?) models.bufs
  simp only [List.getElem?_map, at_c, Option.map_some] at both
  obtain ⟨xs, at_a, same⟩ := Option.map_eq_some_iff.mp both.symm
  rw [ChainSpec.chainAt, at_a]
  exact same.symm

theorem at_var (models : Models s fs own a) (inside : c < a.chains.length) :
    ∃ ps head, own[c]? = some ps ∧ s.vars[c]? = some head ∧ Linked s.pool.next head ps ∧
      ps.map s.pool.chains.bufAt = (a.chainAt c).map some := by
  have length := congrArg List.length models.bufs
  rw [List.length_map, List.length_map] at length
  have at_c : own[c]? = some own[c] := List.getElem?_eq_getElem (length ▸ inside)
  obtain ⟨head, at_head, linked⟩ := models.shared.linked (c + 1) own[c] at_c
  exact ⟨own[c], head, at_c, at_head, linked, models.bufs_at at_c⟩

theorem split_at {α : Type} {xs : List α} (inside : k < xs.length) :
    ∃ front x rest, xs = front ++ x :: rest ∧ front.length = k :=
  ⟨xs.take k, xs[k], xs.drop (k + 1), by simp, by simp; omega⟩

theorem relink (models : Models s fs own a) {front rest qs : List Nat} {h ch : Option Nat}
    {link : NgxChainT} (at_c : own[c]? = some (front ++ p :: rest)) (at_d : own[d]? = some qs)
    (apart : c ≠ d) (head_c : s.vars[c]? = some h) (head_d : s.vars[d]? = some ch)
    (found : s.pool.chains.links.read p = some link) :
    Models { s.setLink p { link with next := ch } with vars := s.vars.set d rest.head? } fs
      ((own.set c (front ++ p :: qs)).set d rest) { a with
        chains := (a.chains.set c ((a.chainAt c).take (front.length + 1) ++ a.chainAt d)).set d
          ((a.chainAt c).drop (front.length + 1)) } where
  shared := by
    have kept : ∀ q, q ≠ p →
        (s.setLink p { link with next := ch }).pool.next q = s.pool.next q :=
      fun q other => ChainPool.next_congr (setLink_read_ne other)
    have written : (s.setLink p { link with next := ch }).pool.next p = some ch :=
      ChainPool.next_of_read (setLink_read_self found _)
    have relinked := models.shared.relink (show (fs :: own)[c + 1]? = _ from at_c)
      (show (fs :: own)[d + 1]? = _ from at_d) (by omega)
      (show (s.pool.chain :: s.vars)[c + 1]? = _ from head_c)
      (show (s.pool.chain :: s.vars)[d + 1]? = _ from head_d) written kept
    rw [← Heap.size_write] at relinked
    exact relinked
  bufs := by
    have same : (s.setLink p { link with next := ch }).pool.chains.bufAt =
        s.pool.chains.bufAt := by
      funext q
      by_cases here : q = p
      · subst here
        rw [ChainMem.bufAt_of_read (setLink_read_self found _), ChainMem.bufAt_of_read found]
      · exact ChainMem.bufAt_congr (setLink_read_ne here)
    have left := models.bufs_at at_c
    have right := models.bufs_at at_d
    have spliced : (front ++ p :: qs).map s.pool.chains.bufAt =
        ((a.chainAt c).take (front.length + 1) ++ a.chainAt d).map some := by
      calc (front ++ p :: qs).map s.pool.chains.bufAt
          = ((front ++ p :: rest).map s.pool.chains.bufAt).take (front.length + 1) ++
              qs.map s.pool.chains.bufAt := by
            rw [← List.map_take, ← List.map_append, List.take_length_add_append]
            simp
        _ = _ := by rw [left, right, ← List.map_take, ← List.map_append]
    have cut : rest.map s.pool.chains.bufAt =
        ((a.chainAt c).drop (front.length + 1)).map some := by
      rw [List.map_drop, ← left, ← List.map_drop]
      simp
    rw [same, List.map_set, List.map_set, List.map_set, List.map_set, models.bufs, spliced, cut]
  count := models.count
  grants := models.grants

theorem bufs_set (models : Models s fs own a) {ps qs bs : List Nat} {f : Nat → Option Nat}
    (at_c : own[c]? = some ps) (now : qs.map f = bs.map some)
    (kept : ∀ q, q ∉ ps → f q = s.pool.chains.bufAt q) :
    (own.set c qs).map (List.map f) = (a.chains.set c bs).map (List.map some) := by
  have others : ∀ (d : Nat) rs, d ≠ c → own[d]? = some rs →
      rs.map f = rs.map s.pool.chains.bufAt := by
    intro d rs different at_d
    refine List.map_congr_left fun q member => kept q fun inside => ?_
    exact models.shared.disjoint (show (fs :: own)[d + 1]? = _ from at_d)
      (show (fs :: own)[c + 1]? = _ from at_c) (by omega) member inside
  rw [map_set_eq qs others, now, models.bufs, ← List.map_set]

theorem set (models : Models s fs own a) (inside : k < (a.chainAt c).length) (b : Nat) :
    ∃ s', (ChainOp.set c k b).run s = .ok () s' ∧ Models s' fs own (a.step (.set c k b)) := by
  obtain ⟨ps, head, at_c, head_c, linked, held⟩ := models.at_var (ChainSpec.chainAt_lt inside)
  have length := congrArg List.length held
  rw [List.length_map, List.length_map] at length
  obtain ⟨front, p, rest, rfl, rfl⟩ := split_at (length ▸ inside)
  obtain ⟨b', found⟩ := ChainMem.link_at front linked
  refine ⟨s.setLink p ⟨b, rest.head?⟩, ?_, ?_, ?_, models.count, models.grants⟩
  · rw [ChainOp.run, Exec.bind_ok _ (var_ok head_c), Exec.bind_ok _ (advance_past linked)]
    exact onChains_ok (NgxChainNode.set_ok found b)
  · have same : (s.setLink p ⟨b, rest.head?⟩).pool.next = s.pool.next := by
      funext q
      by_cases here : q = p
      · subst here
        rw [ChainPool.next_of_read (setLink_read_self found _), ChainPool.next_of_read found]
      · exact ChainPool.next_congr (setLink_read_ne here)
    have shared := models.shared
    rw [← same, ← Heap.size_write] at shared
    exact shared
  · have kept : ∀ q, q ≠ p →
        (s.setLink p ⟨b, rest.head?⟩).pool.chains.bufAt q = s.pool.chains.bufAt q :=
      fun q other => ChainMem.bufAt_congr (setLink_read_ne other)
    have now : (s.setLink p ⟨b, rest.head?⟩).pool.chains.bufAt p = some b :=
      ChainMem.bufAt_of_read (setLink_read_self found _)
    have distinct := linked.nodup
    rw [List.nodup_append, List.nodup_cons] at distinct
    have before := List.map_congr_left fun q member => kept q (distinct.2.2 q member p (by simp))
    have after := List.map_congr_left fun q member => kept q fun here =>
      distinct.2.1.1 (here ▸ member)
    have filled : (front ++ p :: rest).map (s.setLink p ⟨b, rest.head?⟩).pool.chains.bufAt =
        ((a.chainAt c).set front.length b).map some := by
      rw [List.map_set, ← held, List.map_append, List.map_cons, before, after, now]
      simp
    have whole := models.bufs_set at_c filled fun q outside =>
      kept q fun here => outside (by simp [here])
    obtain ⟨below, at_c⟩ := List.getElem?_eq_some_iff.mp at_c
    rwa [← at_c, List.set_getElem_self below] at whole

theorem free (models : Models s fs own a) (inside : c < a.chains.length) (k : Nat) :
    ∃ s' fs' own', (ChainOp.free c k).run s = .ok () s' ∧
      Models s' fs' own' (a.step (.free c k)) := by
  obtain ⟨ps, head, at_c, head_c, linked, held⟩ := models.at_var inside
  have length := congrArg List.length held
  rw [List.length_map, List.length_map] at length
  obtain ⟨front, back, rfl, dropped, taken⟩ : ∃ front back, ps = front ++ back ∧
      ps.drop k = back ∧ front.length = min k ps.length :=
    ⟨ps.take k, ps.drop k, by simp, rfl, List.length_take⟩
  have at_free : (fs :: own)[0]? = some fs := rfl
  have at_own : (fs :: own)[c + 1]? = some (front ++ back) := at_c
  have apart := models.shared.disjoint at_own at_free (Nat.succ_ne_zero c)
  obtain ⟨w', done, freed, size, answers⟩ :=
    NgxChain.free_front linked (models.shared.head_eq at_free rfl) apart
  have outside : ∀ {q}, q ∉ front → w'.next q = s.pool.next q := fun free =>
    ChainPool.next_congr (freed.kept _ free)
  have distinct : ∀ q ∈ back, q ∉ front := fun q member inside =>
    List.disjoint_of_nodup_append linked.nodup inside member
  refine ⟨⟨w', s.vars.set c back.head?⟩, front.reverse ++ fs, own.set c back, ?_, ?_, ?_, ?_,
    answers.trans models.grants⟩
  · have reached := NgxChain.advance_eq linked k
    rw [dropped] at reached
    have given : onPool (NgxChain.free head back.head?) s =
        .ok back.head? { s with pool := w' } := Exec.zoom_ok done
    rw [ChainOp.run, Exec.bind_ok _ (var_ok head_c), Exec.bind_ok _ (onChains_ok reached),
      Exec.bind_ok _ given]
    rfl
  · have rest : Linked w'.next back.head? back :=
      linked.behind.frame fun q member => outside (distinct q member)
    have moved : (front.reverse ++ fs ++ back).Perm (fs ++ (front ++ back)) := by
      calc (front.reverse ++ fs ++ back).Perm (fs ++ front.reverse ++ back) :=
            List.perm_append_comm.append_right back
        _ = fs ++ (front.reverse ++ back) := List.append_assoc ..
        List.Perm _ (fs ++ (front ++ back)) :=
            ((List.reverse_perm front).append_right back).append_left fs
    have exchanged := models.shared.exchange at_free at_own (Nat.succ_ne_zero c).symm freed.pool
      rest moved fun q _ other => outside fun inside => other (List.mem_append_left back inside)
    rw [← size] at exchanged
    exact exchanged
  · refine models.bufs_set at_c ?_ fun q other => ?_
    · rw [List.map_drop, ← held, ← List.map_drop, dropped]
      exact List.map_congr_left fun q member =>
        ChainMem.bufAt_congr (freed.kept q (distinct q member))
    · exact ChainMem.bufAt_congr (freed.kept q fun inside =>
        other (List.mem_append_left back inside))
  · have more : front.length + fs.length = a.free + min k (a.chainAt c).length := by
      rw [taken, length, models.count, Nat.add_comm]
    simpa [ChainSpec.step] using more

theorem link (models : Models s fs own a) (inside : k < (a.chainAt c).length)
    (there : d < a.chains.length) (apart : c ≠ d) :
    ∃ s' own', (ChainOp.link c k d).run s = .ok () s' ∧
      Models s' fs own' (a.step (.link c k d)) := by
  obtain ⟨ps, head, at_c, head_c, linked, held⟩ := models.at_var (ChainSpec.chainAt_lt inside)
  obtain ⟨qs, ch, at_d, head_d, -, -⟩ := models.at_var there
  have length := congrArg List.length held
  rw [List.length_map, List.length_map] at length
  obtain ⟨front, p, rest, rfl, rfl⟩ := split_at (length ▸ inside)
  obtain ⟨b, found⟩ := ChainMem.link_at front linked
  have next : NgxChainIterator.increment (some p) s.pool.chains = .ok rest.head? s.pool.chains :=
    NgxChainIterator.increment_eq front linked
  refine ⟨_, _, ?_, models.relink at_c at_d apart head_c head_d found⟩
  rw [ChainOp.run, Exec.bind_ok _ (var_ok head_c), Exec.bind_ok _ (var_ok head_d),
    Exec.bind_ok _ (advance_past linked), List.head?_cons, Exec.bind_ok _ (onChains_ok next),
    Exec.bind_ok _ (onChains_ok (NgxChainNode.link_ok found ch))]
  rfl

theorem append (models : Models s fs own a) (some_node : a.chainAt c ≠ [])
    (there : d < a.chains.length) (apart : c ≠ d) :
    ∃ s' own', (ChainOp.append c d).run s = .ok () s' ∧
      Models s' fs own' (a.step (.append c d)) := by
  obtain ⟨ps, head, at_c, head_c, linked, held⟩ :=
    models.at_var (ChainSpec.chainAt_lt (List.length_pos_iff.mpr some_node))
  obtain ⟨qs, ch, at_d, head_d, -, -⟩ := models.at_var there
  have length := congrArg List.length held
  rw [List.length_map, List.length_map] at length
  obtain ⟨front, p, rfl⟩ : ∃ front p, ps = front ++ [p] :=
    (List.eq_nil_or_concat' ps).resolve_left fun none => some_node (by
      rw [none, List.length_nil] at length
      exact List.length_eq_zero_iff.mp length.symm)
  obtain ⟨b, found⟩ := ChainMem.link_at front linked
  have last : NgxChain.tailOf head s.pool.chains = .ok (some p) s.pool.chains :=
    NgxChain.tailOf_last linked
  have appended : NgxChain.appendTo head ch s.pool.chains = .ok () { s.pool.chains with
      links := s.pool.chains.links.write p ⟨b, ch⟩ } := by
    have tail := NgxChainNode.link_ok found ch
    rw [NgxChain.appendTo, Exec.bind_ok _ last]
    exact tail
  have relinked := models.relink at_c at_d apart head_c head_d found
  have whole : front.length + 1 = (a.chainAt c).length := by simpa using length
  rw [whole, List.take_length, List.drop_length] at relinked
  refine ⟨_, _, ?_, relinked⟩
  rw [ChainOp.run, Exec.bind_ok _ (var_ok head_c), Exec.bind_ok _ (var_ok head_d),
    Exec.bind_ok _ (onChains_ok appended)]
  rfl

theorem bufs_concat (models : Models s fs own a) {f : Nat → Option Nat} (now : f p = some b)
    (kept : ∀ (c : Nat) ps, own[c]? = some ps → ∀ q ∈ ps, f q = s.pool.chains.bufAt q) :
    (own ++ [[p]]).map (List.map f) = (a.chains ++ [[b]]).map (List.map some) := by
  have old : own.map (List.map f) = own.map (List.map s.pool.chains.bufAt) := by
    refine List.map_congr_left fun ps member => List.map_congr_left fun q inside => ?_
    obtain ⟨c, at_c⟩ := List.mem_iff_getElem?.mp member
    exact kept c ps at_c q inside
  rw [List.map_append, List.map_append, old, models.bufs]
  simp [now]

theorem create_again (models : Models s (p :: fs) own a) (held : NgxChainT) (b : Nat) :
    ∃ s' own', (ChainOp.create held b).run s = .ok () s' ∧
      Models s' fs own' (a.step (.create held b)) := by
  have linked : Linked s.pool.next s.pool.chain (p :: fs) :=
    models.shared.head_eq (show ((p :: fs) :: own)[0]? = _ from rfl) rfl
  obtain ⟨b', found⟩ := ChainMem.link_at [] linked
  have spec : a.step (.create held b) =
      { a with chains := a.chains ++ [[b]], free := a.free - 1 } :=
    if_neg (by rw [← models.count]; exact Nat.succ_ne_zero _)
  let pool : ChainPool :=
    ⟨{ s.pool.chains with links := s.pool.chains.links.write p ⟨b, none⟩ }, fs.head?⟩
  have given : onPool (NgxPool.nodeOf held b) s = .ok p { s with pool } :=
    Exec.zoom_ok (NgxPool.nodeOf_again linked.head_eq.symm found held b)
  have kept : ∀ q, q ≠ p → pool.chains.links.read q = s.pool.chains.links.read q :=
    fun q other => Heap.read_write_ne other
  have here : pool.chains.links.read p = some ⟨b, none⟩ := Heap.read_write_self found
  have same : ∀ q, q ≠ p → pool.next q = s.pool.next q := fun q other =>
    ChainPool.next_congr (kept q other)
  have distinct := (List.nodup_cons.mp linked.nodup).1
  refine ⟨⟨pool, s.vars ++ [some p]⟩, own ++ [[p]], ?_, ?_⟩
  · rw [ChainOp.run, Exec.bind_ok _ given]
    rfl
  rw [spec]
  refine ⟨?_, ?_, ?_, models.grants⟩
  · have grown := models.shared.concat_empty
    have length : s.vars.length = own.length := Nat.succ.inj models.shared.count
    have rest : Linked pool.next fs.head? fs :=
      (Linked.behind (show Linked s.pool.next s.pool.chain ([p] ++ fs) from linked)).frame
        fun q member => same q fun at_p => distinct (at_p ▸ member)
    have alone : Linked pool.next (some p) [p] := .cons (ChainPool.next_of_read here) .nil
    have moved : (fs ++ [p]).Perm (p :: fs ++ []) := by
      rw [List.append_nil]
      exact List.perm_append_singleton p fs
    have exchanged := grown.exchange (show _ = some (p :: fs) from rfl)
      (show ((p :: fs) :: own ++ [[]])[own.length + 1]? = some [] by simp)
      (Nat.succ_ne_zero _).symm rest alone moved
      fun q other _ => same q fun at_p => other (by simp [at_p])
    have size : pool.chains.links.size = s.pool.chains.links.size := Heap.size_write
    have shared : Shared pool.next s.pool.chains.links.size (fs.head? :: (s.vars ++ [some p]))
        (fs :: (own ++ [[p]])) := by simpa [length] using exchanged
    rwa [← size] at shared
  · refine models.bufs_concat (ChainMem.bufAt_of_read here) fun c ps at_c q member => ?_
    have apart := models.shared.disjoint (show ((p :: fs) :: own)[c + 1]? = _ from at_c)
      (show ((p :: fs) :: own)[0]? = _ from rfl) (Nat.succ_ne_zero c)
    exact ChainMem.bufAt_congr (kept q fun at_p => apart member (by simp [at_p]))
  · rw [← models.count]
    rfl

theorem create_new (models : Models s [] own a) (held : NgxChainT) (b : Nat) :
    ∃ s' own', (ChainOp.create held b).attempt s = .ok () s' ∧
      Models s' [] own' (a.step (.create held b)) := by
  have linked : Linked s.pool.next s.pool.chain [] :=
    models.shared.head_eq (show ([] :: own)[0]? = _ from rfl) rfl
  have asked := NgxPool.nodeOf_new linked.head_eq.symm held b
  have plain := chain_eq b s.pool.chains
  have spec : a.step (.create held b) =
      if granted a.grants then { a with chains := a.chains ++ [[b]], grants := a.grants.tail }
      else { a with grants := a.grants.tail } := if_pos models.count.symm
  rw [spec, ← models.grants]
  cases answer : granted s.pool.chains.grants with
  | true =>
    rw [answer, if_pos rfl] at plain
    rw [ChainPool.onChains, Exec.zoom_ok plain] at asked
    let pool : ChainPool := { s.pool with chains := { s.pool.chains with
      links := s.pool.chains.links.alloc ⟨b, none⟩, grants := s.pool.chains.grants.tail } }
    have given : onPool (NgxPool.nodeOf held b) s = .ok s.pool.chains.links.size { s with pool } :=
      Exec.zoom_ok asked
    have here : pool.chains.links.read s.pool.chains.links.size = some ⟨b, none⟩ :=
      Heap.read_alloc_self
    have kept : ∀ q < s.pool.chains.links.size,
        pool.chains.links.read q = s.pool.chains.links.read q :=
      fun q below => Heap.read_alloc_of_ne (Nat.ne_of_lt below)
    refine ⟨⟨pool, s.vars ++ [some s.pool.chains.links.size]⟩,
      own ++ [[s.pool.chains.links.size]], Exec.catching_ok _ ?_, ?_, ?_, models.count, rfl⟩
    · rw [ChainOp.run, Exec.bind_ok _ given]
      rfl
    · have size : pool.chains.links.size = s.pool.chains.links.size + 1 := Heap.size_alloc
      have grown := models.shared.concat_cell (ChainPool.next_of_read here) fun q below =>
        ChainPool.next_congr (kept q below)
      rwa [← size] at grown
    · refine models.bufs_concat (ChainMem.bufAt_of_read here) fun c ps at_c q member => ?_
      exact ChainMem.bufAt_congr (kept q (models.shared.lt (show ([] :: own)[c + 1]? = _ from at_c)
        member))
  | false =>
    rw [answer, if_neg (by decide)] at plain
    rw [ChainPool.onChains, Exec.zoom_raised plain] at asked
    have thrown : onPool (NgxPool.nodeOf held b) s = .raised ⟨ngxError⟩ _ :=
      Exec.zoom_raised asked
    refine ⟨_, own, Exec.catching_raised _ (Exec.bind_raised _ thrown), ?_⟩
    exact ⟨models.shared, models.bufs, models.count, rfl⟩

theorem step (op : ChainOp) (models : Models s fs own a) (allowed : a.Allowed op) :
    ∃ s' fs' own', op.attempt s = .ok () s' ∧ Models s' fs' own' (a.step op) := by
  cases op with
  | create held b =>
    cases fs with
    | nil =>
      obtain ⟨s', own', done, models'⟩ := models.create_new held b
      exact ⟨s', [], own', done, models'⟩
    | cons p fs =>
      obtain ⟨s', own', done, models'⟩ := models.create_again held b
      exact ⟨s', fs, own', Exec.catching_ok _ done, models'⟩
  | set c k b =>
    obtain ⟨s', done, models'⟩ := models.set allowed b
    exact ⟨s', fs, own, done, models'⟩
  | link c k d =>
    obtain ⟨s', own', done, models'⟩ := models.link allowed.1 allowed.2.1 allowed.2.2
    exact ⟨s', fs, own', done, models'⟩
  | append c d =>
    obtain ⟨s', own', done, models'⟩ := models.append allowed.1 allowed.2.1 allowed.2.2
    exact ⟨s', fs, own', done, models'⟩
  | free c k =>
    obtain ⟨s', fs', own', done, models'⟩ := models.free allowed k
    exact ⟨s', fs', own', done, models'⟩

theorem shows (models : Models s fs own a) :
    s.Shows a ∧ s.pool.chains.links.size = a.size := by
  have length := congrArg List.length models.bufs
  rw [List.length_map, List.length_map] at length
  have vars : s.vars.length = own.length := Nat.succ.inj models.shared.count
  refine ⟨⟨vars.trans length, fun c head head_c => ?_, fs, own, models.shared, models.count⟩, ?_⟩
  · have inside := (List.getElem?_eq_some_iff.mp head_c).1
    obtain ⟨ps, head', at_c, at_var, linked, held⟩ :=
      models.at_var (vars.trans length ▸ inside)
    obtain rfl := Option.some.inj (at_var.symm.trans head_c)
    exact NgxChain.datas_eq linked held
  · have lengths : own.map List.length = a.chains.map List.length := by
      have all := congrArg (List.map List.length) models.bufs
      simpa [Function.comp_def] using all
    rw [← models.shared.length_sum, List.map_cons, List.sum_cons, models.count, lengths,
      ChainSpec.size, ChainSpec.inUse, Nat.add_comm]

theorem start (grants : List Bool) :
    Models ⟨⟨{ grants }, none⟩, []⟩ [] [] { grants } where
  shared := {
    count := rfl
    linked := fun i ps at_i => by
      cases i with
      | zero =>
        obtain rfl : [] = ps := by simpa using at_i
        exact ⟨none, rfl, .nil⟩
      | succ i => simp at at_i
    whole := .refl [] }
  bufs := rfl
  count := rfl
  grants := rfl

end Models

end ChainVars

/-- Whatever a program does with its chains, and whether or not the pool refuses memory: no
operation is undefined, only a creation throws, each chain shows the buffers that the
operations make of it, and the pool makes as many nodes as are in use at one time. -/
theorem chains_refine_sequences (grants : List Bool) {ops : List ChainOp}
    (allowed : Along ChainSpec.step ChainSpec.Allowed { grants } ops) :
    ∃ s, Exec.each ChainOp.attempt ops ⟨⟨{ grants }, none⟩, []⟩ = .ok () s ∧
      s.Shows (ops.foldl ChainSpec.step { grants }) ∧
      s.pool.chains.links.size = highest ChainSpec.step ChainSpec.inUse { grants } ops := by
  obtain ⟨s, done, fs, own, models⟩ := Exec.each_refines
    (R := fun s a => ∃ fs own, ChainVars.Models s fs own a)
    (fun s a op ⟨fs, own, models⟩ allowed => by
      obtain ⟨s', fs', own', done, models'⟩ := models.step op allowed
      exact ⟨s', done, fs', own', models'⟩)
    ⟨[], [], ChainVars.Models.start grants⟩ allowed
  obtain ⟨shows, size⟩ := models.shows
  have fits : ∀ a : ChainSpec, a.inUse ≤ a.size := fun a => Nat.le_add_right a.inUse a.free
  have most : (ops.foldl ChainSpec.step { grants }).size =
      max 0 (highest ChainSpec.step ChainSpec.inUse { grants } ops) :=
    foldl_eq_highest fits (fun a op allowed => ChainSpec.size_step op allowed) allowed
  exact ⟨s, done, shows, size.trans (most.trans (Nat.max_eq_right (Nat.zero_le _)))⟩

/-- Two nodes serve three chains; the pool refuses a third one while both are in use. -/
theorem chains_refine_sequences_again : ∃ s,
    Exec.each ChainOp.attempt [.create ⟨9, some 4⟩ 10, .create ⟨9, none⟩ 11,
      .create ⟨9, none⟩ 12, .append 0 1, .free 0 1, .create ⟨9, none⟩ 13, .link 2 0 0]
      ⟨⟨{ grants := [true, true, false] }, none⟩, []⟩ = .ok () s ∧
    s.Shows { chains := [[], [], [13, 11]] } ∧ s.pool.chains.links.size = 2 :=
  chains_refine_sequences [true, true, false] (by decide)

end NgxCpp
