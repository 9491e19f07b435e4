import NgxCpp.NgxChain

/-! `ngx_chain_add_copy`, and the chains of several owners that it appends to. -/

namespace NgxCpp
open Foundation

def LinkView.link (v : LinkView) : Nat × Nat := (v.addr, v.buf)

def LinkView.Apart (ts ins : List LinkView) : Prop :=
  ∀ v ∈ ts, v.addr ∉ ins.map LinkView.addr

/-- `ngx_chain_add_copy` in a pool that does not run dry: new links to the same buffers
at the tail of the chain, and no other change. -/
def AddsCopies (addCopy : Option Nat → Nat → ChainMem → Int × Option Nat × ChainMem) : Prop :=
  ∀ m target input ts ins, m.Generous → Chained m target ts → Chained m (some input) ins →
    LinkView.Apart ts ins →
    ∃ news, Chained (addCopy target input m).2.2 (addCopy target input m).2.1 (ts ++ news) ∧
      news.map LinkView.buf = ins.map LinkView.buf ∧
      (∀ v ∈ news, m.links.read v.addr = none) ∧
      (∀ p link, m.links.read p = some link → p ∉ ts.map LinkView.addr →
        (addCopy target input m).2.2.links.read p = some link) ∧
      ∀ b, (addCopy target input m).2.2.bufs.read b = m.bufs.read b

structure Bodies (m : ChainMem) (heads : Nat → Option Nat) (bodies : Nat → List LinkView) :
    Prop where
  chained : ∀ q, Chained m (heads q) (bodies q)
  apart : ∀ q q', q ≠ q' → LinkView.Apart (bodies q) (bodies q')

namespace Bodies

variable {m m' : ChainMem} {heads : Nat → Option Nat} {bodies : Nat → List LinkView}

theorem chained_frame {head : Option Nat} {views : List LinkView} (chained : Chained m head views)
    (links : ∀ p link, m.links.read p = some link → p ∈ views.map LinkView.addr →
      m'.links.read p = some link)
    (bufs : ∀ b, m'.bufs.read b = m.bufs.read b) : Chained m' head views := by
  constructor
  · refine chained.linked.frame fun p member => ?_
    obtain ⟨v, inside, rfl⟩ := List.mem_map.mp member
    obtain ⟨next, found, -⟩ := chained.held v inside
    rw [ChainMem.nextLink, ChainMem.nextLink, found, links _ _ found member]
  · intro v inside
    obtain ⟨next, found, value⟩ := chained.held v inside
    exact ⟨next, links _ _ found (List.mem_map_of_mem inside), (bufs _).trans value⟩

theorem drop (held : Bodies m heads bodies) (q : Nat) :
    Bodies m (Function.update heads q none) (Function.update bodies q []) := by
  constructor
  · intro q'
    by_cases same : q' = q
    · subst same
      simpa using ⟨.nil, by simp⟩
    · rw [Function.update_of_ne same, Function.update_of_ne same]
      exact held.chained q'
  · intro q1 q2 different v member
    by_cases first : q1 = q
    · subst first
      simp at member
    · rw [Function.update_of_ne first] at member
      by_cases second : q2 = q
      · subst second
        simp
      · rw [Function.update_of_ne second]
        exact held.apart q1 q2 different v member

theorem keep (held : Bodies m heads bodies)
    (keeps : ∀ q views, Chained m (heads q) views → ∃ views', Chained m' (heads q) views' ∧
      views'.map LinkView.link = views.map LinkView.link) :
    ∃ bodies', Bodies m' heads bodies' ∧
      ∀ q, (bodies' q).map LinkView.link = (bodies q).map LinkView.link := by
  choose bodies' chained same using fun q => keeps q _ (held.chained q)
  have addrs : ∀ q, (bodies' q).map LinkView.addr = (bodies q).map LinkView.addr := by
    intro q
    have first := congrArg (List.map Prod.fst) (same q)
    rwa [List.map_map, List.map_map] at first
  refine ⟨bodies', ⟨chained, fun q q' different v member => ?_⟩, same⟩
  have inside : v.addr ∈ (bodies q).map LinkView.addr :=
    addrs q ▸ List.mem_map_of_mem member
  obtain ⟨u, isLink, at_v⟩ := List.mem_map.mp inside
  rw [addrs q', ← at_v]
  exact held.apart q q' different u isLink

theorem copy {addCopy : Option Nat → Nat → ChainMem → Int × Option Nat × ChainMem}
    (copies : AddsCopies addCopy) (held : Bodies m heads bodies) (generous : m.Generous)
    (pr : Nat) {input : Nat} {ins : List LinkView} (passed : Chained m (some input) ins)
    (apart : LinkView.Apart (bodies pr) ins) :
    ∃ bodies', Bodies (addCopy (heads pr) input m).2.2
        (Function.update heads pr (addCopy (heads pr) input m).2.1) bodies' ∧
      (bodies' pr).map LinkView.buf = (bodies pr).map LinkView.buf ++ ins.map LinkView.buf ∧
      ∀ q, q ≠ pr → bodies' q = bodies q := by
  obtain ⟨news, chained, same, fresh, links, bufs⟩ :=
    copies m (heads pr) input (bodies pr) ins generous (held.chained pr) passed apart
  have old : ∀ q, ∀ v ∈ bodies q, v.addr ∉ news.map LinkView.addr := by
    intro q v member inside
    obtain ⟨u, isNew, at_v⟩ := List.mem_map.mp inside
    obtain ⟨next, found, -⟩ := (held.chained q).held v member
    rw [← at_v, fresh u isNew] at found
    exact absurd found (by simp)
  refine ⟨Function.update bodies pr (bodies pr ++ news), ⟨?_, ?_⟩, ?_, fun q other =>
    Function.update_of_ne other _ _⟩
  · intro q
    by_cases here : q = pr
    · subst here
      simpa using chained
    · rw [Function.update_of_ne here, Function.update_of_ne here]
      refine chained_frame (held.chained q) (fun p link found member => links p link found ?_) bufs
      obtain ⟨v, inside, rfl⟩ := List.mem_map.mp member
      exact held.apart q pr here v inside
  · intro q q' different v member
    by_cases here : q = pr
    · subst here
      rw [Function.update_self] at member
      rw [Function.update_of_ne different.symm]
      rcases List.mem_append.mp member with inherited | isNew
      · exact held.apart _ _ different v inherited
      · intro inside
        obtain ⟨u, isLink, at_v⟩ := List.mem_map.mp inside
        exact old q' u isLink (at_v ▸ List.mem_map_of_mem isNew)
    · rw [Function.update_of_ne here] at member
      by_cases there : q' = pr
      · subst there
        rw [Function.update_self, List.map_append, List.mem_append, not_or]
        exact ⟨held.apart _ _ different v member, old q v member⟩
      · rw [Function.update_of_ne there]
        exact held.apart _ _ different v member
  · rw [Function.update_self, List.map_append, same]

end Bodies

/-- Link a new link for a buffer behind the one at `tail`, which is the last of the chain
at `head`. -/
def addLink (b : Nat) (head : Option Nat) (tail : Option (Nat × Nat)) (m : ChainMem) :
    Option Nat × ChainMem :=
  match tail with
  | none => (some m.links.size, { m with links := m.links.alloc ⟨b, none⟩ })
  | some (last, buf) =>
    (head, { m with
      links := (m.links.alloc ⟨b, none⟩).write last ⟨buf, some m.links.size⟩ })

/-- The loop of `ngx_chain_add_copy`, which ends early when the pool runs dry. -/
def addLinks : List Nat → Option Nat → Option (Nat × Nat) → ChainMem → Int × Option Nat × ChainMem
  | [], head, _, m => (ngxOk, head, m)
  | b :: bs, head, tail, m =>
    match chainPalloc m with
    | .ok true m1 =>
      addLinks bs (addLink b head tail m1).1 (some (m1.links.size, b)) (addLink b head tail m1).2
    | _ => (ngxError, head, m)

/-- `ngx_chain_add_copy`, of another chain than the one it adds to. -/
def ngxChainAddCopy (target : Option Nat) (input : Nat) (m : ChainMem) :
    Int × Option Nat × ChainMem :=
  let links := fun head => (m.collect m.links.size head).getD []
  addLinks ((links (some input)).map LinkView.buf) target
    ((links target).getLast?.map LinkView.link) m

section AddLinks

variable {m : ChainMem} {head : Option Nat} {views : List LinkView} {b : Nat} {value : NgxBufT}

theorem addLink_chained (chained : Chained m head views) (found : m.bufs.read b = some value) :
    Chained (addLink b head (views.getLast?.map LinkView.link) m).2
      (addLink b head (views.getLast?.map LinkView.link) m).1
      (views ++ [⟨m.links.size, b, value⟩]) := by
  rcases List.eq_nil_or_concat' views with rfl | ⟨front, v, rfl⟩
  · have made : (m.links.alloc ⟨b, none⟩).read m.links.size = some ⟨b, none⟩ :=
      Heap.read_alloc_self
    refine ⟨.cons ?_ .nil, fun u member => ?_⟩
    · exact (congrArg (Option.map NgxChainT.next) made)
    · obtain rfl := List.mem_singleton.mp member
      exact ⟨none, made, found⟩
  · obtain ⟨next, -, at_v⟩ := chained.held v (by simp)
    have grown : Chained (addLink b head (some v.link) m).2 head _ :=
      chained.append_link rfl (fun _ _ => rfl) at_v found
    simpa [addLink, LinkView.link] using grown

theorem addLink_links (chained : Chained m head views) {p : Nat} {link : NgxChainT}
    (found : m.links.read p = some link) :
    (∃ link', (addLink b head (views.getLast?.map LinkView.link) m).2.links.read p =
      some link') ∧
    (p ∉ views.map LinkView.addr →
      (addLink b head (views.getLast?.map LinkView.link) m).2.links.read p = some link) := by
  rcases List.eq_nil_or_concat' views with rfl | ⟨front, v, rfl⟩
  · have kept : (m.links.alloc ⟨b, none⟩).read p = some link := Heap.read_alloc found
    exact ⟨⟨link, kept⟩, fun _ => kept⟩
  · have kept : (m.links.alloc ⟨b, none⟩).read p = some link := Heap.read_alloc found
    rw [List.getLast?_concat]
    change (∃ link', (Heap.write _ v.addr _).read p = some link') ∧
      (_ → (Heap.write _ v.addr _).read p = some link)
    by_cases last : p = v.addr
    · subst last
      exact ⟨⟨_, Heap.read_write_self kept⟩, fun outside => absurd (by simp) outside⟩
    · have same : ∀ cell, (Heap.write (m.links.alloc ⟨b, none⟩) v.addr cell).read p = some link :=
        fun cell => (Heap.read_write_ne last).trans kept
      exact ⟨⟨link, same _⟩, fun _ => same _⟩

theorem addLinks_copies {bs : List Nat} (generous : m.Generous) (chained : Chained m head views)
    (held : ∀ b ∈ bs, ∃ value, m.bufs.read b = some value) :
    ∃ news, Chained (addLinks bs head (views.getLast?.map LinkView.link) m).2.2
        (addLinks bs head (views.getLast?.map LinkView.link) m).2.1 (views ++ news) ∧
      news.map LinkView.buf = bs ∧ (∀ v ∈ news, m.links.read v.addr = none) ∧
      (∀ p link, m.links.read p = some link → p ∉ views.map LinkView.addr →
        (addLinks bs head (views.getLast?.map LinkView.link) m).2.2.links.read p = some link) ∧
      ∀ b, (addLinks bs head (views.getLast?.map LinkView.link) m).2.2.bufs.read b =
        m.bufs.read b := by
  induction bs generalizing m head views with
  | nil => exact ⟨[], by simpa [addLinks] using chained, rfl, by simp, fun _ _ found _ => found,
      fun _ => rfl⟩
  | cons b bs ih =>
    obtain ⟨value, at_b⟩ := held b (by simp)
    let m1 : ChainMem := { m with grants := m.grants.tail }
    have granted : chainPalloc m = .ok true m1 := chainPalloc_generous generous
    have here : Chained m1 head views := ⟨chained.linked, chained.held⟩
    let m2 := (addLink b head (views.getLast?.map LinkView.link) m1).2
    have grown : Chained m2 _ (views ++ [⟨m1.links.size, b, value⟩]) :=
      addLink_chained here at_b
    have same : ∀ b, m2.bufs.read b = m.bufs.read b := by
      intro b
      unfold m2 addLink
      split <;> rfl
    have answers : m2.Generous := by
      intro answer member
      refine generous.tail answer ?_
      have kept : m2.grants = m.grants.tail := by
        unfold m2 addLink
        split <;> rfl
      rwa [kept] at member
    obtain ⟨news, final, bufs, fresh, links, values⟩ := ih answers grown fun b' member => by
      obtain ⟨value', found⟩ := held b' (List.mem_cons_of_mem _ member)
      exact ⟨value', (same b').trans found⟩
    rw [List.getLast?_concat] at final links values
    have loop : addLinks (b :: bs) head (views.getLast?.map LinkView.link) m =
        addLinks bs (addLink b head (views.getLast?.map LinkView.link) m1).1
          (some (m1.links.size, b)) m2 := by
      simp only [addLinks, granted]
      rfl
    rw [loop]
    refine ⟨⟨m1.links.size, b, value⟩ :: news, ?_, by simp [bufs], ?_, ?_, fun b' =>
      (values b').trans (same b')⟩
    · rw [List.append_cons]
      exact final
    · intro v member
      by_contra old
      obtain ⟨link, found⟩ := Option.ne_none_iff_exists'.mp old
      rcases List.mem_cons.mp member with rfl | later
      · exact absurd (Heap.read_lt found) (Nat.lt_irrefl _)
      · obtain ⟨link', kept⟩ := (addLink_links (b := b) here found).1
        exact absurd (kept.symm.trans (fresh v later)) (by simp)
    · intro p link found outside
      refine links p link ((addLink_links here found).2 outside) ?_
      have old : p ≠ m1.links.size := Nat.ne_of_lt (Heap.read_lt found)
      simpa [old] using outside

end AddLinks

theorem ngxChainAddCopy_adds : AddsCopies ngxChainAddCopy := by
  intro m target input ts ins generous chained passed apart
  unfold ngxChainAddCopy
  dsimp only
  rw [passed.collect passed.length_le, chained.collect chained.length_le]
  simp only [Option.getD_some]
  refine addLinks_copies generous chained fun b member => ?_
  obtain ⟨v, inside, rfl⟩ := List.mem_map.mp member
  obtain ⟨next, -, value⟩ := passed.held v inside
  exact ⟨_, value⟩

end NgxCpp
