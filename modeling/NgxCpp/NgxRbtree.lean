import NgxCpp.Exception
import NgxCpp.Foundation.Runs
import NgxCpp.Foundation.SearchTree

/-! `NgxRbtree`: a tree of the `ngx_rbtree_node_t` members of its elements, whose leaves are
all one sentinel node. -/

namespace NgxCpp
open Foundation SearchTree

/-- `ngx_rbtree_node_t`; keys are unsigned words. -/
structure NgxRbtreeNodeT where
  key : UInt64
  left : Nat
  right : Nat
deriving Repr, DecidableEq

structure NgxRbtreeT where
  root : Nat
  sentinel : Nat
deriving Repr, DecidableEq

structure RbtreeMem where
  tree : NgxRbtreeT
  nodes : Nat → Option NgxRbtreeNodeT

namespace RbtreeMem

def links (m : RbtreeMem) (p : Nat) : Option (Nat × Nat) :=
  (m.nodes p).map fun node => (node.left, node.right)

def key (m : RbtreeMem) (p : Nat) : UInt64 := ((m.nodes p).map NgxRbtreeNodeT.key).getD 0

def KeyLe (m : RbtreeMem) (p q : Nat) : Prop := m.key p ≤ m.key q

instance (m : RbtreeMem) : IsTrans Nat m.KeyLe := ⟨fun _ _ _ => UInt64.le_trans⟩

/-- The nodes of the tree are a finite binary search tree, whatever the sentinel holds. -/
structure Searches (m : RbtreeMem) (t : BinaryTree Nat) : Prop where
  shape : Shape m.links m.tree.sentinel m.tree.root t
  nodup : (inorder t).Nodup
  ordered : Ordered m.KeyLe t

/-- A memory where the tree of `m` stands unchanged. -/
structure Unchanged (m : RbtreeMem) (ps : List Nat) (m' : RbtreeMem) : Prop where
  tree : m'.tree = m.tree
  nodes : ∀ p ∈ ps, m'.nodes p = m.nodes p

end RbtreeMem

def readNode (p : Nat) : Ngx RbtreeMem NgxRbtreeNodeT := Exec.deref fun m => m.nodes p

/-- `ngx_rbtree_min`: to the left until the sentinel comes next. -/
def ngxRbtreeMin : (fuel node sentinel : Nat) → Ngx RbtreeMem Nat
  | 0, _, _ => Exec.exhausted
  | fuel + 1, node, sentinel => do
    let n ← readNode node
    if n.left == sentinel then pure node else ngxRbtreeMin fuel n.left sentinel

namespace NgxRbtree

def of (offset v : Nat) : Nat := v + offset

def empty : Ngx RbtreeMem Bool := Exec.gets fun m => m.tree.root == m.tree.sentinel

/-- The node that `min_key` and `min` find; a failed assertion ends the process. -/
def minNode (fuel : Nat) : Ngx RbtreeMem Nat := do
  if ← empty then Exec.undefined
  else
    let t ← Exec.gets RbtreeMem.tree
    ngxRbtreeMin fuel t.root t.sentinel

def minKey (fuel : Nat) : Ngx RbtreeMem UInt64 := do
  let p ← minNode fuel
  let node ← readNode p
  pure node.key

def min (offset fuel : Nat) : Ngx RbtreeMem Nat := do
  let p ← minNode fuel
  pure (p - offset)

section Traversal

variable {σ : Type} (mem : σ → RbtreeMem) (f : Nat → Ngx σ Unit)

/-- `do_traverse`; the copies of `f` that it passes on have no state of their own. -/
def doTraverse : (fuel p : Nat) → Ngx σ Unit
  | 0, _ => Exec.exhausted
  | fuel + 1, p => do
    let t ← Exec.gets fun s => (mem s).tree
    if p == t.sentinel then pure ()
    else
      let node ← Exec.view mem (readNode p)
      doTraverse fuel node.left
      f p
      let node ← Exec.view mem (readNode p)
      doTraverse fuel node.right

def traverse (fuel : Nat) : Ngx σ Unit := do
  let t ← Exec.gets fun s => (mem s).tree
  doTraverse mem f fuel t.root

def KeepsTree (m : RbtreeMem) (ps : List Nat) : Prop :=
  ∀ p ∈ ps, ∀ s s', m.Unchanged ps (mem s) → f p s = .ok () s' → m.Unchanged ps (mem s')

end Traversal

/-- The nodes `ps` are those of the tree, each once and by their keys, and what the tree
calls, with fuel for all of them, agrees with that. -/
structure Visits (m : RbtreeMem) (ps : List Nat) : Prop where
  traverse : ∀ {σ : Type} (mem : σ → RbtreeMem) (f : Nat → Ngx σ Unit) (s : σ), mem s = m →
    KeepsTree mem f m ps → ∀ fuel, ps.length < fuel → traverse mem f fuel s = Exec.each f ps s
  complete : ∀ p, p ∈ ps ↔ Node m.links m.tree.sentinel m.tree.root p
  once : ps.Nodup
  sorted : ps.Pairwise m.KeyLe
  sentinel : m.tree.sentinel ∉ ps
  empty : empty m = .ok ps.isEmpty m
  minKey : ∀ p ∈ ps.head?, ∀ fuel, ps.length < fuel → minKey fuel m = .ok (m.key p) m
  min : ∀ offset v, of offset v ∈ ps.head? → ∀ fuel, ps.length < fuel →
    min offset fuel m = .ok v m

end NgxRbtree

section Trees

variable {m : RbtreeMem} {t : BinaryTree Nat} {p q l r leaf : Nat}

theorem readNode_ok {node : NgxRbtreeNodeT} (found : m.nodes p = some node) :
    readNode p m = .ok node m :=
  Exec.deref_some found

theorem RbtreeMem.links_eq_some (found : m.links p = some (l, r)) :
    ∃ key, m.nodes p = some ⟨key, l, r⟩ := by
  obtain ⟨⟨key, left, right⟩, read, same⟩ := Option.map_eq_some_iff.mp found
  obtain ⟨rfl, rfl⟩ := Prod.mk.inj same
  exact ⟨key, read⟩

theorem ngxRbtreeMin_eq (shape : Shape m.links leaf p t) (first : (inorder t).head? = some q)
    (fuel : Nat) (enough : t.height < fuel) : ngxRbtreeMin fuel p leaf m = .ok q m := by
  induction shape generalizing fuel with
  | nil => cases first
  | @node p l r left right apart found shapeLeft shapeRight ihLeft ihRight =>
    obtain ⟨fuel, rfl⟩ : ∃ k, fuel = k + 1 := Nat.exists_eq_add_one_of_ne_zero (by omega)
    obtain ⟨key, read⟩ := RbtreeMem.links_eq_some found
    simp only [BinaryTree.height] at enough
    rw [ngxRbtreeMin, Exec.bind_ok _ (readNode_ok read)]
    by_cases last : l = leaf
    · obtain rfl := shapeLeft.eq_leaf_iff.mp last
      obtain rfl := Option.some.inj first
      rw [if_pos (by simp [last])]
      rfl
    · have some : inorder left ≠ [] := fun none =>
        last (shapeLeft.eq_leaf_iff.mpr (inorder_eq_nil.mp none))
      rw [if_neg (by simp [last])]
      rw [inorder_node, List.head?_append_of_ne_nil _ some] at first
      exact ihLeft first fuel (by omega)

end Trees

namespace NgxRbtree

section Recursion

variable {σ : Type} {mem : σ → RbtreeMem} {f : Nat → Ngx σ Unit} {m : RbtreeMem} {s s' : σ}
  {t : BinaryTree Nat} {p : Nat} {ps qs : List Nat}

theorem KeepsTree.each (keeps : KeepsTree mem f m ps) (inside : qs ⊆ ps)
    (same : m.Unchanged ps (mem s)) (done : Exec.each f qs s = .ok () s') :
    m.Unchanged ps (mem s') :=
  Exec.each_invariant (fun _ s => m.Unchanged ps (mem s)) same
    (fun _ p s s' member same called => keeps p (inside member) s s' same called) done

theorem doTraverse_eq (keeps : KeepsTree mem f m ps)
    (shape : Shape m.links m.tree.sentinel p t) (inside : inorder t ⊆ ps)
    (same : m.Unchanged ps (mem s)) (fuel : Nat) (enough : t.height < fuel) :
    doTraverse mem f fuel p s = Exec.each f (inorder t) s := by
  induction shape generalizing s fuel with
  | nil =>
    obtain ⟨fuel, rfl⟩ : ∃ k, fuel = k + 1 := Nat.exists_eq_add_one_of_ne_zero (by omega)
    rw [doTraverse, Exec.bind_ok _ (Exec.gets_apply _ s), same.tree, if_pos (by simp)]
    rfl
  | @node p l r left right apart found shapeLeft shapeRight ihLeft ihRight =>
    obtain ⟨fuel, rfl⟩ : ∃ k, fuel = k + 1 := Nat.exists_eq_add_one_of_ne_zero (by omega)
    simp only [BinaryTree.height] at enough
    obtain ⟨key, read⟩ := RbtreeMem.links_eq_some found
    rw [inorder_node, List.append_subset, List.cons_subset] at inside
    obtain ⟨inLeft, here, inRight⟩ := inside
    -- the node reads the same before and after each call of `f`
    have reads : ∀ {s}, m.Unchanged ps (mem s) →
        Exec.view mem (readNode p) s = .ok ⟨key, l, r⟩ s := fun same =>
      Exec.view_ok (readNode_ok ((same.nodes p here).trans read))
    rw [doTraverse, Exec.bind_ok _ (Exec.gets_apply _ s), same.tree, if_neg (by simp [apart]),
      Exec.bind_ok _ (reads same), inorder_node, Exec.each_append,
      Exec.bind_congr_left _ (ihLeft inLeft same fuel (by omega))]
    refine Exec.bind_congr fun _ mid visited => Exec.bind_congr fun _ after called => ?_
    have later := keeps p here mid after (keeps.each inLeft same visited) called
    rw [Exec.bind_ok _ (reads later)]
    exact ihRight inRight later fuel (by omega)

end Recursion

section Results

variable {m : RbtreeMem} {t : BinaryTree Nat} {p : Nat}

theorem traverse_eq {σ : Type} {mem : σ → RbtreeMem} {f : Nat → Ngx σ Unit} {s : σ}
    (searches : (mem s).Searches t) (keeps : KeepsTree mem f (mem s) (inorder t)) (fuel : Nat)
    (enough : t.height < fuel) : traverse mem f fuel s = Exec.each f (inorder t) s := by
  rw [traverse, Exec.bind_ok _ (Exec.gets_apply _ s)]
  exact doTraverse_eq keeps searches.shape (List.Subset.refl _) ⟨rfl, fun _ _ => rfl⟩ fuel enough

theorem empty_eq (searches : m.Searches t) : empty m = .ok (inorder t).isEmpty m := by
  have same : (m.tree.root == m.tree.sentinel) = (inorder t).isEmpty := by
    rw [Bool.eq_iff_iff, beq_iff_eq, List.isEmpty_iff, searches.shape.eq_leaf_iff, inorder_eq_nil]
  rw [empty, Exec.gets_apply, same]

theorem minNode_eq (searches : m.Searches t) (first : (inorder t).head? = some p) (fuel : Nat)
    (enough : t.height < fuel) : minNode fuel m = .ok p m := by
  have some : (inorder t).isEmpty = false := by
    rw [List.isEmpty_eq_false_iff]
    rintro none
    rw [none] at first
    cases first
  rw [minNode, Exec.bind_ok _ (empty_eq searches), some, if_neg (by simp),
    Exec.bind_ok _ (Exec.gets_apply _ m)]
  exact ngxRbtreeMin_eq searches.shape first fuel enough

/-- `traverse` visits the nodes of a search tree once each and by their keys, and `empty`, `min`
and `min_key` agree with it. -/
theorem traversal_sorted (searches : m.Searches t) : Visits m (inorder t) := by
  have bound : t.height ≤ (inorder t).length := by
    rw [length_inorder]
    exact t.height_le_numNodes
  refine ⟨?_, fun p => searches.shape.mem_iff, searches.nodup, searches.ordered.pairwise,
    searches.shape.leaf_not_mem, empty_eq searches, ?_, ?_⟩
  · rintro σ mem f s rfl keeps fuel enough
    exact traverse_eq searches keeps fuel (Nat.lt_of_le_of_lt bound enough)
  · intro p first fuel enough
    have found := minNode_eq searches first fuel (Nat.lt_of_le_of_lt bound enough)
    obtain ⟨l, r, linked⟩ := searches.shape.links_some (List.mem_of_mem_head? first)
    obtain ⟨key, read⟩ := RbtreeMem.links_eq_some linked
    rw [minKey, Exec.bind_ok _ found, Exec.bind_ok _ (readNode_ok read), RbtreeMem.key, read]
    rfl
  · intro offset v first fuel enough
    have found := minNode_eq searches first fuel (Nat.lt_of_le_of_lt bound enough)
    rw [min, Exec.bind_ok _ found, of, Nat.add_sub_cancel]
    rfl

/-- Three nodes, two of them with one key, and a sentinel that links to the root. -/
private def threeNodes : RbtreeMem where
  tree := ⟨16, 8⟩
  nodes := fun
    | 8 => some ⟨7, 16, 16⟩
    | 16 => some ⟨5, 24, 32⟩
    | 24 => some ⟨5, 8, 8⟩
    | 32 => some ⟨9, 8, 8⟩
    | _ => none

theorem traversal_sorted_three : Visits threeNodes [24, 16, 32] := by
  have leaf : Shape threeNodes.links 8 8 .nil := .nil
  have left : Shape threeNodes.links 8 24 (.node 24 .nil .nil) := .node (by decide) rfl leaf leaf
  have right : Shape threeNodes.links 8 32 (.node 32 .nil .nil) := .node (by decide) rfl leaf leaf
  have searches : threeNodes.Searches (.node 16 (.node 24 .nil .nil) (.node 32 .nil .nil)) :=
    ⟨.node (by decide) rfl left right, by decide, by
      simp only [Ordered, RbtreeMem.KeyLe, inorder_node, inorder_nil]
      decide⟩
  exact traversal_sorted searches

end Results

end NgxRbtree

end NgxCpp
