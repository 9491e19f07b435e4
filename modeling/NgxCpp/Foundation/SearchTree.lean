import Mathlib.Data.List.Nodup
import Mathlib.Data.Tree.Basic
import Mathlib.Logic.Relation

/-! Binary search trees, and how they stand in a memory: a node is an address with two links,
and one address, the leaf, stands for every empty subtree. -/

namespace Foundation.SearchTree

section Trees

variable {α : Type} {r : α → α → Prop} {t : BinaryTree α}

def inorder : BinaryTree α → List α
  | .nil => []
  | .node a left right => inorder left ++ a :: inorder right

@[simp] theorem inorder_nil : inorder (.nil : BinaryTree α) = [] := rfl

@[simp] theorem inorder_node (a : α) (left right : BinaryTree α) :
    inorder (.node a left right) = inorder left ++ a :: inorder right := rfl

theorem length_inorder (t : BinaryTree α) : (inorder t).length = t.numNodes := by
  induction t with
  | nil => rfl
  | node a left right ihLeft ihRight =>
    simp only [inorder_node, List.length_append, List.length_cons, BinaryTree.numNodes]
    omega

theorem inorder_eq_nil : inorder t = [] ↔ t = .nil := by
  cases t <;> simp

/-- What stands in a left subtree comes before its root, and that before the right subtree. -/
def Ordered (r : α → α → Prop) : BinaryTree α → Prop
  | .nil => True
  | .node a left right => Ordered r left ∧ Ordered r right ∧ (∀ b ∈ inorder left, r b a) ∧
      ∀ b ∈ inorder right, r a b

theorem Ordered.pairwise [IsTrans α r] (ordered : Ordered r t) : (inorder t).Pairwise r := by
  induction t with
  | nil => exact List.Pairwise.nil
  | node a left right ihLeft ihRight =>
    obtain ⟨sortedLeft, sortedRight, before, after⟩ := ordered
    refine List.pairwise_append.mpr ⟨ihLeft sortedLeft,
      List.pairwise_cons.mpr ⟨after, ihRight sortedRight⟩, fun b inLeft c behind => ?_⟩
    obtain rfl | inRight := List.mem_cons.mp behind
    · exact before b inLeft
    · exact IsTrans.trans b a c (before b inLeft) (after c inRight)

end Trees

section Memory

variable {ν : Type} {links : ν → Option (ν × ν)} {leaf root p q : ν} {t : BinaryTree ν}

inductive Shape (links : ν → Option (ν × ν)) (leaf : ν) : ν → BinaryTree ν → Prop where
  | nil : Shape links leaf leaf .nil
  | node {p l r : ν} {left right : BinaryTree ν} : p ≠ leaf → links p = some (l, r) →
      Shape links leaf l left → Shape links leaf r right → Shape links leaf p (.node p left right)

def Child (links : ν → Option (ν × ν)) (leaf p q : ν) : Prop :=
  q ≠ leaf ∧ ∃ l r, links p = some (l, r) ∧ (q = l ∨ q = r)

def Node (links : ν → Option (ν × ν)) (leaf root p : ν) : Prop :=
  root ≠ leaf ∧ Relation.ReflTransGen (Child links leaf) root p

namespace Shape

theorem eq_leaf_iff (shape : Shape links leaf p t) : p = leaf ↔ t = .nil := by
  cases shape <;> simp_all

theorem leaf_not_mem (shape : Shape links leaf p t) : leaf ∉ inorder t := by
  induction shape with
  | nil => simp
  | node apart _ _ _ ihLeft ihRight => simp [ihLeft, ihRight, apart.symm]

theorem root_mem (shape : Shape links leaf p t) (some : p ≠ leaf) : p ∈ inorder t := by
  cases shape with
  | nil => exact absurd rfl some
  | node => simp

theorem links_some (shape : Shape links leaf root t) (member : p ∈ inorder t) :
    ∃ l r, links p = some (l, r) := by
  induction shape with
  | nil => cases member
  | @node a l r left right apart found _ _ ihLeft ihRight =>
    rw [inorder_node, List.mem_append, List.mem_cons] at member
    obtain inLeft | rfl | inRight := member
    · exact ihLeft inLeft
    · exact ⟨l, r, found⟩
    · exact ihRight inRight

theorem child_mem (shape : Shape links leaf root t) (member : p ∈ inorder t)
    (child : Child links leaf p q) : q ∈ inorder t := by
  induction shape with
  | nil => cases member
  | @node a l r left right apart found shapeLeft shapeRight ihLeft ihRight =>
    rw [inorder_node, List.mem_append, List.mem_cons] at member ⊢
    obtain inLeft | rfl | inRight := member
    · exact .inl (ihLeft inLeft)
    · obtain ⟨some, l', r', found', same⟩ := child
      obtain ⟨rfl, rfl⟩ := Prod.mk.inj (Option.some.inj (found.symm.trans found'))
      obtain rfl | rfl := same
      · exact .inl (shapeLeft.root_mem some)
      · exact .inr (.inr (shapeRight.root_mem some))
    · exact .inr (.inr (ihRight inRight))

theorem mem_iff (shape : Shape links leaf root t) :
    p ∈ inorder t ↔ Node links leaf root p := by
  constructor
  · intro member
    induction shape with
    | nil => cases member
    | @node a l r left right apart found shapeLeft shapeRight ihLeft ihRight =>
      refine ⟨apart, ?_⟩
      rw [inorder_node, List.mem_append, List.mem_cons] at member
      obtain inLeft | rfl | inRight := member
      · obtain ⟨some, path⟩ := ihLeft inLeft
        exact .head ⟨some, l, r, found, .inl rfl⟩ path
      · exact .refl
      · obtain ⟨some, path⟩ := ihRight inRight
        exact .head ⟨some, l, r, found, .inr rfl⟩ path
  · rintro ⟨some, path⟩
    induction path with
    | refl => exact shape.root_mem some
    | tail _ child ih => exact shape.child_mem ih child

end Shape

end Memory

end Foundation.SearchTree
