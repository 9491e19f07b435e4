import Mathlib.Data.List.Induction
import Mathlib.Data.List.Nodup
import Mathlib.Algebra.BigOperators.Group.List.Basic
import Mathlib.Algebra.GroupWithZero.Nat

/-! A heap of cells of one type. An address is an index, allocation takes the
next index, and a cell once allocated stays: a read fails only at an address
that was never handed out. -/

namespace Foundation

structure Heap (α : Type) where
  cells : List α := []
deriving Repr, DecidableEq

namespace Heap

variable {α : Type} (h : Heap α)

def size : Nat := h.cells.length

def read (p : Nat) : Option α := h.cells[p]?

def write (p : Nat) (a : α) : Heap α := ⟨h.cells.set p a⟩

def alloc (a : α) : Heap α := ⟨h.cells ++ [a]⟩

def map {β : Type} (f : α → β) : Heap β := ⟨h.cells.map f⟩

variable {h} {p q : Nat} {a b : α}

@[simp] theorem size_write : (h.write p a).size = h.size := by
  simp [size, write]

@[simp] theorem size_alloc : (h.alloc a).size = h.size + 1 := by
  simp [size, alloc]

theorem read_lt (found : h.read p = some a) : p < h.size :=
  (List.getElem?_eq_some_iff.mp found).1

theorem read_isSome : (h.read p).isSome ↔ p < h.size := by
  simp [read, size]

theorem size_eq_of_read {h' : Heap α} (same : ∀ p, (h.read p).isSome ↔ (h'.read p).isSome) :
    h.size = h'.size := by
  simp only [read_isSome] at same
  exact Nat.le_antisymm (Nat.le_of_not_lt fun below => Nat.lt_irrefl _ ((same _).mp below))
    (Nat.le_of_not_lt fun below => Nat.lt_irrefl _ ((same _).mpr below))

theorem read_write_self (found : h.read p = some b) : (h.write p a).read p = some a := by
  have bound := read_lt found
  simp only [size] at bound
  simp [read, write, bound]

theorem read_write_ne (different : q ≠ p) : (h.write p a).read q = h.read q := by
  simp [read, write, Ne.symm different]

@[simp] theorem read_alloc_self : (h.alloc a).read h.size = some a := by
  simp [read, alloc, size]

theorem read_alloc_of_ne (different : q ≠ h.size) : (h.alloc a).read q = h.read q := by
  simp only [size] at different
  rcases Nat.lt_or_gt_of_ne different with below | above
  · simp [read, alloc, List.getElem?_append_left below]
  · have past : (h.cells ++ [a]).length ≤ q := by simp; omega
    simp [read, alloc, List.getElem?_eq_none past, List.getElem?_eq_none (Nat.le_of_lt above)]

theorem read_alloc (found : h.read p = some b) : (h.alloc a).read p = some b := by
  rw [read_alloc_of_ne (Nat.ne_of_lt (read_lt found)), found]

theorem write_write : (h.write p a).write p b = h.write p b := by
  simp [write]

theorem write_self (found : h.read p = some a) : h.write p a = h := by
  obtain ⟨bound, rfl⟩ := List.getElem?_eq_some_iff.mp found
  simp [write]

theorem write_alloc : (h.alloc a).write h.size b = h.alloc b := by
  simp [write, alloc, size]

section Map

variable {β : Type} (f : α → β)

theorem read_map : (h.map f).read p = (h.read p).map f := by
  simp [read, map]

theorem map_write : (h.write p a).map f = (h.map f).write p (f a) := by
  simp [write, map]

theorem map_alloc : (h.alloc a).map f = (h.map f).alloc (f a) := by
  simp [alloc, map]

theorem size_map : (h.map f).size = h.size := by
  simp [size, map]

end Map

theorem sum_le (weight : α → Nat) (ps : List Nat) (distinct : ps.Nodup) :
    (ps.map fun p => ((h.read p).map weight).getD 0).sum ≤ (h.cells.map weight).sum := by
  obtain ⟨cells⟩ := h
  induction cells using List.reverseRecOn generalizing ps with
  | nil => simp [read]
  | append_singleton cells last ih =>
    -- the new cell is counted once at most, so take its address out of the list
    have rest := ih (ps.erase cells.length) (distinct.erase _)
    dsimp only at rest
    have same : ∀ q ∈ ps.erase cells.length,
        (((⟨cells ++ [last]⟩ : Heap α).read q).map weight).getD 0 =
          (((⟨cells⟩ : Heap α).read q).map weight).getD 0 := by
      intro q hq
      have different : q ≠ cells.length := ((List.Nodup.mem_erase_iff distinct).mp hq).1
      exact congrArg (fun o => (Option.map weight o).getD 0)
        (read_alloc_of_ne (h := ⟨cells⟩) different)
    have step := congrArg List.sum (List.map_congr_left same)
    by_cases inside : cells.length ∈ ps
    · have split := List.sum_map_erase
        (fun q => (((⟨cells ++ [last]⟩ : Heap α).read q).map weight).getD 0) inside
      have here : (⟨cells ++ [last]⟩ : Heap α).read cells.length = some last :=
        read_alloc_self (h := ⟨cells⟩)
      simp only [here, Option.map_some, Option.getD_some] at split
      simp only [List.map_append, List.sum_append, List.map_cons, List.map_nil, List.sum_cons,
        List.sum_nil]
      omega
    · rw [List.erase_of_not_mem inside] at step rest
      simp only [List.map_append, List.sum_append]
      omega

end Heap

end Foundation
