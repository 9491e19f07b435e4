import Mathlib.Data.List.Pairwise
import Mathlib.Data.List.Perm.Basic

/-! Regions of an address space: which of them lie apart from each other, and what
becomes of a family of regions when one of them is divided. -/

namespace Foundation

/-- The addresses from `first` on, `size` of them. -/
structure Region where
  first : Nat
  size : Nat
deriving Repr, DecidableEq

namespace Region

variable {r s t space : Region} {rs ss : List Region}

def past (r : Region) : Nat := r.first + r.size

def Apart (r s : Region) : Prop := r.past ≤ s.first ∨ s.past ≤ r.first

instance : Decidable (Apart r s) := inferInstanceAs (Decidable (_ ∨ _))

def Within (r s : Region) : Prop := s.first ≤ r.first ∧ r.past ≤ s.past

instance : Decidable (Within r s) := inferInstanceAs (Decidable (_ ∧ _))

theorem Apart.symm (apart : Apart r s) : Apart s r := Or.symm apart

theorem Apart.within (apart : Apart s t) (within : Within r s) : Apart r t :=
  apart.imp (Nat.le_trans within.2) fun below => Nat.le_trans below within.1

theorem Within.trans (inner : Within r s) (outer : Within s t) : Within r t :=
  ⟨Nat.le_trans outer.1 inner.1, Nat.le_trans inner.2 outer.2⟩

def AllApart (rs : List Region) : Prop := rs.Pairwise Apart

instance : Decidable (AllApart rs) := inferInstanceAs (Decidable (List.Pairwise _ _))

theorem AllApart.perm (apart : AllApart rs) (same : rs.Perm ss) : AllApart ss :=
  same.pairwise apart Apart.symm

theorem allApart_cons : AllApart (r :: rs) ↔ (∀ s ∈ rs, Apart r s) ∧ AllApart rs :=
  List.pairwise_cons

theorem AllApart.forall {α : Type} {f : α → Region} {as : List α} {a b : α}
    (apart : AllApart (as.map f)) (left : a ∈ as) (right : b ∈ as) (different : a ≠ b) :
    Apart (f a) (f b) := by
  have : Std.Symm fun a b => Apart (f a) (f b) := ⟨fun _ _ => Apart.symm⟩
  exact (List.pairwise_map.mp apart).forall left right different

theorem AllApart.divide (apart : AllApart (t :: rs)) (left : Within r t) (right : Within s t)
    (pieces : Apart r s) : AllApart (r :: s :: rs) := by
  obtain ⟨others, rest⟩ := allApart_cons.mp apart
  refine allApart_cons.mpr ⟨fun u member => ?_, allApart_cons.mpr ⟨fun u member => ?_, rest⟩⟩
  · obtain rfl | member := List.mem_cons.mp member
    · exact pieces
    · exact (others u member).within left
  · exact (others u member).within right

def Free (space r : Region) (rs : List Region) : Prop :=
  Within r space ∧ ∀ s ∈ rs, Apart r s

instance : Decidable (Free space r rs) := inferInstanceAs (Decidable (_ ∧ _))

structure Packed (space : Region) (rs : List Region) : Prop where
  apart : AllApart rs
  within : ∀ r ∈ rs, Within r space

namespace Packed

theorem cons_iff : Packed space (r :: rs) ↔ Free space r rs ∧ Packed space rs := by
  constructor
  · rintro ⟨apart, within⟩
    obtain ⟨others, rest⟩ := allApart_cons.mp apart
    obtain ⟨first, later⟩ := List.forall_mem_cons.mp within
    exact ⟨⟨first, others⟩, rest, later⟩
  · rintro ⟨⟨first, others⟩, rest, later⟩
    exact ⟨allApart_cons.mpr ⟨others, rest⟩, List.forall_mem_cons.mpr ⟨first, later⟩⟩

theorem perm (packed : Packed space rs) (same : rs.Perm ss) : Packed space ss :=
  ⟨packed.apart.perm same, fun r member => packed.within r (same.mem_iff.mpr member)⟩

theorem sublist (packed : Packed space rs) (fewer : ss.Sublist rs) : Packed space ss :=
  ⟨List.Pairwise.sublist fewer packed.apart, fun r member => packed.within r (fewer.subset member)⟩

theorem divide (packed : Packed space (t :: rs)) (left : Within r t) (right : Within s t)
    (pieces : Apart r s) : Packed space (r :: s :: rs) := by
  obtain ⟨first, later⟩ := List.forall_mem_cons.mp packed.within
  exact ⟨packed.apart.divide left right pieces, List.forall_mem_cons.mpr ⟨left.trans first,
    List.forall_mem_cons.mpr ⟨right.trans first, later⟩⟩⟩

end Packed

end Region

end Foundation
