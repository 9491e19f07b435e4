import Mathlib.Data.List.Nodup

/-! Singly linked chains of addresses. `next p` is the successor stored at `p`:
`none` when `p` is no cell, `some none` when `p` is a last cell. A chain that
reaches null is finite, hence acyclic, and it is determined by its head. -/

namespace Foundation

inductive Linked (next : Nat → Option (Option Nat)) : Option Nat → List Nat → Prop where
  | nil : Linked next none []
  | cons {p : Nat} {q : Option Nat} {ps : List Nat} :
      next p = some q → Linked next q ps → Linked next (some p) (p :: ps)

namespace Linked

variable {next next' : Nat → Option (Option Nat)} {head : Option Nat} {p q : Nat}
  {ps qs : List Nat}

theorem unique (left : Linked next head ps) (right : Linked next head qs) : ps = qs := by
  induction left generalizing qs with
  | nil => cases right; rfl
  | cons found _ ih =>
    cases right with
    | cons found' rest =>
      obtain rfl := Option.some.inj (found.symm.trans found')
      rw [ih rest]

theorem head_eq (linked : Linked next head ps) : ps.head? = head := by
  cases linked <;> rfl

theorem suffix (linked : Linked next head (ps ++ p :: qs)) :
    Linked next (some p) (p :: qs) := by
  induction ps generalizing head with
  | nil =>
    have start := linked.head_eq
    subst start
    exact linked
  | cons a ps ih =>
    cases linked with
    | cons _ rest => exact ih rest

theorem behind (linked : Linked next head (ps ++ qs)) : Linked next qs.head? qs := by
  cases qs with
  | nil => exact .nil
  | cons q qs => exact linked.suffix

theorem next_eq (linked : Linked next head (ps ++ p :: qs)) : next p = some qs.head? := by
  cases linked.suffix with
  | cons found rest => rw [found, rest.head_eq]

theorem nodup (linked : Linked next head ps) : ps.Nodup := by
  induction linked with
  | nil => exact List.nodup_nil
  | @cons p q ps found rest ih =>
    refine List.nodup_cons.mpr ⟨fun again => ?_, ih⟩
    -- a second visit of `p` would start a shorter chain with the same cells
    obtain ⟨before, after, rfl⟩ := List.append_of_mem again
    have shorter := congrArg List.length (rest.suffix.unique (.cons found rest))
    simp only [List.length_append, List.length_cons] at shorter
    omega

theorem frame (linked : Linked next head ps) (same : ∀ p ∈ ps, next' p = next p) :
    Linked next' head ps := by
  induction linked with
  | nil => exact .nil
  | cons found _ ih =>
    refine .cons ((same _ (by simp)).trans found) (ih fun p member => same p ?_)
    exact List.mem_cons_of_mem _ member

/-- Linking a chain after a cell makes it the rest of the chain. -/
theorem append {rs : List Nat} {ch : Option Nat} (linked : Linked next head (ps ++ p :: rs))
    (tail : Linked next' ch qs) (same : ∀ a ∈ ps, next' a = next a) (linking : next' p = some ch) :
    Linked next' head (ps ++ p :: qs) := by
  induction ps generalizing head with
  | nil =>
    have start := linked.head_eq
    subst start
    exact .cons linking tail
  | cons a ps ih =>
    cases linked with
    | cons found rest =>
      refine .cons ((same _ (by simp)).trans found) (ih rest fun b member => same b ?_)
      exact List.mem_cons_of_mem _ member

end Linked

end Foundation
