import Mathlib.Data.List.Perm.Basic
import Mathlib.Algebra.BigOperators.Group.List.Basic
import Mathlib.Algebra.GroupWithZero.Nat
import NgxCpp.Foundation.Linked

/-! Linked chains that share out the cells of a heap: each cell is in one of them, once.
Two chains may exchange cells, and a new cell comes as a chain of its own. -/

namespace Foundation

/-- The chains at `heads`, whose cells are those below `n`. -/
structure Shared (next : Nat → Option (Option Nat)) (n : Nat) (heads : List (Option Nat))
    (cells : List (List Nat)) : Prop where
  count : heads.length = cells.length
  linked : ∀ (i : Nat) ps, cells[i]? = some ps → ∃ head, heads[i]? = some head ∧ Linked next head ps
  whole : cells.flatten.Perm (List.range n)

/-- Another element in the place of one changes a sum by what the two differ. -/
theorem sum_map_set {α : Type} (f : α → Nat) {xs : List α} {x : α} {i : Nat}
    (at_i : xs[i]? = some x) (y : α) :
    ((xs.set i y).map f).sum + f x = (xs.map f).sum + f y := by
  induction xs generalizing i with
  | nil => simp at at_i
  | cons z xs ih =>
    cases i with
    | zero =>
      obtain rfl : z = x := by simpa using at_i
      simp only [List.set_cons_zero, List.map_cons, List.sum_cons]
      omega
    | succ i =>
      have rest := ih (by simpa using at_i)
      simp only [List.set_cons_succ, List.map_cons, List.sum_cons]
      omega

/-- Another element, and what a function that has changed makes of it. -/
theorem map_set_eq {α β : Type} {f g : α → β} {xs : List α} {i : Nat} (x : α)
    (same : ∀ (j : Nat) y, j ≠ i → xs[j]? = some y → g y = f y) :
    (xs.set i x).map g = (xs.map f).set i (g x) := by
  refine List.ext_getElem? fun j => ?_
  by_cases here : j = i
  · subst here
    simp [List.getElem?_set]
  · rw [List.getElem?_set_ne (Ne.symm here), List.getElem?_map, List.getElem?_map,
      List.getElem?_set_ne (Ne.symm here)]
    cases found : xs[j]? with
    | none => rfl
    | some y => simp [same j y here found]

namespace Shared

variable {next next' : Nat → Option (Option Nat)} {n : Nat} {heads : List (Option Nat)}
  {cells : List (List Nat)} {xs ys xs' ys' front rest : List Nat} {h k ch : Option Nat}
  {i j p : Nat}

theorem head_eq (shared : Shared next n heads cells) (at_i : cells[i]? = some xs)
    (head : heads[i]? = some h) : Linked next h xs := by
  obtain ⟨h', at_h, linked⟩ := shared.linked i xs at_i
  rwa [Option.some.inj (head.symm.trans at_h)]

theorem length_sum (shared : Shared next n heads cells) :
    (cells.map List.length).sum = n := by
  rw [← List.length_flatten, shared.whole.length_eq, List.length_range]

theorem lt (shared : Shared next n heads cells) (at_i : cells[i]? = some xs) (member : p ∈ xs) :
    p < n := by
  have inside : p ∈ cells.flatten := List.mem_flatten_of_mem (List.mem_of_getElem? at_i) member
  exact List.mem_range.mp (shared.whole.subset inside)

theorem disjoint (shared : Shared next n heads cells) (at_i : cells[i]? = some xs)
    (at_j : cells[j]? = some ys) (apart : i ≠ j) : xs.Disjoint ys := by
  have distinct : cells.flatten.Nodup := shared.whole.nodup_iff.mpr List.nodup_range
  have pairs := List.pairwise_iff_getElem.mp (List.nodup_flatten.mp distinct).2
  obtain ⟨below, rfl⟩ := List.getElem?_eq_some_iff.mp at_i
  obtain ⟨below', rfl⟩ := List.getElem?_eq_some_iff.mp at_j
  rcases Nat.lt_or_gt_of_ne apart with before | after
  · exact pairs i j below below' before
  · exact fun _ inside inside' => pairs j i below' below after inside' inside

theorem exchange (shared : Shared next n heads cells) (at_i : cells[i]? = some xs)
    (at_j : cells[j]? = some ys) (apart : i ≠ j) (left : Linked next' h xs')
    (right : Linked next' k ys') (moved : (xs' ++ ys').Perm (xs ++ ys))
    (same : ∀ q, q ∉ xs → q ∉ ys → next' q = next q) :
    Shared next' n ((heads.set i h).set j k) ((cells.set i xs').set j ys') where
  count := by simp [shared.count]
  linked l ps at_l := by
    have below_i := (List.getElem?_eq_some_iff.mp at_i).1
    have below_j := (List.getElem?_eq_some_iff.mp at_j).1
    by_cases second : l = j
    · subst second
      rw [List.getElem?_set_self (by simpa using below_j)] at at_l
      obtain rfl := Option.some.inj at_l
      refine ⟨k, List.getElem?_set_self ?_, right⟩
      rwa [List.length_set, shared.count]
    · rw [List.getElem?_set_ne (Ne.symm second)] at at_l ⊢
      by_cases first : l = i
      · subst first
        rw [List.getElem?_set_self below_i] at at_l
        obtain rfl := Option.some.inj at_l
        exact ⟨h, List.getElem?_set_self (shared.count ▸ below_i), left⟩
      · rw [List.getElem?_set_ne (Ne.symm first)] at at_l ⊢
        obtain ⟨head, found, linked⟩ := shared.linked l ps at_l
        refine ⟨head, found, linked.frame fun q member => same q ?_ ?_⟩
        · exact fun inside => shared.disjoint at_l at_i first member inside
        · exact fun inside => shared.disjoint at_l at_j second member inside
  whole := by
    have at_j' : (cells.set i xs')[j]? = some ys := by rwa [List.getElem?_set_ne apart]
    refine List.Perm.trans (List.perm_iff_count.mpr fun a => ?_) shared.whole
    have first := sum_map_set (List.count a) at_i xs'
    have second := sum_map_set (List.count a) at_j' ys'
    have both := List.perm_iff_count.mp moved a
    rw [List.count_append, List.count_append] at both
    rw [List.count_flatten, List.count_flatten]
    omega

/-- A cell is linked to another chain, whose place what came after it takes. -/
theorem relink (shared : Shared next n heads cells) (at_i : cells[i]? = some (front ++ p :: rest))
    (at_j : cells[j]? = some ys) (apart : i ≠ j) (head_i : heads[i]? = some h)
    (head_j : heads[j]? = some k) (written : next' p = some k)
    (same : ∀ q, q ≠ p → next' q = next q) :
    Shared next' n (heads.set j rest.head?) ((cells.set i (front ++ p :: ys)).set j rest) := by
  have linked := shared.head_eq at_i head_i
  have distinct := linked.nodup
  rw [List.nodup_append, List.nodup_cons] at distinct
  have outside : ∀ {q}, q ∈ ys → q ≠ p := fun member at_p =>
    shared.disjoint at_i at_j apart (by simp) (at_p ▸ member)
  have other : Linked next' k ys :=
    (shared.head_eq at_j head_j).frame fun q member => same q (outside member)
  have spliced : Linked next' h (front ++ p :: ys) :=
    linked.append other (fun q member => same q (distinct.2.2 q member p (by simp))) written
  have cut : Linked next' rest.head? rest := by
    cases linked.suffix with
    | cons _ later =>
      rw [later.head_eq]
      exact later.frame fun q member => same q fun at_p => distinct.2.1.1 (at_p ▸ member)
  have moved : (front ++ p :: ys ++ rest).Perm (front ++ p :: rest ++ ys) := by
    have swapped : (ys ++ rest).Perm (rest ++ ys) := List.perm_append_comm
    simpa using (swapped.cons p).append_left front
  have exchanged := shared.exchange at_i at_j apart spliced cut moved
    fun q outside _ => same q fun at_p => outside (by simp [at_p])
  obtain ⟨below, rfl⟩ := List.getElem?_eq_some_iff.mp head_i
  rwa [List.set_getElem_self below] at exchanged

theorem concat {m : Nat} (shared : Shared next n heads cells) (last : Linked next' h xs)
    (same : ∀ q < n, next' q = next q) (new : (List.range n ++ xs).Perm (List.range m)) :
    Shared next' m (heads ++ [h]) (cells ++ [xs]) where
  count := by simp [shared.count]
  linked l ps at_l := by
    rcases Nat.lt_or_ge l cells.length with below | above
    · rw [List.getElem?_append_left below] at at_l
      rw [List.getElem?_append_left (shared.count ▸ below)]
      obtain ⟨head, found, linked⟩ := shared.linked l ps at_l
      exact ⟨head, found, linked.frame fun q member => same q (shared.lt at_l member)⟩
    · obtain rfl : l = cells.length := by
        have length := (List.getElem?_eq_some_iff.mp at_l).1
        rw [List.length_append, List.length_singleton] at length
        omega
      obtain rfl : xs = ps := by simpa using at_l
      refine ⟨h, ?_, last⟩
      rw [← shared.count]
      exact List.getElem?_concat_length
  whole := by
    rw [List.flatten_append, List.flatten_singleton]
    exact (shared.whole.append_right xs).trans new

theorem concat_empty (shared : Shared next n heads cells) :
    Shared next n (heads ++ [none]) (cells ++ [[]]) :=
  shared.concat .nil (fun _ _ => rfl) (by rw [List.append_nil])

theorem concat_cell (shared : Shared next n heads cells) (made : next' n = some none)
    (same : ∀ q < n, next' q = next q) :
    Shared next' (n + 1) (heads ++ [some n]) (cells ++ [[n]]) :=
  shared.concat (.cons made .nil) same (by rw [List.range_succ])

end Shared

end Foundation
