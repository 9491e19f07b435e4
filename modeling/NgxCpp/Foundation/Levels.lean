import Mathlib.Data.List.Basic

/-! Nested levels, the outermost first. Some have a setting of their own; a level takes
the setting of the nearest level at or around it. -/

namespace Foundation

variable {V : Type} {d v : V} {levels : List (Option V)}

def nearest (d : V) (levels : List (Option V)) : V := (levels.reverse.findSome? id).getD d

theorem nearest_append_some : nearest d (levels ++ [some v]) = v := by
  simp [nearest]

theorem nearest_append_none : nearest d (levels ++ [none]) = nearest d levels := by
  simp [nearest]

theorem nearest_cases (d : V) (levels : List (Option V)) :
    nearest d levels = d ∨ some (nearest d levels) ∈ levels := by
  unfold nearest
  cases found : levels.reverse.findSome? id with
  | none => exact .inl rfl
  | some v =>
    obtain ⟨setting, member, same⟩ := List.exists_of_findSome?_eq_some found
    obtain rfl : setting = some v := same
    exact .inr (List.mem_reverse.mp member)

end Foundation
