import Mathlib.Data.List.Basic

/-! C's `strncmp`. It stops at a NUL byte: a difference behind one goes unseen. -/

namespace Foundation

variable {ram : Nat → UInt8} {a b n : Nat}

def strncmp (ram : Nat → UInt8) : Nat → Nat → Nat → Int
  | _, _, 0 => 0
  | a, b, n + 1 =>
    if ram a ≠ ram b then (ram a).toNat - (ram b).toNat
    else if ram a = 0 then 0
    else strncmp ram (a + 1) (b + 1) n

theorem strncmp_of_ne (different : ram a ≠ ram b) : strncmp ram a b (n + 1) ≠ 0 := by
  rw [strncmp, if_pos different]
  intro same
  refine different (UInt8.toNat.inj ?_)
  omega

theorem strncmp_of_eq (same : ram a = ram b) :
    strncmp ram a b (n + 1) = if ram a = 0 then 0 else strncmp ram (a + 1) (b + 1) n := by
  rw [strncmp, if_neg (by simpa using same)]

/-- No difference is seen exactly when each stands behind a NUL byte. -/
theorem strncmp_eq_zero : strncmp ram a b n = 0 ↔
    ∀ i < n, ram (a + i) ≠ ram (b + i) → ∃ j < i, ram (a + j) = 0 := by
  induction n generalizing a b with
  | zero => simp [strncmp]
  | succ n ih =>
    by_cases same : ram a = ram b
    · rw [strncmp_of_eq same]
      by_cases nul : ram a = 0
      · rw [if_pos nul]
        refine iff_of_true rfl fun i _ different => ⟨0, ?_, nul⟩
        exact Nat.pos_of_ne_zero fun first => different (by simpa [first] using same)
      · rw [if_neg nul, ih]
        constructor
        · intro hidden i inside different
          cases i with
          | zero => exact absurd same different
          | succ i =>
            obtain ⟨j, before, found⟩ := hidden i (by omega)
              (by simpa [Nat.add_right_comm, Nat.add_assoc] using different)
            exact ⟨j + 1, by omega, by simpa [Nat.add_right_comm, Nat.add_assoc] using found⟩
        · intro hidden i inside different
          obtain ⟨j, before, found⟩ := hidden (i + 1) (by omega)
            (by simpa [Nat.add_right_comm, Nat.add_assoc] using different)
          cases j with
          | zero => exact absurd found nul
          | succ j =>
            exact ⟨j, by omega, by simpa [Nat.add_right_comm, Nat.add_assoc] using found⟩
    · refine iff_of_false (strncmp_of_ne same) fun hidden => ?_
      obtain ⟨j, before, -⟩ := hidden 0 (by omega) same
      exact absurd before (Nat.not_lt_zero j)

end Foundation
