import Mathlib.Algebra.GroupWithZero.Nat

/-! Numbers as bytes, the least significant first. -/

namespace Foundation

def wordBytes : Nat → Nat → List UInt8
  | 0, _ => []
  | k + 1, n => UInt8.ofNat n :: wordBytes k (n / 256)

def wordValue : List UInt8 → Nat
  | [] => 0
  | b :: bs => b.toNat + 256 * wordValue bs

@[simp] theorem length_wordBytes (k n : Nat) : (wordBytes k n).length = k := by
  induction k generalizing n with
  | zero => rfl
  | succ k ih => rw [wordBytes, List.length_cons, ih]

theorem wordValue_wordBytes (k n : Nat) : wordValue (wordBytes k n) = n % 256 ^ k := by
  induction k generalizing n with
  | zero => rw [Nat.pow_zero, Nat.mod_one, wordBytes, wordValue]
  | succ k ih =>
    rw [wordBytes, wordValue, ih, Nat.pow_succ', Nat.mod_mul]
    rfl

end Foundation
