import Mathlib.Data.List.Basic

/-! The text of bytes in lower case hexadecimal, and its reading. -/

namespace Foundation.Hex

def digit (n : Nat) : UInt8 := if n < 10 then UInt8.ofNat (48 + n) else UInt8.ofNat (87 + n)

def dump (bytes : List UInt8) : List UInt8 :=
  bytes.flatMap fun b => [digit (b.toNat / 16), digit (b.toNat % 16)]

def value (c : UInt8) : Option Nat :=
  if 48 ≤ c.toNat ∧ c.toNat < 58 then some (c.toNat - 48)
  else if 97 ≤ c.toNat ∧ c.toNat < 103 then some (c.toNat - 87)
  else none

def read : List UInt8 → Option (List UInt8)
  | [] => some []
  | [_] => none
  | high :: low :: rest => do
    let h ← value high
    let l ← value low
    let bytes ← read rest
    some (UInt8.ofNat (16 * h + l) :: bytes)

theorem value_digit {n : Nat} (small : n < 16) : value (digit n) = some n := by
  have all : ∀ n : Fin 16, value (digit n) = some n.val := by decide
  exact all ⟨n, small⟩

@[simp] theorem dump_nil : dump [] = [] := rfl

theorem dump_cons (b : UInt8) (bytes : List UInt8) :
    dump (b :: bytes) = digit (b.toNat / 16) :: digit (b.toNat % 16) :: dump bytes := rfl

@[simp] theorem length_dump (bytes : List UInt8) : (dump bytes).length = 2 * bytes.length := by
  induction bytes with
  | nil => rfl
  | cons b bytes ih =>
    rw [dump_cons, List.length_cons, List.length_cons, ih, List.length_cons]
    omega

theorem read_dump (bytes : List UInt8) : read (dump bytes) = some bytes := by
  induction bytes with
  | nil => rfl
  | cons b bytes ih =>
    have bound := b.toNat_lt
    have high := value_digit (n := b.toNat / 16) (by omega)
    have low := value_digit (n := b.toNat % 16) (Nat.mod_lt _ (by decide))
    have whole : 16 * (b.toNat / 16) + b.toNat % 16 = b.toNat := Nat.div_add_mod ..
    simp only [dump_cons, read, high, low, ih, Option.bind_eq_bind, Option.bind_some, whole,
      UInt8.ofNat_toNat]

end Foundation.Hex
