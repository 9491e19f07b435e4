import NgxCpp.Foundation.Words
import NgxCpp.NgxString

/-! The bytes of a process. Those below `brk` are in use: a string that lies there
reads the same after any number of allocations. -/

namespace NgxCpp
open Foundation

namespace Ram

def write (ram : Ram) (first : Nat) (bytes : List UInt8) : Ram := fun a =>
  if first ≤ a then (bytes[a - first]?).getD (ram a) else ram a

variable {ram : Ram} {first past place : Nat} {bytes more : List UInt8}

theorem write_nil (ram : Ram) (place : Nat) : ram.write place [] = ram := by
  funext a
  simp [write]

theorem write_append (ram : Ram) (place : Nat) (bytes more : List UInt8) :
    (ram.write place bytes).write (place + bytes.length) more =
      ram.write place (bytes ++ more) := by
  funext a
  unfold write
  by_cases late : place + bytes.length ≤ a
  · have past : bytes.length ≤ a - place := by omega
    have later : a - place - bytes.length = a - (place + bytes.length) := by omega
    rw [if_pos late, if_pos (by omega), if_pos (by omega), List.getElem?_append_right past, later,
      List.getElem?_eq_none past, Option.getD_none]
  · rw [if_neg late]
    by_cases inside : place ≤ a
    · rw [if_pos inside, if_pos inside, List.getElem?_append_left (by omega)]
    · rw [if_neg inside, if_neg inside]

theorem span_write_self (ram : Ram) (place : Nat) (bytes : List UInt8) :
    (ram.write place bytes).span place (place + bytes.length) = bytes := by
  unfold span write
  apply List.ext_getElem
  · simp
  · intro i _ inside
    simp [inside]

theorem span_write (apart : past ≤ place ∨ place + bytes.length ≤ first) :
    (ram.write place bytes).span first past = ram.span first past := by
  unfold span
  refine List.map_congr_left fun i member => ?_
  have below := List.mem_range.mp member
  unfold write
  by_cases late : place ≤ first + i
  · rw [if_pos late, List.getElem?_eq_none (by omega), Option.getD_none]
  · exact if_neg late

def word (ram : Ram) (p : Nat) : UInt64 := .ofNat (wordValue (ram.span p (p + 8)))

def writeWord (ram : Ram) (p : Nat) (x : UInt64) : Ram := ram.write p (wordBytes 8 x.toNat)

@[simp] theorem word_writeWord_self (ram : Ram) (p : Nat) (x : UInt64) :
    (ram.writeWord p x).word p = x := by
  have whole := ram.span_write_self p (wordBytes 8 x.toNat)
  rw [length_wordBytes] at whole
  have small : x.toNat < 256 ^ 8 := x.toNat_lt
  rw [word, writeWord, whole, wordValue_wordBytes, Nat.mod_eq_of_lt small]
  exact UInt64.ofNat_toNat

theorem word_writeWord {p q : Nat} (apart : q + 8 ≤ p ∨ p + 8 ≤ q) (x : UInt64) :
    (ram.writeWord p x).word q = ram.word q := by
  rw [word, word, writeWord, span_write (by rwa [length_wordBytes])]

end Ram

structure ByteMem where
  ram : Ram
  brk : Nat

def NgxStr.Placed (m : ByteMem) (s : NgxStr) : Prop := s.data + s.len ≤ m.brk

namespace ByteMem

def store (m : ByteMem) (bytes : List UInt8) : ByteMem where
  ram a := if m.brk ≤ a then (bytes[a - m.brk]?).getD (m.ram a) else m.ram a
  brk := m.brk + bytes.length

/-- The string that `store` makes. -/
def stored (m : ByteMem) (bytes : List UInt8) : NgxStr := ⟨bytes.length, m.brk⟩

variable {m : ByteMem} {s : NgxStr}

theorem bytes_store (placed : s.Placed m) (bytes : List UInt8) :
    NgxString.bytes (m.store bytes).ram s = NgxString.bytes m.ram s :=
  Ram.span_write (.inl placed)

theorem placed_store (placed : s.Placed m) (bytes : List UInt8) : s.Placed (m.store bytes) :=
  Nat.le_trans placed (Nat.le_add_right ..)

theorem stored_placed (m : ByteMem) (bytes : List UInt8) :
    (m.stored bytes).Placed (m.store bytes) := by
  simp [NgxStr.Placed, stored, store]

theorem bytes_stored (m : ByteMem) (bytes : List UInt8) :
    NgxString.bytes (m.store bytes).ram (m.stored bytes) = bytes :=
  Ram.span_write_self m.ram m.brk bytes

end ByteMem

@[simp] theorem NgxString.length_bytes (ram : Ram) (s : NgxStr) :
    (NgxString.bytes ram s).length = s.len := by
  simp [NgxString.bytes, Ram.span]

end NgxCpp
