import NgxCpp.Foundation.CString

/-! `ngx_str_t` and the bytes it points at. Its strings are counted and may hold NUL
bytes; `operator==` compares them as C strings. -/

namespace NgxCpp
open Foundation

abbrev Ram : Type := Nat → UInt8

/-- `ngx_str_t`; address 0 is null. -/
structure NgxStr where
  len : Nat
  data : Nat
deriving Repr, DecidableEq

def ngxNullString : NgxStr := ⟨0, 0⟩

def Ram.span (ram : Ram) (first past : Nat) : List UInt8 :=
  (List.range (past - first)).map fun i => ram (first + i)

namespace Ram

variable {ram : Ram} {first mid past : Nat}

@[simp] theorem length_span : (ram.span first past).length = past - first := by
  simp [span]

theorem drop_span (n : Nat) : (ram.span first past).drop n = ram.span (first + n) past := by
  unfold span
  apply List.ext_getElem
  · simp
    omega
  · intro i _ _
    simp [Nat.add_assoc]

theorem span_append (before : first ≤ mid) (after : mid ≤ past) :
    ram.span first mid ++ ram.span mid past = ram.span first past := by
  have tail : (ram.span first past).drop (mid - first) = ram.span (first + (mid - first)) past :=
    drop_span (mid - first)
  have front : ram.span first mid = (ram.span first past).take (mid - first) := by
    unfold span
    rw [← List.map_take, List.take_range, Nat.min_eq_left (by omega)]
  rw [Nat.add_sub_cancel' before] at tail
  rw [front, ← tail, List.take_append_drop]

end Ram

namespace NgxString

/-- `str`. -/
def bytes (ram : Ram) (s : NgxStr) : List UInt8 := ram.span s.data (s.data + s.len)

def empty (s : NgxStr) : Bool := s.data == 0 || s.len == 0

/-- `operator==`. -/
def eq (ram : Ram) (l r : NgxStr) : Bool :=
  l.len == r.len && strncmp ram l.data r.data l.len == 0

def byte (ram : Ram) (s : NgxStr) (i : Nat) : UInt8 := ram (s.data + i)

/-- Where strings of one length first differ, no NUL byte stands before. -/
def InSight (ram : Ram) (l r : NgxStr) : Prop :=
  l.len = r.len → ∀ i < l.len, (∀ j < i, byte ram l j = byte ram r j) →
    byte ram l i ≠ byte ram r i → ∀ j < i, byte ram l j ≠ 0

section Equality

variable {ram : Ram} {l r : NgxStr}

theorem bytes_eq_map (s : NgxStr) : bytes ram s = (List.range s.len).map (byte ram s) := by
  simp [bytes, Ram.span, byte]

theorem bytes_eq_iff : bytes ram l = bytes ram r ↔
    l.len = r.len ∧ ∀ i < l.len, byte ram l i = byte ram r i := by
  rw [bytes_eq_map, bytes_eq_map]
  constructor
  · intro same
    have length : l.len = r.len := by simpa using congrArg List.length same
    refine ⟨length, fun i inside => ?_⟩
    rw [← length] at same
    exact List.map_inj_left.mp same i (List.mem_range.mpr inside)
  · rintro ⟨length, same⟩
    rw [← length]
    exact List.map_congr_left fun i member => same i (List.mem_range.mp member)

theorem eq_iff (length : l.len = r.len) : eq ram l r = true ↔
    ∀ i < l.len, byte ram l i ≠ byte ram r i → ∃ j < i, byte ram l j = 0 := by
  have zero : strncmp ram l.data r.data l.len = 0 ↔ _ := strncmp_eq_zero
  simpa [eq, length, byte] using zero

/-- `operator==` is the equality of bytes exactly when no NUL byte stands before the
first difference. -/
theorem eq_bytes_iff (ram : Ram) (l r : NgxStr) :
    (eq ram l r = true ↔ bytes ram l = bytes ram r) ↔ InSight ram l r := by
  by_cases length : l.len = r.len
  · rw [eq_iff length, bytes_eq_iff]
    constructor
    · intro right _ i inside first different j before nul
      -- every difference is at `i` or later, so behind this NUL byte
      have hidden := right.mp fun k _ other => ⟨j, ?_, nul⟩
      · exact different (hidden.2 i inside)
      · exact Nat.lt_of_lt_of_le before (Nat.le_of_not_lt fun early => other (first k early))
    · intro sight
      refine ⟨fun hidden => ⟨length, fun i => ?_⟩, fun same i inside different => ?_⟩
      · induction i using Nat.strongRecOn with
        | ind i ih =>
          intro inside
          by_contra different
          obtain ⟨j, before, nul⟩ := hidden i inside different
          refine sight length i inside (fun k early => ih k early ?_) different j before nul
          exact Nat.lt_trans early inside
      · exact absurd (same.2 i inside) different
  · refine iff_of_true (iff_of_false ?_ ?_) fun same => absurd same length
    · simp [eq, length]
    · exact fun same => length (bytes_eq_iff.mp same).1

/-- `a`, NUL, `b` and `a`, NUL, `c`. -/
theorem eq_behind_nul :
    let ram : Ram := fun p => [97, 0, 98, 97, 0, 99].getD (p - 1) 0
    eq ram ⟨3, 1⟩ ⟨3, 4⟩ = true ∧ bytes ram ⟨3, 1⟩ ≠ bytes ram ⟨3, 4⟩ := by
  decide

end Equality

end NgxString

/-- `std::toupper` in the classic locale. -/
def toUpper (c : UInt8) : UInt8 := if 97 ≤ c ∧ c ≤ 122 then c - 32 else c

def iequals (s t : List UInt8) : Bool := s.map toUpper == t.map toUpper

end NgxCpp
