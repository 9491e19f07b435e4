import NgxCpp.NgxArrayMerge

/-! The observers of `NgxArray` beside each other: `size` and `operator[]` look whether
there is an array, `empty` and `visit` follow the pointer. -/

namespace NgxCpp
open Foundation

variable {T σ : Type}

namespace NgxArray

/-- `operator[]`. -/
def index (arr : Option Nat) (i : Nat) : Ngx (ArrayMem T) Slot := do
  let n ← size arr
  NgxException.requireCond (i < n && arr.isSome)
  let p ← elts arr
  element p i

def empty (arr : Option Nat) : Ngx (ArrayMem T) Bool := do
  let a ← get arr
  let hdr ← readArray a
  pure (hdr.nelts == 0)

def KeepsArray (mem : σ → ArrayMem T) (v : Slot → Ngx σ Unit) (arr : Option Nat) : Prop :=
  ∀ slot s s', v slot s = .ok () s' →
    ∀ a ∈ arr, (mem s').arrays.read a = (mem s).arrays.read a

/-- The observers tell of the same elements, which lie at `slots`. -/
structure Observed (m : ArrayMem T) (arr : Option Nat) (slots : List Slot) : Prop where
  size : size arr m = .ok slots.length m
  index : ∀ (i : Nat) (inside : i < slots.length), index arr i m = .ok slots[i] m
  raises : ∀ i, slots.length ≤ i → ∃ e, NgxArray.index arr i m = .raised e m
  empty : empty arr m = .ok slots.isEmpty m
  visit : ∀ {σ : Type} (mem : σ → ArrayMem T) (v : Slot → Ngx σ Unit) (s : σ) (fuel : Nat),
    mem s = m → KeepsArray mem v arr → slots.length < fuel →
      visit mem fuel arr v s = Exec.each v slots s

section Observers

variable {m : ArrayMem T} {a i : Nat} {arr : Option Nat} {hdr : NgxArrayT}

theorem index_inside (header : m.arrays.read a = some hdr) (inside : i < hdr.nelts) {b : Nat}
    (block : hdr.elts = some b) : index (some a) i m = .ok ⟨b, i⟩ m := by
  have pointer : elts (some a) m = .ok (some b) m := block ▸ elts_apply header
  rw [index, Exec.bind_ok _ (size_apply header)]
  simp only [inside, decide_true, Option.isSome_some, Bool.and_self]
  exact Exec.bind_ok _ pointer

theorem index_outside (header : m.arrays.read a = some hdr) (outside : hdr.nelts ≤ i) :
    index (some a) i m = .raised ⟨ngxError⟩ m := by
  rw [index, Exec.bind_ok _ (size_apply header)]
  simp only [Nat.not_lt.mpr outside, decide_false, Bool.false_and]
  rfl

theorem empty_apply (header : m.arrays.read a = some hdr) :
    empty (some a) m = .ok (hdr.nelts == 0) m := by
  rw [empty, Exec.bind_ok _ (get_some a m), Exec.bind_ok _ (readArray_ok header)]
  rfl

theorem visitFrom_slots {mem : σ → ArrayMem T} {v : Slot → Ngx σ Unit} {s : σ} {b k : Nat}
    (keeps : KeepsArray mem v (some a)) (header : (mem s).arrays.read a = some hdr)
    (left : i + k = hdr.nelts) (fuel : Nat) (enough : k < fuel) :
    visitFrom mem v (some a) (some b) fuel i s =
      Exec.each v ((List.range' i k).map fun i => ⟨b, i⟩) s := by
  induction k generalizing i s fuel with
  | zero =>
    obtain ⟨fuel, rfl⟩ : ∃ k, fuel = k + 1 := Nat.exists_eq_add_one_of_ne_zero (by omega)
    rw [visitFrom, Exec.bind_ok _ (Exec.view_ok (size_apply header)), if_neg (by omega)]
    rfl
  | succ k ih =>
    obtain ⟨fuel, rfl⟩ : ∃ k, fuel = k + 1 := Nat.exists_eq_add_one_of_ne_zero (by omega)
    have slot : element (some b) i (mem s) = .ok ⟨b, i⟩ (mem s) := rfl
    rw [visitFrom, Exec.bind_ok _ (Exec.view_ok (size_apply header)), if_pos (by omega),
      Exec.bind_ok _ (Exec.view_ok slot), List.range'_succ, List.map_cons, Exec.each,
      Exec.bind_apply, Exec.bind_apply]
    cases done : v ⟨b, i⟩ s with
    | ok u s' =>
      exact ih ((keeps _ s s' done a rfl).trans header) (by omega) fuel (by omega)
    | raised e s' => rfl
    | undefined => rfl
    | exhausted => rfl

theorem visit_slots {mem : σ → ArrayMem T} {v : Slot → Ngx σ Unit} {s : σ} {b fuel : Nat}
    (keeps : KeepsArray mem v (some a)) (header : (mem s).arrays.read a = some hdr)
    (block : hdr.elts = some b) (enough : hdr.nelts < fuel) :
    visit mem fuel (some a) v s = Exec.each v ((List.range hdr.nelts).map fun i => ⟨b, i⟩) s := by
  have pointer : elts (some a) (mem s) = .ok (some b) (mem s) := block ▸ elts_apply header
  rw [visit, Exec.bind_ok _ (Exec.view_ok pointer), List.range_eq_range']
  exact visitFrom_slots keeps header (Nat.zero_add _) fuel enough

theorem observed_some {b : Nat} (header : m.arrays.read a = some hdr) (block : hdr.elts = some b) :
    Observed m (some a) ((List.range hdr.nelts).map fun i => ⟨b, i⟩) where
  size := by simpa using size_apply header
  index i inside := by
    rw [List.length_map, List.length_range] at inside
    simpa using index_inside header inside block
  raises i outside := ⟨_, index_outside header (by simpa using outside)⟩
  empty := by
    rw [empty_apply header, List.isEmpty_map]
    exact congrArg (Outcome.ok · m) (by rw [Bool.eq_iff_iff]; simp)
  visit mem v s fuel same keeps enough := by
    subst same
    rw [List.length_map, List.length_range] at enough
    exact visit_slots keeps header block enough

theorem visit_none {mem : σ → ArrayMem T} {v : Slot → Ngx σ Unit} {s : σ}
    (header : (mem s).arrays.read a = some hdr) (none : hdr.nelts = 0) (fuel : Nat) :
    visit mem (fuel + 1) (some a) v s = .ok () s := by
  rw [visit, Exec.bind_ok _ (Exec.view_ok (elts_apply header)), visitFrom,
    Exec.bind_ok _ (Exec.view_ok (size_apply header)), none]
  rfl

theorem observed_none (header : m.arrays.read a = some hdr) (none : hdr.nelts = 0) :
    Observed m (some a) [] where
  size := by
    rw [size_apply header, none]
    rfl
  index i inside := absurd inside (Nat.not_lt_zero i)
  raises i _ := ⟨_, index_outside header (by omega)⟩
  empty := by
    rw [empty_apply header, none]
    rfl
  visit mem v s fuel same _ enough := by
    subst same
    obtain ⟨fuel, rfl⟩ : ∃ k, fuel = k + 1 := Nat.exists_eq_add_one_of_ne_zero (by omega)
    exact visit_none header none fuel

/-- The observers agree exactly when there is an array. -/
theorem observers_agree_iff (held : ∀ a ∈ arr, ∃ hdr, m.arrays.read a = some hdr ∧
    (hdr.nelts ≠ 0 → hdr.elts ≠ none)) : (∃ slots, Observed m arr slots) ↔ arr ≠ none := by
  constructor
  · rintro ⟨slots, observed⟩ rfl
    have stuck := observed.empty
    simp [empty, get, Exec.bind_apply, Exec.deref] at stuck
  · intro some
    obtain ⟨a, rfl⟩ := Option.ne_none_iff_exists'.mp some
    obtain ⟨hdr, header, block⟩ := held a rfl
    by_cases none : hdr.nelts = 0
    · exact ⟨[], observed_none header none⟩
    · obtain ⟨b, found⟩ := Option.ne_none_iff_exists'.mp (block none)
      exact ⟨_, observed_some header found⟩

private def twoElements : ArrayMem Nat where
  arrays := ⟨[⟨some 0, 2, 3⟩]⟩
  blocks := ⟨[[some 5, some 6, none]]⟩

theorem observers_agree_two : (∃ slots, Observed twoElements (some 0) slots) ↔
    some 0 ≠ (none : Option Nat) :=
  observers_agree_iff fun a member => by
    obtain rfl := Option.some.inj member
    exact ⟨⟨some 0, 2, 3⟩, rfl, by decide⟩

/-- A null array has size 0, and `empty` follows the pointer. -/
theorem null_array_unobserved :
    size none twoElements = .ok 0 twoElements ∧ ¬ ∃ slots, Observed twoElements none slots := by
  refine ⟨rfl, ?_⟩
  rintro ⟨slots, observed⟩
  exact absurd observed.empty (by simp [empty, get, Exec.bind_apply, Exec.deref])

end Observers

end NgxArray

end NgxCpp
