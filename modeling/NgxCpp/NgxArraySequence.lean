import Mathlib.Logic.Function.Basic
import NgxCpp.NgxArrayObservers
import NgxCpp.NgxReshape

/-! Runs of array operations, with and without memory, against runs on sequences. -/

namespace NgxCpp
open Foundation

variable {T : Type}

/-- `ngx_array_create`; `none` is its null result. -/
def ngxArrayCreate (granted : Bool) (n : Nat) : Ngx (ArrayMem T) (Option Nat) := fun m =>
  if granted then .ok (some m.arrays.size) { m with
    arrays := m.arrays.alloc ⟨some m.blocks.size, 0, n⟩
    blocks := m.blocks.alloc (List.replicate n none) }
  else .ok none m

namespace NgxArray

def create (granted : Bool) (n : Nat := 10) : Ngx (ArrayMem T) Nat := do
  let p ← ngxArrayCreate granted n
  NgxException.requirePtr p

def clear (arr : Option Nat) : Ngx (ArrayMem T) Unit := do
  let a ← get arr
  let hdr ← readArray a
  Exec.modify fun m => m.setArray a { hdr with nelts := 0 }

/-- An assignment to `operator[]`. -/
def setAt (arr : Option Nat) (i : Nat) (x : T) : Ngx (ArrayMem T) Unit := do
  let slot ← index arr i
  storeElt slot x

end NgxArray

inductive ArrayOp (T : Type) where
  | create (granted : Bool) (n : Nat)
  | prepare (a : Nat)
  | push (a : Nat) (x : T)
  | setAt (a i : Nat) (x : T)
  | clear (a : Nat)
  | reinit (granted : Bool) (a n : Nat)
  | merge (a source : Nat)
deriving Repr, DecidableEq

namespace ArrayMem

def usable (m : ArrayMem T) (a : Nat) : Bool :=
  (m.arrays.read a).any fun arr => arr.elts.isSome || arr.nelts == 0

def written (m : ArrayMem T) (a : Nat) : Bool :=
  (m.arrays.read a).any fun arr =>
    (List.range arr.nelts).all fun i => (arr.elts.bind fun b => m.load ⟨b, i⟩).isSome

end ArrayMem

/-- What an array stands for: the values of its elements, of which one may not have been
written, or after a refused `reinit` a count of elements that are not there. -/
inductive ArrayState (T : Type) where
  | held (vs : List (Option T))
  | bare (n : Nat)
deriving Repr, DecidableEq

namespace ArrayState

def elements : ArrayState T → List (Option T)
  | held vs => vs
  | bare n => List.replicate n none

/-- Elements appended one by one, with or without an exception: those before it stay. Without
a block the first one is counted, and no more. -/
inductive Appended : ArrayState T → List (Option T) → Bool → ArrayState T → Prop where
  | all {vs ys : List (Option T)} : Appended (held vs) ys false (held (vs ++ ys))
  | some {vs ys zs : List (Option T)} (before : zs <+: ys) (fewer : zs.length < ys.length) :
    Appended (held vs) ys true (held (vs ++ zs))
  | nothing : Appended (bare 0) [] false (bare 0)
  | first {y : Option T} {ys : List (Option T)} : Appended (bare 0) (y :: ys) true (bare 1)

def Ready (st : ArrayState T) : Prop := ∀ n, st = bare n → n = 0

namespace Appended

variable {st st₁ st' : ArrayState T} {y : Option T} {ys : List (Option T)} {thrown : Bool}

theorem nil (ready : st.Ready) : st.Appended [] false st := by
  cases st with
  | held vs =>
    have whole : (held vs).Appended [] false (held (vs ++ [])) := .all
    rwa [List.append_nil] at whole
  | bare n =>
    obtain rfl := ready n rfl
    exact .nothing

theorem stop (first : st.Appended [y] true st') (ys : List (Option T)) :
    st.Appended (y :: ys) true st' := by
  cases first with
  | some before fewer =>
    refine .some (before.trans (List.prefix_append [y] ys)) (Nat.lt_of_lt_of_le fewer ?_)
    exact Nat.succ_le_succ (Nat.zero_le _)
  | first => exact .first

theorem cons (first : st.Appended [y] false st₁) (rest : st₁.Appended ys thrown st') :
    st.Appended (y :: ys) thrown st' := by
  cases first
  cases rest with
  | all =>
    rw [List.append_assoc]
    exact .all
  | some before fewer =>
    rw [List.append_assoc]
    exact .some ((List.prefix_cons_inj y).mpr before) (Nat.succ_lt_succ fewer)

theorem ready (first : st.Appended [y] false st') : st'.Ready := by
  cases first
  exact nofun

end Appended

end ArrayState

def Leaves (x : Ngx (ArrayMem T) Unit) (m : ArrayMem T) (thrown : Bool) (m' : ArrayMem T) : Prop :=
  if thrown then ∃ e, x m = .raised e m' else x m = .ok () m'

namespace ArrayOp

/-- The loop of a merge runs at most once more than the source has elements. -/
def run : ArrayOp T → Ngx (ArrayMem T) Unit
  | create granted n => do
    let _ ← NgxArray.create granted n
    pure ()
  | prepare a => do
    let _ ← NgxArray.prepare (some a)
    pure ()
  | push a x => NgxArray.push (some a) x
  | setAt a i x => NgxArray.setAt (some a) i x
  | clear a => NgxArray.clear (some a)
  | reinit granted a n => NgxArray.reinit granted (some a) n
  | merge a source => do
    let n ← NgxArray.size (some source)
    NgxArray.merge (n + 1) (some a) (some source)

/-- Arrays are created with room, have a block for the elements they count unless they are
cleared or initialised again, and are merged from other arrays that are written. -/
def Allowed (m : ArrayMem T) : ArrayOp T → Prop
  | create _ n => 0 < n
  | prepare a | push a _ | setAt a _ _ => m.usable a = true
  | clear a | reinit _ a _ => a < m.arrays.size
  | merge a source => m.usable a = true ∧ m.written source = true ∧ a ≠ source

instance (m : ArrayMem T) : (op : ArrayOp T) → Decidable (op.Allowed m)
  | create _ n => inferInstanceAs (Decidable (0 < n))
  | prepare a | push a _ | setAt a _ _ => inferInstanceAs (Decidable (m.usable a = true))
  | clear a | reinit _ a _ => inferInstanceAs (Decidable (a < m.arrays.size))
  | merge a source =>
    inferInstanceAs (Decidable (m.usable a = true ∧ m.written source = true ∧ a ≠ source))

inductive Spec (sts : List (ArrayState T)) : ArrayOp T → Bool → List (ArrayState T) → Prop where
  | create {n} : Spec sts (.create true n) false (sts ++ [.held []])
  | unmade {n} : Spec sts (.create false n) true sts
  | prepare {a st v thrown st'} : sts[a]? = some st → st.Appended [v] thrown st' →
    Spec sts (.prepare a) thrown (sts.set a st')
  | push {a st x thrown st'} : sts[a]? = some st → st.Appended [some x] thrown st' →
    Spec sts (.push a x) thrown (sts.set a st')
  | setAt {a vs i x} : sts[a]? = some (.held vs) → i < vs.length →
    Spec sts (.setAt a i x) false (sts.set a (.held (vs.set i (some x))))
  | outside {a st i x} : sts[a]? = some st → st.elements.length ≤ i →
    Spec sts (.setAt a i x) true sts
  | clear {a vs} : sts[a]? = some (.held vs) → Spec sts (.clear a) false (sts.set a (.held []))
  | clearBare {a n} : sts[a]? = some (.bare n) → Spec sts (.clear a) false (sts.set a (.bare 0))
  | reinit {a n} : Spec sts (.reinit true a n) false (sts.set a (.held []))
  | lost {a n} : Spec sts (.reinit false a n) true (sts.set a (.bare 0))
  | merge {a source st src thrown st'} : sts[a]? = some st → sts[source]? = some src →
    st.Appended src.elements thrown st' → Spec sts (.merge a source) thrown (sts.set a st')

/-- The memory that an operation leaves, when it returns or when it throws. -/
def Left (op : ArrayOp T) (m : ArrayMem T) (thrown : Bool) (m' : ArrayMem T) : Prop :=
  Leaves op.run m thrown m'

def Step (m : ArrayMem T) (act : ArrayOp T × Bool) (m' : ArrayMem T) : Prop :=
  act.1.Allowed m ∧ act.1.Left m act.2 m'

end ArrayOp

def ArrayState.Stands (m : ArrayMem T) (own : Nat → Nat) (a : Nat) : ArrayState T → Prop
  | held vs => ∃ arr, Slotted m a (own a) arr vs ∧ arr.nalloc ≠ 0
  | bare n => ∃ nalloc, m.arrays.read a = some ⟨none, n, nalloc⟩ ∧ nalloc ≠ 0

theorem ArrayState.Stands.header {m : ArrayMem T} {own : Nat → Nat} {a : Nat} {st : ArrayState T}
    (stands : st.Stands m own a) : ∃ arr, m.arrays.read a = some arr ∧
      arr.nelts = st.elements.length ∧ arr.nalloc ≠ 0 := by
  cases st with
  | held vs =>
    obtain ⟨arr, slotted, pos⟩ := stands
    exact ⟨arr, slotted.header, slotted.nelts, pos⟩
  | bare n =>
    obtain ⟨nalloc, header, pos⟩ := stands
    exact ⟨_, header, List.length_replicate.symm, pos⟩

theorem Slotted.load {m : ArrayMem T} {a b i : Nat} {arr : NgxArrayT} {vs : List (Option T)}
    (slotted : Slotted m a b arr vs) (inside : i < vs.length) : m.load ⟨b, i⟩ = vs[i] := by
  obtain ⟨slots, found, -, starts⟩ := slotted.stored
  have value := congrArg (fun vs => vs[i]?) starts
  simp only [List.getElem?_take, inside, if_true] at value
  simp [ArrayMem.load, found, value, List.getElem?_eq_getElem inside]

theorem exists_map_some {vs : List (Option T)} (written : ∀ v ∈ vs, v.isSome) :
    ∃ ys : List T, vs = ys.map some := by
  induction vs with
  | nil => exact ⟨[], rfl⟩
  | cons v vs ih =>
    obtain ⟨here, later⟩ := List.forall_mem_cons.mp written
    obtain ⟨y, rfl⟩ := Option.isSome_iff_exists.mp here
    obtain ⟨ys, rfl⟩ := ih later
    exact ⟨y :: ys, rfl⟩

/-- The arrays stand for these states, each with a block in a place of its own. -/
structure Models (m : ArrayMem T) (own : Nat → Nat) (sts : List (ArrayState T)) : Prop where
  count : m.arrays.size = sts.length
  stands : ∀ (a : Nat) (st : ArrayState T), sts[a]? = some st → st.Stands m own a
  apart : ∀ (a a' : Nat) (vs vs' : List (Option T)), sts[a]? = some (.held vs) →
    sts[a']? = some (.held vs') → own a = own a' → a = a'

namespace Models

variable {m m' : ArrayMem T} {own : Nat → Nat} {sts : List (ArrayState T)} {st st' : ArrayState T}
  {vs ys : List (Option T)} {a b : Nat} {arr : NgxArrayT}

theorem answers (models : Models m own sts) (answers : List Growth) :
    Models { m with answers } own sts where
  count := models.count
  stands a st at_a := by
    have stands := models.stands a st at_a
    cases st with
    | held vs =>
      obtain ⟨arr, slotted, pos⟩ := stands
      exact ⟨arr, ⟨slotted.header, slotted.block, slotted.nelts, slotted.stored⟩, pos⟩
    | bare n => exact stands
  apart := models.apart

theorem own_lt (models : Models m own sts) (at_a : sts[a]? = some (.held vs)) :
    own a < m.blocks.size := by
  obtain ⟨arr, slotted, -⟩ := models.stands a _ at_a
  obtain ⟨slots, found, -⟩ := slotted.stored
  exact Heap.read_lt found

structure Changes (m m' : ArrayMem T) (own : Nat → Nat) (a : Nat) (st : ArrayState T) : Prop where
  arrays : ∀ c, c ≠ a → m'.arrays.read c = m.arrays.read c
  blocks : ∀ c slots, (∀ vs, st = .held vs → c ≠ own a) → m.blocks.read c = some slots →
    m'.blocks.read c = some slots

theorem header (models : Models m own sts) (at_a : sts[a]? = some st) :
    ∃ arr, m.arrays.read a = some arr ∧ arr.nelts = st.elements.length ∧ arr.nalloc ≠ 0 :=
  (models.stands a st at_a).header

theorem size_kept (changes : Changes m m' own a st) {old new : NgxArrayT}
    (header : m.arrays.read a = some old) (header' : m'.arrays.read a = some new) :
    m'.arrays.size = m.arrays.size := by
  refine Heap.size_eq_of_read fun c => ?_
  by_cases same : c = a
  · rw [same, header, header']
    exact iff_of_true rfl rfl
  · rw [changes.arrays c same]

theorem lt_of_at (at_a : sts[a]? = some st) : a < sts.length :=
  (List.getElem?_eq_some_iff.mp at_a).1

theorem at_other {c : Nat} {other : ArrayState T} (different : c ≠ a)
    (at_c : (sts.set a st')[c]? = some other) : sts[c]? = some other := by
  rwa [List.getElem?_set_ne different.symm] at at_c

theorem at_self (at_a : sts[a]? = some st) (st' : ArrayState T) :
    (sts.set a st')[a]? = some st' := by
  rw [List.getElem?_set_self (lt_of_at at_a)]

theorem set_same (at_a : sts[a]? = some st) : sts.set a st = sts := by
  obtain ⟨below, rfl⟩ := List.getElem?_eq_some_iff.mp at_a
  exact List.set_getElem_self below

theorem replace (models : Models m own sts) (at_a : sts[a]? = some st)
    (changes : Changes m m' own a st) (stands : st'.Stands m' (Function.update own a b) a)
    (place : ∀ vs', st' = .held vs' → (∃ vs, st = .held vs ∧ b = own a) ∨ b = m.blocks.size) :
    Models m' (Function.update own a b) (sts.set a st') where
  count := by
    obtain ⟨old, header, -⟩ := models.header at_a
    obtain ⟨new, header', -⟩ := stands.header
    rw [size_kept changes header header', models.count, List.length_set]
  stands c other at_c := by
    by_cases same : c = a
    · subst same
      rw [at_self at_a] at at_c
      obtain rfl := Option.some.inj at_c
      exact stands
    · have at_c := at_other same at_c
      have before := models.stands c other at_c
      have kept := changes.arrays c same
      cases other with
      | held vs =>
        obtain ⟨arr, slotted, pos⟩ := before
        obtain ⟨slots, found, shape⟩ := slotted.stored
        have away : ∀ ws, st = .held ws → own c ≠ own a := fun ws is both =>
          same (models.apart c a vs ws at_c (is ▸ at_a) both)
        refine ⟨arr, ⟨kept.trans slotted.header, ?_, slotted.nelts, slots, ?_, shape⟩, pos⟩
        · rw [Function.update_of_ne same]
          exact slotted.block
        · rw [Function.update_of_ne same]
          exact changes.blocks _ slots away found
      | bare n =>
        obtain ⟨nalloc, header, pos⟩ := before
        exact ⟨nalloc, kept.trans header, pos⟩
  apart c c' vs vs' at_c at_c' both := by
    -- the block of another array is neither the old nor a new one
    have others : ∀ {c vs ws}, sts[c]? = some (.held vs) → st' = .held ws → c ≠ a → own c ≠ b := by
      intro c vs ws at_c is different
      obtain ⟨old, held, rfl⟩ | rfl := place ws is
      · exact fun both => different (models.apart c a vs old at_c (held ▸ at_a) both)
      · exact Nat.ne_of_lt (models.own_lt at_c)
    by_cases same : c = a <;> by_cases same' : c' = a
    · rw [same, same']
    · rw [same, at_self at_a] at at_c
      rw [same, Function.update_self, Function.update_of_ne same'] at both
      exact absurd both.symm (others (at_other same' at_c') (Option.some.inj at_c) same')
    · rw [same', at_self at_a] at at_c'
      rw [same', Function.update_self, Function.update_of_ne same] at both
      exact absurd both (others (at_other same at_c) (Option.some.inj at_c') same)
    · rw [Function.update_of_ne same, Function.update_of_ne same'] at both
      exact models.apart c c' vs vs' (at_other same at_c) (at_other same' at_c') both

theorem extend (models : Models m own sts) {n : Nat} (pos : 0 < n) :
    Models { m with
        arrays := m.arrays.alloc ⟨some m.blocks.size, 0, n⟩
        blocks := m.blocks.alloc (List.replicate n none) }
      (Function.update own sts.length m.blocks.size) (sts ++ [.held []]) := by
  have old : ∀ {c other}, (sts ++ [.held []])[c]? = some other → c ≠ sts.length →
      sts[c]? = some other := by
    intro c other at_c different
    have below := lt_of_at at_c
    rw [List.length_append, List.length_singleton] at below
    rwa [List.getElem?_append_left (by omega)] at at_c
  refine ⟨by simp [models.count], fun c other at_c => ?_, fun c c' vs vs' at_c at_c' both => ?_⟩
  · by_cases new : c = sts.length
    · subst new
      obtain rfl : .held [] = other := by simpa using at_c
      refine ⟨⟨some m.blocks.size, 0, n⟩, ⟨?_, ?_, rfl, List.replicate n none, ?_, ?_, rfl⟩,
        Nat.ne_of_gt pos⟩
      · rw [← models.count]
        exact Heap.read_alloc_self
      · rw [Function.update_self]
      · rw [Function.update_self]
        exact Heap.read_alloc_self
      · exact List.length_replicate
    · have before := models.stands c other (old at_c new)
      cases other with
      | held vs =>
        obtain ⟨arr, slotted, room⟩ := before
        obtain ⟨slots, found, shape⟩ := slotted.stored
        refine ⟨arr, ⟨Heap.read_alloc slotted.header, ?_, slotted.nelts, slots, ?_, shape⟩, room⟩
        · rw [Function.update_of_ne new]
          exact slotted.block
        · rw [Function.update_of_ne new]
          exact Heap.read_alloc found
      | bare k =>
        obtain ⟨nalloc, header, room⟩ := before
        exact ⟨nalloc, Heap.read_alloc header, room⟩
  · have others : ∀ {c vs}, sts[c]? = some (.held vs) → own c ≠ m.blocks.size := fun at_c =>
      Nat.ne_of_lt (models.own_lt at_c)
    by_cases new : c = sts.length <;> by_cases new' : c' = sts.length
    · rw [new, new']
    · rw [new, Function.update_self, Function.update_of_ne new'] at both
      exact absurd both.symm (others (old at_c' new'))
    · rw [new', Function.update_self, Function.update_of_ne new] at both
      exact absurd both (others (old at_c new))
    · rw [Function.update_of_ne new, Function.update_of_ne new'] at both
      exact models.apart c c' vs vs' (old at_c new) (old at_c' new') both

theorem inPlace (models : Models m own sts) (at_a : sts[a]? = some st)
    (changes : Changes m m' own a st) (stands : st'.Stands m' own a)
    (kept : ∀ vs', st' = .held vs' → ∃ vs, st = .held vs) : Models m' own (sts.set a st') := by
  have same := Function.update_eq_self a own
  have replaced := models.replace (b := own a) at_a changes (same.symm ▸ stands) fun vs' is => by
    obtain ⟨vs, held⟩ := kept vs' is
    exact .inl ⟨vs, held, rfl⟩
  rwa [same] at replaced

theorem setArray (models : Models m own sts) (at_a : sts[a]? = some st) (arr' : NgxArrayT)
    (stands : st'.Stands (m.setArray a arr') own a)
    (kept : ∀ vs', st' = .held vs' → ∃ vs, st = .held vs) :
    Models (m.setArray a arr') own (sts.set a st') :=
  models.inPlace at_a ⟨fun _ other => Heap.read_write_ne other, fun _ _ _ found => found⟩ stands
    kept

theorem count_bare (models : Models m own sts) (at_a : sts[a]? = some (.bare 0)) :
    ∃ m', NgxArray.prepare (some a) m = .raised ⟨ngxError⟩ m' ∧
      Models m' own (sts.set a (.bare 1)) := by
  obtain ⟨nalloc, header, pos⟩ := models.stands a _ at_a
  exact ⟨_, NgxArray.prepare_missing header rfl rfl pos, models.setArray at_a ⟨none, 1, nalloc⟩
    ⟨nalloc, Heap.read_write_self header, pos⟩ nofun⟩

theorem bumped {m1 : ArrayMem T} {b1 : Nat} {arr1 : NgxArrayT}
    (room : Room m m1 b b1 arr1 vs) (header : m.arrays.read a = some arr) :
    ∃ v, Slotted (m1.setArray a { arr1 with nelts := arr1.nelts + 1 }) a b1
      { arr1 with nelts := arr1.nelts + 1 } (vs ++ [v]) := by
  obtain ⟨slots, found, length, starts⟩ := room.stored
  have inside : vs.length < slots.length := length ▸ room.room
  have header1 : m1.arrays.read a = some arr := by
    rw [room.arrays]
    exact header
  refine ⟨slots[vs.length], Heap.read_write_self header1, room.block, ?_, slots, found, length, ?_⟩
  · rw [List.length_append, List.length_singleton, ← room.nelts]
  · rw [List.length_append, List.length_singleton, List.take_add_one, starts,
      List.getElem?_eq_getElem inside]
    rfl

theorem usable (models : Models m own sts) (asked : m.usable a = true) :
    ∃ st, sts[a]? = some st ∧ st.Ready := by
  obtain ⟨arr, header, ready⟩ := (Option.any_eq_true ..).mp asked
  have below : a < sts.length := models.count ▸ Heap.read_lt header
  refine ⟨sts[a], List.getElem?_eq_getElem below, fun n is => ?_⟩
  have stands := models.stands a _ (List.getElem?_eq_getElem below)
  rw [is] at stands
  obtain ⟨nalloc, found, -⟩ := stands
  obtain rfl := Option.some.inj (found.symm.trans header)
  simpa using ready

theorem refused (models : Models m own sts) (at_a : sts[a]? = some (.held vs)) (v : Option T) :
    Models { m with answers := m.answers.tail } (Function.update own a (own a))
        (sts.set a (.held (vs ++ []))) ∧
      (ArrayState.held vs).Appended [v] true (.held (vs ++ [])) := by
  refine ⟨?_, .some List.nil_prefix Nat.one_pos⟩
  rw [List.append_nil, set_same at_a, Function.update_eq_self]
  exact models.answers _

theorem prepare (models : Models m own sts) (at_a : sts[a]? = some st)
    (ready : st.Ready) :
    ∃ thrown m' b v st', (ArrayOp.prepare a).Left m thrown m' ∧ st.Appended [v] thrown st' ∧
      Models m' (Function.update own a b) (sts.set a st') := by
  cases st with
  | held vs =>
    obtain ⟨arr, slotted, pos⟩ := models.stands a _ at_a
    obtain ⟨m1, arr1, b1, prepared, room, pos1⟩ | ⟨-, prepared⟩ := slotted.prepare pos
    · obtain ⟨v, bumped⟩ := bumped room slotted.header
      refine ⟨false, _, b1, v, _, Exec.bind_ok _ prepared, .all, models.replace at_a ⟨?_, ?_⟩
        ⟨{ arr1 with nelts := arr1.nelts + 1 }, by rwa [Function.update_self], pos1⟩ ?_⟩
      · intro c other
        refine (Heap.read_write_ne other).trans ?_
        rw [room.arrays]
      · exact fun c slots away found => room.others c slots (away vs rfl) found
      · exact fun _ _ => room.place.imp_left fun same => ⟨vs, rfl, same⟩
    · obtain ⟨kept, appended⟩ := models.refused at_a none
      exact ⟨true, _, _, none, _, ⟨_, Exec.bind_raised _ prepared⟩, appended, kept⟩
  | bare n =>
    obtain rfl := ready n rfl
    obtain ⟨m', prepared, counted⟩ := models.count_bare at_a
    have same := Function.update_eq_self a own
    exact ⟨true, m', own a, none, _, ⟨_, Exec.bind_raised _ prepared⟩, .first, same.symm ▸ counted⟩

theorem push (models : Models m own sts) (at_a : sts[a]? = some st)
    (ready : st.Ready) (x : T) :
    ∃ thrown m' b st', (ArrayOp.push a x).Left m thrown m' ∧ st.Appended [some x] thrown st' ∧
      Models m' (Function.update own a b) (sts.set a st') := by
  cases st with
  | held vs =>
    obtain ⟨arr, slotted, pos⟩ := models.stands a _ at_a
    obtain ⟨m', arr', b', pushed, slotted', pos', place, arrays, blocks, -⟩ | ⟨-, thrown⟩ :=
      slotted.push pos x
    · refine ⟨false, m', b', _, pushed, .all, models.replace at_a ⟨arrays, ?_⟩
        ⟨_, by rwa [Function.update_self], pos'⟩ ?_⟩
      · exact fun c slots away found => blocks c slots (away vs rfl) found
      · exact fun _ _ => place.imp_left fun same => ⟨vs, rfl, same⟩
    · obtain ⟨kept, appended⟩ := models.refused at_a (some x)
      exact ⟨true, _, _, _, ⟨_, thrown⟩, appended, kept⟩
  | bare n =>
    obtain rfl := ready n rfl
    obtain ⟨m', prepared, counted⟩ := models.count_bare at_a
    have same := Function.update_eq_self a own
    exact ⟨true, m', own a, _, ⟨_, Exec.bind_raised _ prepared⟩, .first, same.symm ▸ counted⟩

theorem setAt_inside (models : Models m own sts) (at_a : sts[a]? = some (.held vs)) {i : Nat}
    (inside : i < vs.length) (x : T) : ∃ m', NgxArray.setAt (some a) i x m = .ok () m' ∧
      Models m' own (sts.set a (.held (vs.set i (some x)))) := by
  obtain ⟨arr, slotted, pos⟩ := models.stands a _ at_a
  obtain ⟨slots, found, length, starts⟩ := slotted.stored
  have within := Nat.lt_of_lt_of_le inside slotted.fits
  have slot := NgxArray.index_inside slotted.header (slotted.nelts ▸ inside) slotted.block
  have read : readBlock (own a) m = .ok slots m := readBlock_ok found
  have stored : storeElt ⟨own a, i⟩ x m = .ok ()
      { m with blocks := m.blocks.write (own a) (slots.set i (some x)) } := by
    rw [storeElt, Exec.bind_ok _ read, if_pos (by rw [length]; exact within)]
    rfl
  have now : Slotted { m with blocks := m.blocks.write (own a) (slots.set i (some x)) } a (own a)
      arr (vs.set i (some x)) := by
    refine ⟨slotted.header, slotted.block, ?_, _, Heap.read_write_self found, ?_, ?_⟩
    · rw [List.length_set, slotted.nelts]
    · rw [List.length_set, length]
    · rw [List.length_set, List.take_set, starts]
  refine ⟨_, (Exec.bind_ok _ slot).trans stored, models.inPlace at_a ⟨fun _ _ => rfl, ?_⟩
    ⟨arr, now, pos⟩ fun _ _ => ⟨vs, rfl⟩⟩
  exact fun c slots' away at_c => (Heap.read_write_ne (away vs rfl)).trans at_c

theorem setAt_outside (models : Models m own sts) (at_a : sts[a]? = some st) {i : Nat}
    (outside : st.elements.length ≤ i) (x : T) :
    NgxArray.setAt (some a) i x m = .raised ⟨ngxError⟩ m := by
  obtain ⟨arr, header, nelts, -⟩ := models.header at_a
  exact Exec.bind_raised _ (NgxArray.index_outside header (nelts ▸ outside))

theorem clear_apply (header : m.arrays.read a = some arr) :
    NgxArray.clear (some a) m = .ok () (m.setArray a { arr with nelts := 0 }) := by
  rw [NgxArray.clear, Exec.bind_ok _ (NgxArray.get_some a m), Exec.bind_ok _ (readArray_ok header)]
  rfl

theorem clear (models : Models m own sts) (at_a : sts[a]? = some st) :
    ∃ m' sts', (ArrayOp.clear a).Left m false m' ∧ ArrayOp.Spec sts (.clear a) false sts' ∧
      Models m' own sts' := by
  have stands := models.stands a st at_a
  cases st with
  | held vs =>
    obtain ⟨arr, slotted, pos⟩ := stands
    obtain ⟨slots, found, length, -⟩ := slotted.stored
    refine ⟨_, _, clear_apply slotted.header, .clear at_a,
      models.setArray at_a _ ⟨_, ⟨Heap.read_write_self slotted.header, slotted.block, rfl, slots,
        found, length, rfl⟩, pos⟩ fun _ _ => ⟨vs, rfl⟩⟩
  | bare n =>
    obtain ⟨nalloc, header, pos⟩ := stands
    exact ⟨_, _, clear_apply header, .clearBare at_a,
      models.setArray at_a _ ⟨nalloc, Heap.read_write_self header, pos⟩ nofun⟩

theorem reinit (models : Models m own sts) (at_a : sts[a]? = some st) (granted : Bool) (n : Nat) :
    ∃ m' own' sts', (ArrayOp.reinit granted a n).Left m (!granted) m' ∧
      ArrayOp.Spec sts (.reinit granted a n) (!granted) sts' ∧ Models m' own' sts' := by
  obtain ⟨arr, header, -, pos⟩ := models.header at_a
  have some_room : (if n = 0 then arr.nalloc else n) ≠ 0 := by
    split <;> assumption
  have done := NgxArray.reshape_apply granted n header
  cases granted with
  | true =>
    refine ⟨_, _, _, done, .reinit, models.replace (b := m.blocks.size) at_a ⟨?_, ?_⟩
      ⟨⟨some m.blocks.size, 0, if n = 0 then arr.nalloc else n⟩, ?_, some_room⟩ ?_⟩
    · exact fun _ other => Heap.read_write_ne other
    · exact fun _ _ _ found => Heap.read_alloc found
    · rw [Function.update_self]
      exact ⟨Heap.read_write_self header, rfl, rfl, _, Heap.read_alloc_self, List.length_replicate,
        rfl⟩
    · exact fun _ _ => .inr rfl
  | false =>
    exact ⟨_, own, _, ⟨_, done⟩, .lost, models.setArray at_a _
      ⟨_, Heap.read_write_self header, some_room⟩ nofun⟩

theorem assign (models : Models m own sts) (at_a : sts[a]? = some st) (ready : st.Ready)
    {v : Slot} {x : T} (shown : m.load v = some x)
    (away : ∀ vs, st = .held vs → v.array ≠ own a) :
    ∃ thrown m' b st', Leaves (NgxArray.assign (some a) v) m thrown m' ∧
      st.Appended [some x] thrown st' ∧ Models m' (Function.update own a b) (sts.set a st') := by
  cases st with
  | held vs =>
    obtain ⟨arr, slotted, pos⟩ := models.stands a _ at_a
    have same := NgxArray.assign_eq_push slotted pos (away vs rfl) shown
    obtain ⟨thrown, m', b, st', ended, appended, models'⟩ := models.push at_a ready x
    refine ⟨thrown, m', b, st', ?_, appended, models'⟩
    rw [Leaves, same]
    exact ended
  | bare n =>
    obtain rfl := ready n rfl
    obtain ⟨m', prepared, counted⟩ := models.count_bare at_a
    have same := Function.update_eq_self a own
    exact ⟨true, m', own a, _, ⟨_, Exec.bind_raised _ prepared⟩, .first, same.symm ▸ counted⟩

theorem visitFrom {source i : Nat} {ys : List T} (models : Models m own sts)
    (at_a : sts[a]? = some st) (ready : st.Ready)
    (at_s : sts[source]? = some (.held (ys.map some))) (different : a ≠ source) (fuel : Nat)
    (within : i ≤ ys.length) (enough : ys.length < i + fuel) :
    ∃ thrown m' own' st', Leaves (NgxArray.visitFrom id (NgxArray.assign (some a)) (some source)
        (some (own source)) fuel i) m thrown m' ∧
      st.Appended ((ys.drop i).map some) thrown st' ∧ Models m' own' (sts.set a st') := by
  induction fuel generalizing m own sts st i with
  | zero => omega
  | succ fuel ih =>
    obtain ⟨arrs, slotted, -⟩ := models.stands source _ at_s
    have filled := slotted_map.mp slotted
    obtain ⟨-, counted⟩ := NgxArray.visit_reads filled
    have slot : Exec.view id (NgxArray.element (some (own source)) i) m = .ok ⟨own source, i⟩ m :=
      Exec.view_ok (s := m) rfl
    simp only [Leaves]
    rw [NgxArray.visitFrom, Exec.bind_ok _ counted]
    by_cases inside : i < ys.length
    · rw [if_pos inside, Exec.bind_ok _ slot, List.drop_eq_getElem_cons inside, List.map_cons]
      obtain ⟨thrown, m₁, b, st₁, ended, first, models₁⟩ := models.assign at_a ready
        (v := ⟨own source, i⟩) (filled.load inside) fun vs is both =>
          different (models.apart source a _ vs at_s (is ▸ at_a) both).symm
      cases thrown with
      | true =>
        obtain ⟨e, threw⟩ := ended
        exact ⟨true, m₁, _, st₁, ⟨e, Exec.bind_raised _ threw⟩, first.stop _, models₁⟩
      | false =>
        have at_s' : (sts.set a st₁)[source]? = some (.held (ys.map some)) := by
          rw [List.getElem?_set_ne different, at_s]
        have again := ih models₁ (at_self at_a st₁) first.ready at_s' inside (by omega)
        rw [Function.update_of_ne different.symm] at again
        obtain ⟨thrown, m', own', st', ended', rest, models'⟩ := again
        rw [List.set_set] at models'
        refine ⟨thrown, m', own', st', ?_, first.cons rest, models'⟩
        have returned : NgxArray.assign (some a) ⟨own source, i⟩ m = .ok () m₁ := ended
        rw [Exec.bind_ok _ returned]
        exact ended'
    · rw [if_neg inside, List.drop_of_length_le (Nat.le_of_not_lt inside)]
      exact ⟨false, m, own, st, rfl, .nil ready, by rwa [set_same at_a]⟩

theorem usable_of_ready (models : Models m own sts) (at_a : sts[a]? = some st)
    (ready : st.Ready) : m.usable a = true := by
  have stands := models.stands a st at_a
  cases st with
  | held vs =>
    obtain ⟨arr, slotted, -⟩ := stands
    simp [ArrayMem.usable, slotted.header, slotted.block]
  | bare n =>
    obtain rfl := ready n rfl
    obtain ⟨nalloc, header, -⟩ := stands
    simp [ArrayMem.usable, header]

theorem written (models : Models m own sts) {source : Nat} (asked : m.written source = true) :
    ∃ src, sts[source]? = some src ∧ ∃ ys : List T, src.elements = ys.map some ∧ src.Ready := by
  obtain ⟨arr, header, all⟩ := (Option.any_eq_true ..).mp asked
  have below : source < sts.length := models.count ▸ Heap.read_lt header
  have at_s := List.getElem?_eq_getElem below
  have loaded : ∀ i < arr.nelts, (arr.elts.bind fun b => m.load ⟨b, i⟩).isSome := fun i inside =>
    List.all_eq_true.mp all i (List.mem_range.mpr inside)
  have stands := models.stands source _ at_s
  refine ⟨sts[source], at_s, ?_⟩
  cases found : sts[source] with
  | held vs =>
    rw [found] at stands
    obtain ⟨arr', slotted, -⟩ := stands
    obtain rfl := Option.some.inj (slotted.header.symm.trans header)
    have some_each : ∀ v ∈ vs, v.isSome := by
      intro v member
      obtain ⟨i, inside, rfl⟩ := List.getElem_of_mem member
      have here := loaded i (slotted.nelts ▸ inside)
      rwa [slotted.block, Option.bind_some, slotted.load inside] at here
    obtain ⟨ys, rfl⟩ := exists_map_some some_each
    exact ⟨ys, rfl, nofun⟩
  | bare n =>
    rw [found] at stands
    obtain ⟨nalloc, header', -⟩ := stands
    obtain rfl := Option.some.inj (header'.symm.trans header)
    have none : n = 0 := by
      by_contra some
      exact absurd (loaded 0 (Nat.pos_of_ne_zero some)) (by simp)
    subst none
    exact ⟨[], rfl, fun _ same => (ArrayState.bare.inj same).symm⟩

theorem merge {source : Nat} {src : ArrayState T} {ys : List T} (models : Models m own sts)
    (at_a : sts[a]? = some st) (ready : st.Ready) (at_s : sts[source]? = some src)
    (written : src.elements = ys.map some) (counts : src.Ready) (different : a ≠ source) :
    ∃ thrown m' own' st', (ArrayOp.merge a source).Left m thrown m' ∧
      st.Appended src.elements thrown st' ∧ Models m' own' (sts.set a st') := by
  simp only [ArrayOp.Left, Leaves]
  cases src with
  | held vs =>
    obtain rfl : vs = ys.map some := written
    obtain ⟨arrs, slotted, -⟩ := models.stands source _ at_s
    have filled := slotted_map.mp slotted
    have begun := (NgxArray.visit_reads filled).1
    have counted : NgxArray.size (some source) m = .ok ys.length m :=
      filled.nelts ▸ NgxArray.size_apply filled.header
    rw [ArrayOp.run, Exec.bind_ok _ counted, NgxArray.merge, NgxArray.visit, Exec.bind_ok _ begun]
    exact models.visitFrom at_a ready at_s different (ys.length + 1) (Nat.zero_le _) (by omega)
  | bare n =>
    obtain rfl := counts n rfl
    obtain ⟨nalloc, header, -⟩ := models.stands source _ at_s
    have counted : NgxArray.size (some source) m = .ok 0 m := NgxArray.size_apply header
    refine ⟨false, m, own, st, ?_, .nil ready, by rwa [set_same at_a]⟩
    rw [ArrayOp.run, Exec.bind_ok _ counted]
    exact NgxArray.visit_none header rfl 0

theorem step (models : Models m own sts) {op : ArrayOp T} (allowed : op.Allowed m) :
    ∃ thrown m' own' sts', op.Left m thrown m' ∧ op.Spec sts thrown sts' ∧
      Models m' own' sts' := by
  cases op with
  | create granted n =>
    cases granted with
    | true => exact ⟨false, _, _, _, rfl, .create, models.extend allowed⟩
    | false => exact ⟨true, m, own, sts, ⟨_, rfl⟩, .unmade, models⟩
  | prepare a =>
    obtain ⟨st, at_a, ready⟩ := models.usable allowed
    obtain ⟨thrown, m', b, v, st', left, appended, models'⟩ := models.prepare at_a ready
    exact ⟨thrown, m', _, _, left, .prepare at_a appended, models'⟩
  | push a x =>
    obtain ⟨st, at_a, ready⟩ := models.usable allowed
    obtain ⟨thrown, m', b, st', left, appended, models'⟩ := models.push at_a ready x
    exact ⟨thrown, m', _, _, left, .push at_a appended, models'⟩
  | setAt a i x =>
    obtain ⟨st, at_a, ready⟩ := models.usable allowed
    by_cases inside : i < st.elements.length
    · cases st with
      | held vs =>
        obtain ⟨m', done, models'⟩ := models.setAt_inside at_a inside x
        exact ⟨false, m', own, _, done, .setAt at_a inside, models'⟩
      | bare n =>
        obtain rfl := ready n rfl
        exact absurd inside (Nat.not_lt_zero i)
    · have outside := Nat.le_of_not_lt inside
      exact ⟨true, m, own, sts, ⟨_, models.setAt_outside at_a outside x⟩, .outside at_a outside,
        models⟩
  | clear a =>
    have below : a < sts.length := models.count ▸ allowed
    obtain ⟨m', sts', done, spec, models'⟩ := models.clear (List.getElem?_eq_getElem below)
    exact ⟨false, m', own, sts', done, spec, models'⟩
  | reinit granted a n =>
    have below : a < sts.length := models.count ▸ allowed
    obtain ⟨m', own', sts', done, spec, models'⟩ :=
      models.reinit (List.getElem?_eq_getElem below) granted n
    exact ⟨!granted, m', own', sts', done, spec, models'⟩
  | merge a source =>
    obtain ⟨asked, asked', different⟩ := allowed
    obtain ⟨st, at_a, ready⟩ := models.usable asked
    obtain ⟨src, at_s, ys, written, counts⟩ := models.written asked'
    obtain ⟨thrown, m', own', st', left, appended, models'⟩ :=
      models.merge at_a ready at_s written counts different
    exact ⟨thrown, m', own', _, left, .merge at_a at_s appended, models'⟩

theorem observed (models : Models m own sts) (at_a : sts[a]? = some st) (ready : st.Ready) :
    ∃ slots, NgxArray.Observed m (some a) slots ∧ slots.map m.load = st.elements := by
  have stands := models.stands a st at_a
  cases st with
  | held vs =>
    obtain ⟨arr, slotted, -⟩ := stands
    refine ⟨_, NgxArray.observed_some slotted.header slotted.block, ?_⟩
    rw [slotted.nelts, List.map_map]
    refine List.ext_getElem (by simp [ArrayState.elements]) fun i inside inside' => ?_
    simp only [List.length_map, List.length_range] at inside
    simpa [ArrayState.elements] using slotted.load inside
  | bare n =>
    obtain rfl := ready n rfl
    obtain ⟨nalloc, header, -⟩ := stands
    exact ⟨[], NgxArray.observed_none header rfl, rfl⟩

theorem start (answers : List Growth) : Models { answers } id ([] : List (ArrayState T)) where
  count := rfl
  stands a st at_a := by simp at at_a
  apart a a' vs vs' at_a := by simp at at_a

end Models

theorem ArrayOp.Left.unique {op : ArrayOp T} {m m₁ m₂ : ArrayMem T} {thrown thrown' : Bool}
    (left : op.Left m thrown m₁) (left' : op.Left m thrown' m₂) : thrown = thrown' ∧ m₁ = m₂ := by
  cases thrown <;> cases thrown' <;> simp [ArrayOp.Left, Leaves] at left left'
  · rw [left] at left'
    exact ⟨rfl, (Outcome.ok.inj left').2⟩
  · obtain ⟨e, raised⟩ := left'
    simp [left] at raised
  · obtain ⟨e, raised⟩ := left
    simp [left'] at raised
  · obtain ⟨e, raised⟩ := left
    obtain ⟨e', raised'⟩ := left'
    rw [raised] at raised'
    exact ⟨rfl, (Outcome.raised.inj raised').2⟩

/-- Whatever arrays were made, and however often the pool had no memory for one of them: each
shows the elements that its operations make, through every observer, unless it has lost its
block in a refused `reinit` and an element was appended since. Then its size says one, until it
is cleared or initialised again. No operation on the others is undefined. -/
theorem arrays_refine_sequences {acts : List (ArrayOp T × Bool)} {answers : List Growth}
    {m : ArrayMem T} (run : Run ArrayOp.Step { answers } acts m) :
    ∃ sts, Run (fun sts act sts' => act.1.Spec sts act.2 sts') [] acts sts ∧
      (∀ a st, sts[a]? = some st → st.Ready → ∃ slots, NgxArray.Observed m (some a) slots ∧
        slots.map m.load = st.elements) ∧
      (∀ a st, sts[a]? = some st → NgxArray.size (some a) m = .ok st.elements.length m ∧
        (m.usable a = true ↔ st.Ready)) ∧
      ∀ op : ArrayOp T, op.Allowed m → ∃ thrown m', ArrayOp.Step m (op, thrown) m' := by
  obtain ⟨sts, abstract, own, models⟩ : ∃ sts,
      Run (fun sts act sts' => act.1.Spec sts act.2 sts') [] acts sts ∧
        ∃ own, Models m own sts := by
    refine run.refines (R := fun m sts => ∃ own, Models m own sts) ?_ ⟨id, Models.start answers⟩
    rintro m ⟨op, thrown⟩ m' sts ⟨own, models⟩ ⟨allowed, left⟩
    obtain ⟨thrown', m'', own', sts', left', spec, models'⟩ := models.step allowed
    obtain ⟨rfl, rfl⟩ := left.unique left'
    exact ⟨sts', spec, own', models'⟩
  refine ⟨sts, abstract, fun a st at_a => models.observed at_a, fun a st at_a => ⟨?_, ?_⟩,
    fun op allowed => ?_⟩
  · obtain ⟨arr, header, nelts, -⟩ := models.header at_a
    rw [← nelts]
    exact NgxArray.size_apply header
  · refine ⟨fun asked => ?_, models.usable_of_ready at_a⟩
    obtain ⟨st', at_a', ready⟩ := models.usable asked
    obtain rfl := Option.some.inj (at_a.symm.trans at_a')
    exact ready
  · obtain ⟨thrown, m', -, -, left, -⟩ := models.step allowed
    exact ⟨thrown, m', allowed, left⟩

/-- Two arrays are made; the first is full and has to move, and the second is merged into it.
Then the second loses its block, counts an element that is not there, and is initialised again. -/
theorem arrays_refine_sequences_merged : ∃ (m : ArrayMem Nat) (sts : List (ArrayState Nat)),
    Run (fun sts (act : ArrayOp Nat × Bool) sts' => act.1.Spec sts act.2 sts') []
      [(.create true 1, false), (.create true 2, false), (.push 0 7, false), (.push 1 8, false),
        (.merge 0 1, false), (.setAt 1 3 9, true), (.push 0 6, true), (.reinit false 1 0, true),
        (.push 1 5, true), (.reinit true 1 0, false), (.prepare 1, false)] sts ∧
      ∀ a st, sts[a]? = some st → st.Ready → ∃ slots, NgxArray.Observed m (some a) slots ∧
        slots.map m.load = st.elements := by
  have run : Run ArrayOp.Step { answers := [.moved, .refused] }
      [(.create true 1, false), (.create true 2, false), (.push 0 7, false), (.push 1 8, false),
        (.merge 0 1, false), (.setAt 1 3 9, true), (.push 0 6, true), (.reinit false 1 0, true),
        (.push 1 5, true), (.reinit true 1 0, false), (.prepare 1, false)] _ :=
    .cons ⟨by decide, rfl⟩ <| .cons ⟨by decide, rfl⟩ <| .cons ⟨by decide, rfl⟩ <|
      .cons ⟨by decide, rfl⟩ <| .cons ⟨by decide, rfl⟩ <| .cons ⟨by decide, _, rfl⟩ <|
        .cons ⟨by decide, _, rfl⟩ <| .cons ⟨by decide, _, rfl⟩ <| .cons ⟨by decide, _, rfl⟩ <|
          .cons ⟨by decide, rfl⟩ <| .cons ⟨by decide, rfl⟩ <| .nil _
  obtain ⟨sts, abstract, observed, -⟩ := arrays_refine_sequences run
  exact ⟨_, sts, abstract, observed⟩

end NgxCpp
