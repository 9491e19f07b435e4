import NgxCpp.NgxArrayMerge
import NgxCpp.Foundation.Sim

/-! What `reshape` and `reinit` leave of a list and of an array when there is no memory
for the new elements: nginx's initialisers write to the struct that is in use. -/

namespace NgxCpp
open Foundation

variable {T : Type}

namespace NgxList

/-- Pushes and visits of list `l` go in `m'` as in `m`, however the pool answers. -/
def Alike (l : Nat) (m m' : ListMem T) : Prop :=
  ∀ grants xs, Outcome.Rel (fun m m' => m.shown l = m'.shown l) (· = ·)
    (Exec.each (push l) xs { m with grants }) (Exec.each (push l) xs { m' with grants })

/-- When `reshape` or `reinit` throws, the list is as before. -/
def FailureHarmless (m : ListMem T) (l n : Nat) : Prop :=
  ∀ e m', reshape l n m = .raised e m' ∨ reinit l n m = .raised e m' → Alike l m m'

section Failure

variable {m : ListMem T} {l n : Nat} {hdr : NgxListT} {first last : NgxListPart}
  {sh : ListShape T} {own : Owners}

def withoutArray (m : ListMem T) (hdr : NgxListT) (first : NgxListPart) (grants : List Bool) :
    ListMem T :=
  { m with grants, parts := m.parts.write hdr.part { first with elts := none } }

theorem reshape_refused (header : m.lists.read l = some hdr)
    (found : m.parts.read hdr.part = some first) (refused : granted m.grants = false) :
    reshape l n m = .raised ⟨ngxError⟩ (withoutArray m hdr first m.grants.tail) := by
  have init := ngxListInit_eq (if n = 0 then hdr.nalloc else n) header found
  simp only [refused, Bool.false_eq_true, if_false] at init
  rw [reshape, Exec.bind_ok _ (readList_ok header), Exec.bind_ok _ init]
  rfl

theorem reshape_granted (header : m.lists.read l = some hdr)
    (found : m.parts.read hdr.part = some first) (allowed : granted m.grants = true) :
    ∃ m', reshape l n m = .ok () m' := by
  have init := ngxListInit_eq (if n = 0 then hdr.nalloc else n) header found
  simp only [allowed, if_true] at init
  rw [reshape, Exec.bind_ok _ (readList_ok header), Exec.bind_ok _ init]
  exact ⟨_, rfl⟩

theorem Alike.refl (l : Nat) (m : ListMem T) (grants : List Bool) :
    Alike l m { m with grants } := by
  intro grants' xs
  cases Exec.each (push l) xs { m with grants := grants' } with
  | ok u m' => exact .ok rfl rfl
  | raised e m' => exact .raised rfl
  | undefined => exact .undefined
  | exhausted => exact .exhausted

theorem push_void_cases {x : T} (header : m.lists.read l = some hdr)
    (part : m.parts.read hdr.last = some last) (full : last.nelts = hdr.nalloc)
    (void : hdr.nalloc = 0) :
    push l x m = (if granted m.grants then
        if granted m.grants.tail then .undefined
        else .raised ⟨ngxError⟩ { m with grants := m.grants.tail.tail }
      else .raised ⟨ngxError⟩ { m with grants := m.grants.tail }) := by
  have fresh : (m.linkPart l hdr last m.grants.tail.tail).arrays.read m.arrays.size = some [] := by
    simp [ListMem.linkPart, void]
  have stored : storeSlot ⟨m.arrays.size, 0⟩ x (m.linkPart l hdr last m.grants.tail.tail) =
      .undefined := by
    simp [storeSlot, ListMem.store, fresh]
  rw [push_full_apply header part full, stored]

theorem alike_void (header : m.lists.read l = some hdr)
    (found : m.parts.read hdr.part = some first) (void : hdr.nalloc = 0)
    (single : hdr.last = hdr.part) (none : first.nelts = 0) :
    Alike l m (withoutArray m hdr first m.grants.tail) := by
  intro grants xs
  have found' : ({ withoutArray m hdr first m.grants.tail with grants } : ListMem T).parts.read
      hdr.part = some { first with elts := Option.none } := Heap.read_write_self found
  have shown : ∀ grants, ({ m with grants } : ListMem T).shown l = some [] :=
    fun grants => shown_none header found (.inr none)
  have shown' : ∀ grants, ({ withoutArray m hdr first m.grants.tail with grants } :
      ListMem T).shown l = some [] := fun grants => shown_none header found' (Or.inl rfl)
  cases xs with
  | nil => exact .ok rfl ((shown _).trans (shown' _).symm)
  | cons x xs =>
    have pushed := push_void_cases (m := { m with grants }) (x := x) header (single ▸ found)
      (none.trans void.symm) void
    have full : ({ first with elts := Option.none } : NgxListPart).nelts = hdr.nalloc :=
      none.trans void.symm
    have pushed' := push_void_cases (m := { withoutArray m hdr first m.grants.tail with grants })
      (x := x) header (single ▸ found') full void
    rw [Exec.each, Exec.bind_apply, Exec.bind_apply, pushed, pushed']
    cases granted grants with
    | false => exact .raised ((shown _).trans (shown' _).symm)
    | true =>
      cases granted grants.tail with
      | false => exact .raised ((shown _).trans (shown' _).symm)
      | true => exact .undefined

theorem not_alike_represented [Inhabited T] (rep : Represents m l sh) (grants : List Bool)
    (found : m.parts.read sh.hdr.part = some first) :
    ¬ Alike l m (withoutArray m sh.hdr first grants) := by
  intro alike
  let m0 : ListMem T := { m with grants := [] }
  let m1 : ListMem T := { withoutArray m sh.hdr first grants with grants := [] }
  have rep0 : Represents m0 l sh := rep.grants []
  have found1 : m1.parts.read sh.hdr.part = some { first with elts := none } :=
    Heap.read_write_self found
  have header1 : m1.lists.read l = some sh.hdr := rep.header
  by_cases none : sh.elems = []
  · obtain ⟨last, slots, at_last, -, nelts, -⟩ := rep.last_part
    obtain ⟨v, after, shape, start, -⟩ := rep.first_part
    obtain ⟨single, empty⟩ := rep.elems_eq_nil none
    have only : sh.hdr.last = sh.hdr.part := by
      rw [ListShape.views, single, List.nil_append, List.cons.injEq] at shape
      rw [start, ← shape.1, rep.last]
    obtain rfl := Option.some.inj (found.symm.trans (only ▸ at_last))
    have zero : first.nelts = 0 := by rw [nelts, empty, List.length_nil]
    have room : ({ first with elts := Option.none } : NgxListPart).nelts ≠ sh.hdr.nalloc := by
      have pos := rep.nalloc_pos
      dsimp only
      omega
    have generous : m0.Generous := by simp [m0, ListMem.Generous]
    obtain ⟨m2, pushed, -⟩ := rep0.push_generous generous default
    have thrown : ∃ m3, push l default m1 = .raised ⟨ngxError⟩ m3 := by
      have prepared := prepare_null header1 (only ▸ found1) room rfl
      rw [if_pos zero] at prepared
      exact ⟨_, Exec.bind_raised _ prepared⟩
    obtain ⟨m3, thrown⟩ := thrown
    have ended := alike [] [default]
    rw [Exec.each, Exec.bind_ok _ pushed, Exec.bind_raised _ thrown] at ended
    cases ended
  · have same := alike [] []
    change Outcome.Rel _ _ (.ok () m0) (.ok () m1) at same
    cases same with
    | ok _ shown =>
      rw [rep0.shown, shown_none header1 found1 (Or.inl rfl)] at shown
      exact none (Option.some.inj shown)

/-- A failed `reshape` or `reinit` leaves the list as it was exactly when the list could
not be used anyway. -/
theorem failed_reshape_list_iff [Inhabited T] (reach : Reachable m)
    (header : m.lists.read l = some hdr)
    (n : Nat) : FailureHarmless m l n ↔ granted m.grants = true ∨ ¬ Usable m hdr := by
  obtain ⟨own, lists⟩ := reach.settled
  obtain ⟨first, last, owned⟩ := lists l hdr header
  have found := owned.at_first
  cases allowed : granted m.grants with
  | true =>
    refine iff_of_true (fun e m' thrown => ?_) (.inl rfl)
    obtain ⟨m2, done⟩ := reshape_granted (n := n) header found allowed
    have same : reinit l n m = .ok () m2 := done
    rw [same, done] at thrown
    simp at thrown
  | false =>
    have refused := reshape_refused (n := n) header found allowed
    have harmless : FailureHarmless m l n ↔ Alike l m (withoutArray m hdr first m.grants.tail) := by
      constructor
      · exact fun all => all _ _ (.inl refused)
      · rintro alike e m' (thrown | thrown)
        · obtain ⟨-, rfl⟩ := Outcome.raised.inj (refused.symm.trans thrown)
          exact alike
        · obtain ⟨-, rfl⟩ := Outcome.raised.inj (refused.symm.trans thrown)
          exact alike
    rw [harmless]
    rcases owned.state with broken | ⟨void, single, none⟩ | ⟨sh, rep, -⟩
    · refine iff_of_true ?_ (.inr ?_)
      · have same : withoutArray m hdr first m.grants.tail =
            { m with grants := m.grants.tail } := by
          rw [withoutArray, ← broken, Heap.write_self found]
        rw [same]
        exact .refl l m _
      · rintro ⟨-, first', a, found', elts⟩
        obtain rfl := Option.some.inj (found.symm.trans found')
        simp [broken] at elts
    · have alike := alike_void header found void single none
      exact iff_of_true alike (.inr fun usable => usable.1 void)
    · obtain rfl := Option.some.inj (rep.header.symm.trans header)
      refine iff_of_false (not_alike_represented rep _ found) (not_or.mpr ⟨by simp, not_not.mpr ?_⟩)
      obtain ⟨v, after, -, -, part⟩ := rep.first_part
      exact ⟨Nat.ne_of_gt rep.nalloc_pos, _, v.array, part, rfl⟩

end Failure

end NgxList

/-- `ngx_array_init`, which stores the result of the allocation before it tests it. The
answer is that of the pool that is passed. -/
def ngxArrayInit (granted : Bool) (a n : Nat) : Ngx (ArrayMem T) Int := do
  let arr ← readArray a
  Exec.modify fun m => m.setArray a { arr with nelts := 0, nalloc := n }
  if granted then
    let block ← newBlock (List.replicate n none)
    Exec.modify fun m => m.setArray a ⟨some block, 0, n⟩
    pure ngxOk
  else
    Exec.modify fun m => m.setArray a ⟨none, 0, n⟩
    pure ngxError

namespace NgxArray

/-- `reshape`. The element size goes to the struct with the other fields, and nothing
reads it while there is no block. -/
def reshape (granted : Bool) (arr : Option Nat) (n : Nat := 0) : Ngx (ArrayMem T) Unit := do
  let a ← get arr
  let hdr ← readArray a
  let rc ← ngxArrayInit granted a (if n = 0 then hdr.nalloc else n)
  NgxException.requireCode rc

def reinit (granted : Bool) (arr : Option Nat) (n : Nat := 0) : Ngx (ArrayMem T) Unit :=
  reshape granted arr n

/-- Pushes and visits of array `a` go in `m'` as in `m`, however the pool answers. -/
def Alike (a : Nat) (m m' : ArrayMem T) : Prop :=
  ∀ answers xs, Outcome.Rel (fun m m' => ∀ ys, m.Shows a ys ↔ m'.Shows a ys) (· = ·)
    (Exec.each (push (some a)) xs { m with answers })
    (Exec.each (push (some a)) xs { m' with answers })

/-- When `reshape` or `reinit` throws, the array is as before. -/
def FailureHarmless (granted : Bool) (m : ArrayMem T) (a n : Nat) : Prop :=
  ∀ e m', reshape granted (some a) n m = .raised e m' ∨ reinit granted (some a) n m = .raised e m' →
    Alike a m m'

section Failure

variable {m : ArrayMem T} {a n b : Nat} {hdr : NgxArrayT} {xs : List T} {x : T}

theorem reshape_apply (granted : Bool) (n : Nat) (header : m.arrays.read a = some hdr) :
    reshape granted (some a) n m =
      if granted then
        .ok () { m with
          arrays := m.arrays.write a ⟨some m.blocks.size, 0, if n = 0 then hdr.nalloc else n⟩
          blocks := m.blocks.alloc (List.replicate (if n = 0 then hdr.nalloc else n) none) }
      else .raised ⟨ngxError⟩ (m.setArray a ⟨none, 0, if n = 0 then hdr.nalloc else n⟩) := by
  have read := readArray_ok header
  rw [reshape, Exec.bind_ok _ (get_some a m), Exec.bind_ok _ read, Exec.bind_apply, ngxArrayInit,
    Exec.bind_ok _ read]
  cases granted <;>
    simp [Exec.bind_apply, ArrayMem.setArray, newBlock, Heap.write_write, NgxException.requireCode,
      NgxException.requireCond, NgxException.raise, ngxOk, ngxError]

theorem Alike.refl (a : Nat) (m : ArrayMem T) : Alike a m m := by
  intro answers xs
  cases Exec.each (push (some a)) xs { m with answers } with
  | ok u m' => exact .ok rfl fun ys => Iff.rfl
  | raised e m' => exact .raised fun ys => Iff.rfl
  | undefined => exact .undefined
  | exhausted => exact .exhausted

theorem prepare_missing (header : m.arrays.read a = some hdr) (missing : hdr.elts = none)
    (none : hdr.nelts = 0) (room : hdr.nalloc ≠ 0) : prepare (some a) m =
      .raised ⟨ngxError⟩ (m.setArray a { hdr with nelts := hdr.nelts + 1 }) := by
  rw [prepare_apply header, if_neg (by omega), bumpArray]
  simp [Exec.bind_apply, missing, none, NgxException.requirePtr, NgxException.raise]

theorem push_missing (header : m.arrays.read a = some hdr) (missing : hdr.elts = none)
    (none : hdr.nelts = 0) (room : hdr.nalloc ≠ 0) (x : T) : push (some a) x m =
      .raised ⟨ngxError⟩ (m.setArray a { hdr with nelts := hdr.nelts + 1 }) :=
  Exec.bind_raised _ (prepare_missing header missing none room)

theorem push_void (header : m.arrays.read a = some hdr) (missing : hdr.elts = none)
    (none : hdr.nelts = 0) (void : hdr.nalloc = 0)
    (allowed : m.answers.head?.getD .moved ≠ .refused)
    (x : T) : push (some a) x m = .undefined := by
  let m1 : ArrayMem T := { m with answers := m.answers.tail, blocks := m.blocks.alloc [] }
  have grown : growArray hdr m =
      .ok (some { hdr with elts := some m.blocks.size, nalloc := 2 * hdr.nalloc }) m1 := by
    rw [growArray, Exec.bind_ok _ (growth_apply m), missing]
    cases answer : m.answers.head?.getD .moved with
    | refused => exact absurd answer allowed
    | inPlace => simp [moveArray, missing, void, newBlock, Exec.bind_apply, m1]
    | moved => simp [moveArray, missing, void, newBlock, Exec.bind_apply, m1]
  let m2 := m1.setArray a
    { hdr with elts := some m.blocks.size, nelts := hdr.nelts + 1, nalloc := 2 * hdr.nalloc }
  have fresh : readBlock m.blocks.size m2 = .ok [] m2 := readBlock_ok Heap.read_alloc_self
  have prepared : prepare (some a) m = .ok ⟨m.blocks.size, hdr.nelts⟩ m2 :=
    prepare_grown header (none.trans void.symm) grown rfl
  rw [push, Exec.bind_ok _ prepared, storeElt, Exec.bind_ok _ fresh]
  rfl

theorem push_inPlace (filled : Filled m a b hdr xs) (full : hdr.nelts = hdr.nalloc)
    (last : m.answers = [.inPlace]) (x : T) : ∃ m', push (some a) x m = .ok () m' := by
  obtain ⟨m1, grown, room⟩ := (slotted_map.mpr filled).grow_inPlace full (by rw [last]; rfl)
  obtain ⟨m2, stored, -⟩ := room.store filled.header x
  rw [push, Exec.bind_ok _ (prepare_grown filled.header full grown filled.block)]
  exact ⟨m2, stored⟩

def emptied (m : ArrayMem T) (a n : Nat) (hdr : NgxArrayT) : ArrayMem T :=
  m.setArray a ⟨none, 0, if n = 0 then hdr.nalloc else n⟩

theorem emptied_header (header : m.arrays.read a = some hdr) (n : Nat) :
    (emptied m a n hdr).arrays.read a = some ⟨none, 0, if n = 0 then hdr.nalloc else n⟩ :=
  Heap.read_write_self header

theorem shows_missing (header : m.arrays.read a = some hdr) (missing : hdr.elts = none)
    (ys : List T) : m.Shows a ys ↔ ys = [] ∧ hdr.nelts = 0 := by
  constructor
  · rintro ⟨hdr', header', nelts, elements⟩
    obtain rfl := Option.some.inj (header.symm.trans header')
    cases ys with
    | nil => exact ⟨rfl, nelts⟩
    | cons y ys =>
      obtain ⟨b, block, -⟩ := elements 0 (by simp)
      simp [missing] at block
  · rintro ⟨rfl, none⟩
    exact shows_nil header none

theorem not_alike_filled [Inhabited T] (filled : Filled m a b hdr xs) (n : Nat) :
    ¬ Alike a m (emptied m a n hdr) := by
  intro alike
  have header := emptied_header filled.header n
  by_cases some : xs = []
  · subst some
    have none : hdr.nelts = 0 := filled.nelts
    by_cases void : hdr.nalloc = 0
    · have ended := alike [.inPlace] [default]
      obtain ⟨m', pushed⟩ := push_inPlace (m := { m with answers := [.inPlace] })
        (filled.answers _) (none.trans void.symm) rfl (default : T)
      rw [Exec.each, Exec.bind_ok _ pushed] at ended
      by_cases same : n = 0
      · have stuck := push_void (m := { emptied m a n hdr with answers := [.inPlace] }) header rfl
          rfl (by simp [same, void]) (by simp) (default : T)
        rw [Exec.bind_apply, stuck] at ended
        cases ended
      · have thrown := push_missing (m := { emptied m a n hdr with answers := [.inPlace] }) header
          rfl rfl (by simp [same]) (default : T)
        rw [Exec.bind_raised _ thrown] at ended
        cases ended
    · have ended := alike [] [default]
      obtain ⟨m', arr, b', pushed, -⟩ | ⟨refused, -⟩ := (filled.answers []).push void (default : T)
      · have thrown := push_missing (m := { emptied m a n hdr with answers := [] }) header rfl rfl
          (by dsimp only; split <;> assumption) (default : T)
        rw [Exec.each, Exec.bind_ok _ pushed, Exec.bind_raised _ thrown] at ended
        cases ended
      · simp at refused
  · have ended := alike [] []
    change Outcome.Rel _ _ (.ok () _) (.ok () _) at ended
    cases ended with
    | ok _ shown =>
      have gone := (shown xs).mp (filled.answers []).shows
      rw [shows_missing (m := { emptied m a n hdr with answers := [] }) header rfl] at gone
      exact some gone.1

theorem alike_missing_iff [Inhabited T] (header : m.arrays.read a = some hdr)
    (missing : hdr.elts = none) (n : Nat) : Alike a m (emptied m a n hdr) ↔
      hdr.nelts = 0 ∧ (n = 0 ∨ hdr.nalloc ≠ 0) := by
  have header' := emptied_header header n
  constructor
  · intro alike
    have none : hdr.nelts = 0 := by
      have ended := alike [] []
      change Outcome.Rel _ _ (.ok () _) (.ok () _) at ended
      cases ended with
      | ok _ shown =>
        have empty := (shown []).mpr (shows_nil (m := { emptied m a n hdr with answers := [] })
          header' rfl)
        exact ((shows_missing (m := { m with answers := [] }) header missing []).mp empty).2
    refine ⟨none, ?_⟩
    by_contra other
    rw [not_or, not_not] at other
    have ended := alike [] [default]
    have stuck := push_void (m := { m with answers := [] }) header missing none other.2 (by simp)
      (default : T)
    have thrown := push_missing (m := { emptied m a n hdr with answers := [] }) header' rfl rfl
      (by simp [other.1]) (default : T)
    rw [Exec.each, Exec.bind_raised _ thrown, Exec.bind_apply, stuck] at ended
    cases ended
  · rintro ⟨none, same | room⟩
    · have unchanged : emptied m a n hdr = m := by
        have fields : (⟨Option.none, 0, hdr.nalloc⟩ : NgxArrayT) = hdr := by rw [← missing, ← none]
        rw [emptied, if_pos same, fields, ArrayMem.setArray, Heap.write_self header]
      rw [unchanged]
      exact .refl a m
    · intro answers xs
      cases xs with
      | nil =>
        refine .ok rfl fun ys => ?_
        rw [shows_missing (m := { m with answers }) header missing,
          shows_missing (m := { emptied m a n hdr with answers }) header' rfl, none]
      | cons x xs =>
        have thrown := push_missing (m := { m with answers }) header missing none room x
        have thrown' := push_missing (m := { emptied m a n hdr with answers }) header' rfl rfl
          (by dsimp only; split <;> assumption) x
        rw [Exec.each, Exec.bind_raised _ thrown, Exec.bind_raised _ thrown']
        have counted : (ArrayMem.setArray { m with answers } a
            { hdr with nelts := hdr.nelts + 1 }).arrays.read a =
              some { hdr with nelts := hdr.nelts + 1 } := Heap.read_write_self header
        have counted' : (ArrayMem.setArray { emptied m a n hdr with answers } a
            ⟨Option.none, 0 + 1, if n = 0 then hdr.nalloc else n⟩).arrays.read a =
              some ⟨Option.none, 0 + 1, if n = 0 then hdr.nalloc else n⟩ :=
          Heap.read_write_self header'
        refine .raised fun ys => ?_
        rw [shows_missing counted missing, shows_missing counted' rfl]
        simp

/-- A failed `reshape` or `reinit` leaves the array as it was exactly when the array had
neither a block nor elements and is not given room by its header either. -/
theorem failed_reshape_array_iff [Inhabited T] (granted : Bool) (n : Nat)
    (header : m.arrays.read a = some hdr)
    (held : hdr.elts = none ∨ ∃ b xs, Filled m a b hdr xs) :
    FailureHarmless granted m a n ↔
      granted = true ∨ (hdr.elts = none ∧ hdr.nelts = 0 ∧ (n = 0 ∨ hdr.nalloc ≠ 0)) := by
  have ends := reshape_apply granted n header
  cases granted with
  | true =>
    refine iff_of_true (fun e m' thrown => ?_) (.inl rfl)
    rw [reinit, ends] at thrown
    simp at thrown
  | false =>
    have harmless : FailureHarmless false m a n ↔ Alike a m (emptied m a n hdr) := by
      constructor
      · exact fun all => all _ _ (.inl ends)
      · rintro alike e m' (thrown | thrown)
        · obtain ⟨-, rfl⟩ := Outcome.raised.inj (ends.symm.trans thrown)
          exact alike
        · obtain ⟨-, rfl⟩ := Outcome.raised.inj (ends.symm.trans thrown)
          exact alike
    rw [harmless]
    rcases held with missing | ⟨b, xs, filled⟩
    · simp [alike_missing_iff header missing n, missing]
    · refine iff_of_false (not_alike_filled filled n) ?_
      simp [filled.block]

end Failure

end NgxArray

private def poorList : ListMem Nat where
  lists := ⟨[⟨0, 0, 1⟩]⟩
  parts := ⟨[⟨some 0, 1, none⟩]⟩
  arrays := ⟨[[some 7]]⟩
  grants := [false]

private theorem poorList_reachable : Reachable poorList := by
  have created : Reachable _ :=
    (Reachable.start [true, true, false]).step (.op (T := Nat) (.create 1) rfl)
  exact created.step (.op (.push 0 7) rfl)

private def oneElement : ArrayMem Nat where
  arrays := ⟨[⟨some 0, 1, 1⟩]⟩
  blocks := ⟨[[some 7]]⟩

end NgxCpp
