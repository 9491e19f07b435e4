import NgxCpp.NgxArray
import NgxCpp.NgxListMerge

/-! `NgxArray::merge` of any array into any array, itself among them, beside the
merge of lists. -/

namespace NgxCpp
open Foundation

variable {T : Type}

namespace ArrayMem

def Shows (m : ArrayMem T) (a : Nat) (xs : List T) : Prop :=
  ∃ arr, m.arrays.read a = some arr ∧ arr.nelts = xs.length ∧
    ∀ (i : Nat) (inside : i < xs.length), ∃ b, arr.elts = some b ∧ m.load ⟨b, i⟩ = some xs[i]

/-- Each array has a block of its own with its elements, or after a failed
initialisation no block and no elements. -/
structure WellFormed (m : ArrayMem T) : Prop where
  held : ∀ a arr, m.arrays.read a = some arr →
    (arr.elts = none ∧ arr.nelts = 0) ∨ ∃ b xs, Filled m a b arr xs
  apart : ∀ a a' arr arr' b, a ≠ a' → m.arrays.read a = some arr → m.arrays.read a' = some arr' →
    arr.elts = some b → arr'.elts ≠ some b

end ArrayMem

namespace NgxArray

/-- What a merge of an array of `ys` into an array of `xs` ends with: all of `ys`
appended, or a throw after a prefix, and that for want of memory. -/
def Merged (m : ArrayMem T) (d s : Nat) (xs ys : List T) :
    Outcome NgxException (ArrayMem T) Unit → Prop
  | .ok _ m' => m'.Shows d (xs ++ ys) ∧ (d ≠ s → m'.Shows s ys)
  | .raised _ m' => (∃ zs, zs <+: ys ∧ m'.Shows d (xs ++ zs)) ∧ (d ≠ s → m'.Shows s ys) ∧
      .refused ∈ m.answers
  | .undefined => False
  | .exhausted => False

/-- However full arrays are answered, the merge of `s` into `d` comes to such an end. -/
def MergeAppends (m : ArrayMem T) (d s : Nat) : Prop :=
  ∀ xs ys answers, m.Shows d xs → m.Shows s ys → ∃ fuel,
    Merged { m with answers } d s xs ys (merge fuel (some d) (some s) { m with answers })

end NgxArray

section Shows

variable {m : ArrayMem T} {a b i : Nat} {arr : NgxArrayT} {xs ys : List T}

theorem Filled.load (filled : Filled m a b arr xs) (inside : i < xs.length) :
    m.load ⟨b, i⟩ = some xs[i] := by
  obtain ⟨slots, found, -, starts⟩ := filled.stored
  have value := congrArg (fun xs => xs[i]?) starts
  simp only [List.getElem?_take, inside, if_true, List.getElem?_map] at value
  simp [ArrayMem.load, found, value, List.getElem?_eq_getElem inside]

theorem Filled.shows (filled : Filled m a b arr xs) : m.Shows a xs :=
  ⟨arr, filled.header, filled.nelts, fun _ inside => ⟨b, filled.block, filled.load inside⟩⟩

theorem ArrayMem.Shows.unique (shows : m.Shows a xs) (shows' : m.Shows a ys) : xs = ys := by
  obtain ⟨arr, header, nelts, elements⟩ := shows
  obtain ⟨arr', header', nelts', elements'⟩ := shows'
  obtain rfl := Option.some.inj (header.symm.trans header')
  refine List.ext_getElem (nelts.symm.trans nelts') fun i inside inside' => ?_
  obtain ⟨b, block, loaded⟩ := elements i inside
  obtain ⟨b', block', loaded'⟩ := elements' i inside'
  obtain rfl := Option.some.inj (block.symm.trans block')
  exact Option.some.inj (loaded.symm.trans loaded')

theorem shows_nil (header : m.arrays.read a = some arr) (none : arr.nelts = 0) : m.Shows a [] :=
  ⟨arr, header, none, fun i inside => by simp at inside⟩

theorem Filled.answers (filled : Filled m a b arr xs) (answers : List Growth) :
    Filled { m with answers } a b arr xs :=
  ⟨filled.header, filled.block, filled.nelts, filled.stored⟩

theorem Filled.keep {m' : ArrayMem T} {c : Nat} (filled : Filled m a b arr xs)
    (header : m'.arrays.read a = m.arrays.read a) (different : b ≠ c)
    (blocks : ∀ b slots, b ≠ c → m.blocks.read b = some slots → m'.blocks.read b = some slots) :
    Filled m' a b arr xs := by
  obtain ⟨slots, found, shape⟩ := filled.stored
  exact ⟨header.trans filled.header, filled.block, filled.nelts, slots,
    blocks b slots different found, shape⟩

theorem ArrayMem.WellFormed.push {x : T} {m' : ArrayMem T} (wf : m.WellFormed)
    (header : m.arrays.read a = some arr) (block : arr.elts ≠ none) (pos : arr.nalloc ≠ 0)
    (h : NgxArray.push (some a) x m = .ok () m') : m'.WellFormed := by
  obtain ⟨missing, -⟩ | ⟨b, xs, filled⟩ := wf.held a arr header
  · exact absurd missing block
  · obtain ⟨m2, arr2, b2, pushed, filled2, -, place, arrays, blocks, -⟩ | ⟨-, thrown⟩ :=
      filled.push pos x
    · obtain ⟨-, rfl⟩ := Outcome.ok.inj (h.symm.trans pushed)
      have others : ∀ c arrc bc, c ≠ a → m'.arrays.read c = some arrc → arrc.elts = some bc →
          bc ≠ b ∧ bc ≠ b2 := by
        intro c arrc bc different at_c elts
        rw [arrays c different] at at_c
        have apart : bc ≠ b := fun same =>
          wf.apart a c arr arrc b different.symm header at_c filled.block (same ▸ elts)
        obtain ⟨missing, -⟩ | ⟨bc', ys, filledc⟩ := wf.held c arrc at_c
        · simp [missing] at elts
        · obtain rfl := Option.some.inj (elts.symm.trans filledc.block)
          obtain ⟨slots, found, -⟩ := filledc.stored
          refine ⟨apart, ?_⟩
          rcases place with rfl | rfl
          · exact apart
          · exact Nat.ne_of_lt (Heap.read_lt found)
      refine ⟨fun c arrc at_c => ?_, fun c c' arrc arrc' bc different at_c at_c' elts => ?_⟩
      · by_cases same : c = a
        · subst same
          obtain rfl := Option.some.inj (filled2.header.symm.trans at_c)
          exact .inr ⟨b2, _, filled2⟩
        · have old := at_c
          rw [arrays c same] at old
          refine (wf.held c arrc old).imp_right ?_
          rintro ⟨bc, ys, filledc⟩
          obtain ⟨apart, -⟩ := others c arrc bc same at_c filledc.block
          exact ⟨bc, ys, filledc.keep (arrays c same) apart blocks⟩
      · by_cases same : c = a
        · subst same
          obtain rfl := Option.some.inj (filled2.header.symm.trans at_c)
          obtain rfl := Option.some.inj (elts.symm.trans filled2.block)
          exact fun elts' => (others c' arrc' bc different.symm at_c' elts').2 rfl
        · by_cases same' : c' = a
          · subst same'
            obtain rfl := Option.some.inj (filled2.header.symm.trans at_c')
            rw [filled2.block]
            exact fun both => (others c arrc bc same at_c elts).2 (Option.some.inj both).symm
          · rw [arrays c same] at at_c
            rw [arrays c' same'] at at_c'
            exact wf.apart c c' arrc arrc' bc different at_c at_c' elts
    · simp [thrown] at h

end Shows

namespace NgxArray

variable {m m' : ArrayMem T} {d s b i : Nat} {arr : NgxArrayT} {xs ys : List T} {x : T}

theorem assign_eq_push {v : Slot} {vs : List (Option T)} (slotted : Slotted m d b arr vs)
    (pos : arr.nalloc ≠ 0) (other : v.array ≠ b) (shown : m.load v = some x) :
    assign (some d) v m = push (some d) x m := by
  obtain ⟨m1, arr1, b1, prepared, room, -⟩ | ⟨-, prepared⟩ := slotted.prepare pos
  · obtain ⟨slots, found, value⟩ := Option.bind_eq_some_iff.mp shown
    have loaded : loadElt v (m1.setArray d { arr1 with nelts := arr1.nelts + 1 }) =
        .ok x (m1.setArray d { arr1 with nelts := arr1.nelts + 1 }) :=
      Exec.deref_some (Option.bind_eq_some_iff.mpr ⟨slots, room.others _ _ other found, value⟩)
    rw [assign, push, Exec.bind_ok _ prepared, Exec.bind_ok _ prepared, Exec.bind_ok _ loaded]
  · rw [assign, push, Exec.bind_raised _ prepared, Exec.bind_raised _ prepared]

theorem visit_reads (filled : Filled m s b arr ys) :
    Exec.view id (elts (some s)) m = .ok (some b) m ∧
      Exec.view id (size (some s)) m = .ok ys.length m := by
  rw [← filled.block, ← filled.nelts]
  exact ⟨Exec.view_ok (s := m) (elts_apply filled.header),
    Exec.view_ok (s := m) (size_apply filled.header)⟩

/-- The two arrays of a merge, with room in the destination and a block each. -/
structure Pair (m : ArrayMem T) (d s bs : Nat) (arrs : NgxArrayT) (xs ys : List T) : Prop where
  left : ∃ bd arrd, Filled m d bd arrd xs ∧ arrd.nalloc ≠ 0 ∧ bd ≠ bs
  right : Filled m s bs arrs ys

variable {bs : Nat} {arrs : NgxArrayT}

namespace Pair

theorem shows (pair : Pair m d s bs arrs xs ys) : m.Shows d xs := by
  obtain ⟨bd, arrd, filled, -⟩ := pair.left
  exact filled.shows

theorem answers (pair : Pair m d s bs arrs xs ys) (answers : List Growth) :
    Pair { m with answers } d s bs arrs xs ys := by
  obtain ⟨bd, arrd, filled, pos, apart⟩ := pair.left
  exact ⟨⟨bd, arrd, filled.answers answers, pos, apart⟩, pair.right.answers answers⟩

theorem assign (pair : Pair m d s bs arrs xs ys) (different : d ≠ s) (inside : i < ys.length) :
    (∃ m', NgxArray.assign (some d) ⟨bs, i⟩ m = .ok () m' ∧
        Pair m' d s bs arrs (xs ++ [ys[i]]) ys ∧ (.refused ∉ m.answers → .refused ∉ m'.answers)) ∨
      (.refused ∈ m.answers ∧ ∃ e answers,
        NgxArray.assign (some d) ⟨bs, i⟩ m = .raised e { m with answers }) := by
  obtain ⟨bd, arrd, filled, pos, apart⟩ := pair.left
  rw [assign_eq_push (slotted_map.mpr filled) pos apart.symm (pair.right.load inside)]
  obtain ⟨m', arr', b', pushed, filled', pos', place, arrays, blocks, calm⟩ | ⟨refused, thrown⟩ :=
    filled.push pos ys[i]
  · have apart' : b' ≠ bs := by
      rcases place with rfl | rfl
      · exact apart
      · obtain ⟨slots, found, -⟩ := pair.right.stored
        exact Nat.ne_of_gt (Heap.read_lt found)
    have kept := pair.right.keep (arrays s different.symm) apart.symm blocks
    exact .inl ⟨m', pushed, ⟨⟨b', arr', filled', pos', apart'⟩, kept⟩, calm⟩
  · exact .inr ⟨refused, _, _, thrown⟩

theorem visitFrom (pair : Pair m d s bs arrs xs ys) (different : d ≠ s) (fuel : Nat)
    (within : i ≤ ys.length) (enough : ys.length < i + fuel) :
    (∃ m', NgxArray.visitFrom id (NgxArray.assign (some d)) (some s) (some bs) fuel i m =
        .ok () m' ∧ Pair m' d s bs arrs (xs ++ ys.drop i) ys) ∨
      (.refused ∈ m.answers ∧ ∃ e m' zs,
        NgxArray.visitFrom id (NgxArray.assign (some d)) (some s) (some bs) fuel i m =
          .raised e m' ∧ zs <+: ys.drop i ∧ Pair m' d s bs arrs (xs ++ zs) ys) := by
  induction fuel generalizing m xs i with
  | zero => omega
  | succ fuel ih =>
    obtain ⟨-, counted⟩ := visit_reads pair.right
    have slot : Exec.view id (element (some bs) i) m = .ok ⟨bs, i⟩ m := Exec.view_ok (s := m) rfl
    rw [NgxArray.visitFrom, Exec.bind_ok _ counted]
    by_cases inside : i < ys.length
    · rw [if_pos inside, Exec.bind_ok _ slot, List.drop_eq_getElem_cons inside]
      obtain ⟨m', done, pair', calm⟩ | ⟨refused, e, answers, thrown⟩ := pair.assign different inside
      · rw [Exec.bind_ok _ done]
        obtain ⟨m2, run, pair2⟩ | ⟨refused, e, m2, zs, run, pre, pair2⟩ :=
          ih pair' inside (by omega)
        · exact .inl ⟨m2, run, by simpa using pair2⟩
        · refine .inr ⟨?_, e, m2, ys[i] :: zs, run, (List.prefix_cons_inj _).mpr pre,
            by simpa using pair2⟩
          exact Decidable.byContradiction fun none => calm none refused
      · exact .inr ⟨refused, e, _, [], Exec.bind_raised _ thrown, List.nil_prefix,
          by simpa using pair.answers answers⟩
    · rw [if_neg inside, List.drop_of_length_le (Nat.le_of_not_lt inside)]
      exact .inl ⟨m, rfl, by simpa using pair⟩

theorem merged (pair : Pair m d s bs arrs xs ys) (different : d ≠ s) :
    Merged m d s xs ys (merge (ys.length + 1) (some d) (some s) m) := by
  obtain ⟨begun, -⟩ := visit_reads pair.right
  rw [merge, visit, Exec.bind_ok _ begun]
  obtain ⟨m', run, pair'⟩ | ⟨refused, e, m', zs, run, pre, pair'⟩ :=
    pair.visitFrom different (ys.length + 1) (Nat.zero_le _) (by omega)
  · rw [run]
    exact ⟨pair'.shows, fun _ => pair'.right.shows⟩
  · rw [run]
    exact ⟨⟨zs, pre, pair'.shows⟩, fun _ => pair'.right.shows, refused⟩

end Pair

/-- An array with a block that counts `n` elements, and a pool that refuses nothing. -/
def Counts (m : ArrayMem T) (d n : Nat) : Prop :=
  ∃ arr b, m.arrays.read d = some arr ∧ arr.elts = some b ∧ arr.nelts = n ∧ m.answers = []

theorem growArray_calm (arr : NgxArrayT) (calm : m.answers = []) :
    growArray arr m = .undefined ∨ ∃ old : List (Option T), growArray arr m =
      .ok (some { arr with elts := some m.blocks.size, nalloc := 2 * arr.nalloc })
        { m with blocks :=
          m.blocks.alloc (old.take arr.nalloc ++ List.replicate arr.nalloc none) } := by
  have asked : growth m = .ok .moved m := by
    obtain ⟨arrays, blocks, answers⟩ := m
    subst calm
    rfl
  rw [growArray, Exec.bind_ok _ asked]
  cases block : arr.elts with
  | none =>
    dsimp only
    rw [Exec.bind_apply, moveArray, block]
    dsimp only
    by_cases void : arr.nalloc = 0
    · rw [if_pos void]
      exact .inr ⟨[], rfl⟩
    · rw [if_neg void]
      exact .inl rfl
  | some b =>
    cases found : m.blocks.read b with
    | none =>
      have dangling : readBlock b m = .undefined := Exec.deref_none found
      dsimp only
      rw [Exec.bind_apply, moveArray, block]
      dsimp only
      rw [Exec.bind_apply, dangling]
      exact .inl rfl
    | some slots => exact .inr ⟨slots, Exec.bind_ok _ (moveArray_some block found)⟩

theorem Counts.prepare {n : Nat} (counts : Counts m d n) :
    NgxArray.prepare (some d) m = .undefined ∨
      ∃ slot m', NgxArray.prepare (some d) m = .ok slot m' ∧ Counts m' d (n + 1) := by
  obtain ⟨arr, b, header, block, rfl, calm⟩ := counts
  by_cases full : arr.nelts = arr.nalloc
  · obtain stuck | ⟨old, grown⟩ := growArray_calm arr calm
    · rw [prepare_apply header, if_pos full, Exec.bind_apply, Exec.bind_apply, stuck]
      exact .inl rfl
    · exact .inr ⟨_, _, prepare_grown header full grown rfl, _, m.blocks.size,
        Heap.read_write_self header, rfl, rfl, calm⟩
  · exact .inr ⟨_, _, prepare_room header full block, _, b, Heap.read_write_self header, block, rfl,
      calm⟩

theorem storeElt_cases (slot : Slot) (x : T) (m : ArrayMem T) : storeElt slot x m = .undefined ∨
    ∃ m', storeElt slot x m = .ok () m' ∧ m'.arrays = m.arrays ∧ m'.answers = m.answers := by
  cases found : m.blocks.read slot.array with
  | none =>
    have dangling : readBlock slot.array m = .undefined := Exec.deref_none found
    rw [storeElt, Exec.bind_apply, dangling]
    exact .inl rfl
  | some slots =>
    rw [storeElt, Exec.bind_ok _ (readBlock_ok found)]
    split
    · exact .inr ⟨_, rfl, rfl, rfl⟩
    · exact .inl rfl

theorem loadElt_cases (slot : Slot) (m : ArrayMem T) : (loadElt slot m = .undefined) ∨
    ∃ x, loadElt slot m = .ok x m := by
  cases found : m.load slot with
  | none => exact .inl (Exec.deref_none found)
  | some x => exact .inr ⟨x, Exec.deref_some found⟩

theorem Counts.assign {n : Nat} (counts : Counts m d n) (v : Slot) :
    NgxArray.assign (some d) v m = .undefined ∨
      ∃ m', NgxArray.assign (some d) v m = .ok () m' ∧ Counts m' d (n + 1) := by
  rw [NgxArray.assign]
  obtain stuck | ⟨slot, m1, prepared, arr, b, header, block, nelts, calm⟩ := counts.prepare
  · rw [Exec.bind_apply, stuck]
    exact .inl rfl
  · rw [Exec.bind_ok _ prepared]
    obtain stuck | ⟨x, loaded⟩ := loadElt_cases v m1
    · rw [Exec.bind_apply, stuck]
      exact .inl rfl
    · rw [Exec.bind_ok _ loaded]
      obtain stuck | ⟨m2, stored, arrays, answers⟩ := storeElt_cases slot x m1
      · exact .inl stuck
      · exact .inr ⟨m2, stored, arr, b, arrays ▸ header, block, nelts, answers.trans calm⟩

theorem Counts.visitFrom {k : Nat} (counts : Counts m d (i + k + 1)) (p : Option Nat) (fuel : Nat) :
    NgxArray.visitFrom id (NgxArray.assign (some d)) (some d) p fuel i m = .exhausted ∨
      NgxArray.visitFrom id (NgxArray.assign (some d)) (some d) p fuel i m = .undefined := by
  induction fuel generalizing m i with
  | zero => exact .inl rfl
  | succ fuel ih =>
    have counted : Exec.view id (size (some d)) m = .ok (i + k + 1) m := by
      obtain ⟨arr, b, header, block, nelts, calm⟩ := counts
      exact Exec.view_ok (s := m) (nelts ▸ size_apply header)
    rw [NgxArray.visitFrom, Exec.bind_ok _ counted, if_pos (by omega)]
    cases p with
    | none => exact .inr rfl
    | some b =>
      have slot : Exec.view id (element (some b) i) m = .ok ⟨b, i⟩ m := Exec.view_ok (s := m) rfl
      rw [Exec.bind_ok _ slot]
      obtain stuck | ⟨m', done, counts'⟩ := counts.assign ⟨b, i⟩
      · rw [Exec.bind_apply, stuck]
        exact .inr rfl
      · rw [Exec.bind_ok _ done]
        have shifted : i + k + 1 + 1 = i + 1 + k + 1 := by omega
        exact ih (shifted ▸ counts')

theorem assign_ne_ok (header : m.arrays.read d = some arr) (none : arr.nelts = 0)
    (unusable : arr.elts = Option.none ∨ arr.nalloc = 0) (calm : m.answers = []) (v : Slot) :
    NgxArray.assign (some d) v m ≠ .ok () m' := by
  intro done
  obtain ⟨slot, m1, prepared, rest⟩ := Exec.bind_eq_ok.mp done
  by_cases void : arr.nalloc = 0
  · obtain stuck | ⟨old, grown⟩ := growArray_calm arr calm
    · rw [prepare_apply header, if_pos (none.trans void.symm), Exec.bind_apply, Exec.bind_apply,
        stuck] at prepared
      simp at prepared
    · rw [prepare_grown header (none.trans void.symm) grown rfl] at prepared
      obtain ⟨rfl, rfl⟩ := Outcome.ok.inj prepared
      obtain ⟨x, m2, loaded, stored⟩ := Exec.bind_eq_ok.mp rest
      obtain ⟨-, rfl⟩ := Exec.deref_eq_ok.mp loaded
      obtain ⟨slots, m3, read, written⟩ := Exec.bind_eq_ok.mp stored
      obtain ⟨found, rfl⟩ := Exec.deref_eq_ok.mp read
      have fresh := Option.some.inj (Heap.read_alloc_self.symm.trans found)
      simp [← fresh, void, Exec.undefined] at written
  · have missing := unusable.resolve_right void
    have room : arr.nelts ≠ arr.nalloc := by omega
    rw [prepare_apply header, if_neg room] at prepared
    simp [bumpArray, Exec.bind_apply, missing, none] at prepared

theorem not_merged_of_stuck (filled : Filled m s bs arrs ys) (nonempty : ys ≠ [])
    (calm : m.answers = []) (stuck : ∀ v m', NgxArray.assign (some d) v m ≠ .ok () m')
    (fuel : Nat) : ¬ Merged m d s xs ys (merge fuel (some d) (some s) m) := by
  obtain ⟨begun, counted⟩ := visit_reads filled
  rw [merge, visit, Exec.bind_ok _ begun]
  cases fuel with
  | zero => exact id
  | succ fuel =>
    have slot : Exec.view id (element (some bs) 0) m = .ok ⟨bs, 0⟩ m := Exec.view_ok (s := m) rfl
    rw [visitFrom, Exec.bind_ok _ counted, if_pos (List.length_pos_iff.mpr nonempty),
      Exec.bind_ok _ slot, Exec.bind_apply]
    cases first : NgxArray.assign (some d) ⟨bs, 0⟩ m with
    | ok u m' => exact absurd first (stuck _ m')
    | raised e m' =>
      rintro ⟨-, -, refused⟩
      simp [calm] at refused
    | undefined => exact id
    | exhausted => exact id

theorem not_merged_self (filled : Filled m d b arr ys) (nonempty : ys ≠ []) (calm : m.answers = [])
    (fuel : Nat) : ¬ Merged m d d ys ys (merge fuel (some d) (some d) m) := by
  obtain ⟨begun, -⟩ := visit_reads filled
  obtain ⟨k, length⟩ : ∃ k, ys.length = 0 + k + 1 :=
    ⟨ys.length - 1, by have := List.length_pos_iff.mpr nonempty; omega⟩
  have counts : Counts m d (0 + k + 1) :=
    ⟨arr, b, filled.header, filled.block, filled.nelts.trans length, calm⟩
  rw [merge, visit, Exec.bind_ok _ begun]
  obtain spent | stuck := counts.visitFrom (some b) fuel
  · rw [spent]
    exact id
  · rw [stuck]
    exact id

theorem merged_none (header : m.arrays.read s = some arr) (none : arr.nelts = 0) :
    merge 1 (some d) (some s) m = .ok () m := by
  have begun : Exec.view id (elts (some s)) m = .ok arr.elts m :=
    Exec.view_ok (s := m) (elts_apply header)
  have counted : Exec.view id (size (some s)) m = .ok 0 m :=
    Exec.view_ok (s := m) (none ▸ size_apply header)
  rw [merge, visit, Exec.bind_ok _ begun, visitFrom, Exec.bind_ok _ counted]
  rfl

theorem nelts_of_unusable (wf : m.WellFormed) (header : m.arrays.read d = some arr)
    (unusable : arr.elts = none ∨ arr.nalloc = 0) : arr.nelts = 0 := by
  obtain ⟨-, empty⟩ | ⟨b, xs, filled⟩ := wf.held d arr header
  · exact empty
  · have void := unusable.resolve_left (by simp [filled.block])
    have fits := filled.fits
    rw [filled.nelts]
    omega

/-- A merge appends exactly when the source is another array, and the destination has
room for elements, or there is nothing to append. -/
theorem merge_appends_iff {arrd : NgxArrayT} (wf : m.WellFormed)
    (header : m.arrays.read d = some arrd) (header' : m.arrays.read s = some arrs) :
    MergeAppends m d s ↔
      arrs.nelts = 0 ∨ (d ≠ s ∧ arrd.elts ≠ none ∧ arrd.nalloc ≠ 0) := by
  by_cases empty : arrs.nelts = 0
  · refine iff_of_true (fun xs ys answers shows shows' => ⟨1, ?_⟩) (.inl empty)
    obtain rfl := shows'.unique (shows_nil header' empty)
    have header2 : ({ m with answers } : ArrayMem T).arrays.read s = some arrs := header'
    rw [merged_none header2 empty]
    refine ⟨?_, fun _ => shows'⟩
    rw [List.append_nil]
    exact shows
  · obtain ⟨-, none⟩ | ⟨bs, ys, filled'⟩ := wf.held s arrs header'
    · exact absurd none empty
    · have nonempty : ys ≠ [] := by
        rintro rfl
        exact empty filled'.nelts
      by_cases same : d = s
      · subst same
        refine iff_of_false (fun appends => ?_) (by simp [empty])
        obtain ⟨fuel, merged⟩ := appends ys ys [] filled'.shows filled'.shows
        exact not_merged_self (filled'.answers []) nonempty rfl fuel merged
      · by_cases usable : arrd.elts ≠ none ∧ arrd.nalloc ≠ 0
        · refine iff_of_true (fun xs ys' answers shows shows' => ?_) (.inr ⟨same, usable⟩)
          obtain ⟨missing, -⟩ | ⟨bd, xs', filled⟩ := wf.held d arrd header
          · exact absurd missing usable.1
          · obtain rfl := shows.unique filled.shows
            obtain rfl := shows'.unique filled'.shows
            have apart : bd ≠ bs := fun both =>
              wf.apart d s arrd arrs bd same header header' filled.block (both ▸ filled'.block)
            have pair : Pair m d s bs arrs xs ys' := ⟨⟨bd, arrd, filled, usable.2, apart⟩, filled'⟩
            exact ⟨_, (pair.answers answers).merged same⟩
        · refine iff_of_false (fun appends => ?_) (by simp only [empty, usable]; simp)
          have unusable : arrd.elts = none ∨ arrd.nalloc = 0 := by
            by_contra neither
            exact usable (not_or.mp neither)
          have zero := nelts_of_unusable wf header unusable
          obtain ⟨fuel, merged⟩ := appends [] ys [] (shows_nil header zero) filled'.shows
          have header2 : ({ m with answers := [] } : ArrayMem T).arrays.read d = some arrd := header
          exact not_merged_of_stuck (filled'.answers []) nonempty rfl
            (fun v m' => assign_ne_ok header2 zero unusable rfl v) fuel merged

end NgxArray

/-- For arrays and for lists, a merge appends exactly when the source is another
container, and the destination has room for elements, or the source is empty. -/
theorem merges_append_iff {m : ArrayMem T} {d s : Nat} {arrd arrs : NgxArrayT} (wf : m.WellFormed)
    (header : m.arrays.read d = some arrd) (header' : m.arrays.read s = some arrs)
    {lm : ListMem T} {ld ls : Nat} {hd hs : NgxListT} (reach : Reachable lm)
    (at_ld : lm.lists.read ld = some hd) (at_ls : lm.lists.read ls = some hs) :
    (NgxArray.MergeAppends m d s ↔
        arrs.nelts = 0 ∨ (d ≠ s ∧ arrd.elts ≠ none ∧ arrd.nalloc ≠ 0)) ∧
      (NgxList.MergeAppends lm ld ls ↔
        ¬ NgxList.HasElements lm ls hs ∨ (ld ≠ ls ∧ NgxList.Usable lm hd)) :=
  ⟨NgxArray.merge_appends_iff wf header header', NgxList.merge_appends_iff reach at_ld at_ls⟩

private def twoArrays : ArrayMem Nat where
  arrays := ⟨[⟨some 0, 1, 1⟩, ⟨some 1, 1, 1⟩]⟩
  blocks := ⟨[[some 7], [some 8]]⟩

private def twoLists : ListMem Nat where
  lists := ⟨[⟨0, 0, 1⟩, ⟨1, 1, 1⟩]⟩
  parts := ⟨[⟨some 0, 1, none⟩, ⟨some 1, 1, none⟩]⟩
  arrays := ⟨[[some 7], [some 8]]⟩

private theorem first_filled : Filled twoArrays 0 0 ⟨some 0, 1, 1⟩ [7] :=
  ⟨rfl, rfl, rfl, [some 7], rfl, rfl, rfl⟩

private theorem second_filled : Filled twoArrays 1 1 ⟨some 1, 1, 1⟩ [8] :=
  ⟨rfl, rfl, rfl, [some 8], rfl, rfl, rfl⟩

private theorem twoArrays_cases {a : Nat} {arr : NgxArrayT}
    (header : twoArrays.arrays.read a = some arr) :
    (a = 0 ∧ arr = ⟨some 0, 1, 1⟩) ∨ (a = 1 ∧ arr = ⟨some 1, 1, 1⟩) := by
  match a with
  | 0 => exact .inl ⟨rfl, (Option.some.inj header).symm⟩
  | 1 => exact .inr ⟨rfl, (Option.some.inj header).symm⟩
  | a + 2 => simp [twoArrays, Heap.read] at header

private theorem twoArrays_wellFormed : twoArrays.WellFormed where
  held a arr header := by
    obtain ⟨rfl, rfl⟩ | ⟨rfl, rfl⟩ := twoArrays_cases header
    · exact .inr ⟨0, [7], first_filled⟩
    · exact .inr ⟨1, [8], second_filled⟩
  apart a a' arr arr' b different header header' := by
    obtain ⟨rfl, rfl⟩ | ⟨rfl, rfl⟩ := twoArrays_cases header <;>
      obtain ⟨rfl, rfl⟩ | ⟨rfl, rfl⟩ := twoArrays_cases header'
    · exact absurd rfl different
    · rintro ⟨⟩
      simp
    · rintro ⟨⟩
      simp
    · exact absurd rfl different

private theorem twoLists_reachable : Reachable twoLists := by
  have first : Reachable _ := (Reachable.start []).step (.op (T := Nat) (.create 1) rfl)
  have second : Reachable _ := first.step (.op (.create 1) rfl)
  have pushed : Reachable _ := second.step (.op (.push 0 7) rfl)
  exact pushed.step (.op (.push 1 8) rfl)

theorem merges_append_two :
    (NgxArray.MergeAppends twoArrays 0 1 ↔ 1 = 0 ∨ (0 ≠ 1 ∧ some 0 ≠ none ∧ 1 ≠ 0)) ∧
      (NgxList.MergeAppends twoLists 0 1 ↔ ¬ NgxList.HasElements twoLists 1 ⟨1, 1, 1⟩ ∨
        (0 ≠ 1 ∧ NgxList.Usable twoLists ⟨0, 0, 1⟩)) := by
  have header : twoArrays.arrays.read 0 = some ⟨some 0, 1, 1⟩ := rfl
  have header' : twoArrays.arrays.read 1 = some ⟨some 1, 1, 1⟩ := rfl
  have at_first : twoLists.lists.read 0 = some ⟨0, 0, 1⟩ := rfl
  have at_second : twoLists.lists.read 1 = some ⟨1, 1, 1⟩ := rfl
  exact merges_append_iff twoArrays_wellFormed header header' twoLists_reachable at_first at_second

private theorem firstList_represents :
    Represents twoLists 0 ⟨⟨0, 0, 1⟩, [], ⟨0, 0, [7]⟩⟩ := by
  let before : ListMem Nat := { twoLists with
    parts := ⟨[⟨some 0, 0, none⟩, ⟨some 1, 1, none⟩]⟩, arrays := ⟨[[none], [some 8]]⟩ }
  have part : before.parts.read 0 = some ⟨some 0, 0, none⟩ := rfl
  have stored : before.arrays.read 0 = some [none] := rfl
  have empty : Represents before 0 ⟨⟨0, 0, 1⟩, [], ⟨0, 0, []⟩⟩ :=
    Represents.of_empty rfl part stored rfl (by decide)
  exact empty.grow part rfl rfl stored rfl (by decide) rfl

/-- Neither an array nor a list is ever done with itself. -/
theorem self_merge_endless :
    ¬ NgxArray.MergeAppends twoArrays 0 0 ∧ ¬ NgxList.MergeAppends twoLists 0 0 := by
  constructor
  · intro appends
    obtain ⟨fuel, merged⟩ := appends [7] [7] [] first_filled.shows first_filled.shows
    exact NgxArray.not_merged_self first_filled (by simp) rfl fuel merged
  · intro appends
    have rep := firstList_represents
    have calm : twoLists.Generous := by simp [twoLists, ListMem.Generous]
    obtain ⟨fuel, merged⟩ := appends [7] [7] [] rep.shown rep.shown
    have endless : NgxList.mergeWithin fuel 0 0 { twoLists with grants := [] } = .exhausted :=
      NgxList.mergeWithin_self rep calm (by simp [ListShape.elems, elemsOf, ListShape.views]) fuel
    rw [endless] at merged
    exact merged

end NgxCpp
