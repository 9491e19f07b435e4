import NgxCpp.NgxListStore
import NgxCpp.NgxListSequence
import NgxCpp.NgxString
import NgxCpp.Foundation.Tombstones

/-! `NgxHeaders`: keyed access to a list of table elements, which deletes by
setting the hash to 0. The spec is a multimap of the live elements. -/

namespace NgxCpp
open Foundation

/-- `ngx_table_elt_t`, as far as the library reads it. -/
structure NgxTableElt where
  hash : Nat
  key : NgxStr
  value : NgxStr
deriving Repr, DecidableEq

namespace NgxTableElt

def live (kv : NgxTableElt) : Bool := kv.hash != 0

def bury (kv : NgxTableElt) : NgxTableElt := { kv with hash := 0 }

/-- The element that `add` leaves. -/
def hashed (kv : NgxTableElt) : NgxTableElt := if kv.hash = 0 then { kv with hash := 1 } else kv

/-- The predicate of `find`. -/
def isKey (ram : Ram) (key : List UInt8) (kv : NgxTableElt) : Bool :=
  iequals (NgxString.bytes ram kv.key) key

theorem bury_not_live (kv : NgxTableElt) : kv.bury.live = false := rfl

theorem bury_of_not_live {kv : NgxTableElt} (dead : kv.live = false) : kv.bury = kv := by
  have zero : kv.hash = 0 := by simpa [live] using dead
  rw [bury, ← zero]

end NgxTableElt

namespace NgxHeaders

variable (ram : Ram) (l : Nat)

def find (key : List UInt8) : Ngx (ListMem NgxTableElt) NgxListIterator :=
  NgxList.find l (NgxTableElt.isKey ram key)

def has (key : List UInt8) : Ngx (ListMem NgxTableElt) Bool := do
  let p ← find ram l key
  pure (p != NgxList.endIter)

/-- `operator[]`. -/
def value (key : List UInt8) : Ngx (ListMem NgxTableElt) NgxStr := do
  let p ← find ram l key
  if p = NgxList.endIter then pure ngxNullString
  else
    let slot ← p.dereference
    let kv ← loadSlot slot
    pure kv.value

def add (kv : NgxTableElt) : Ngx (ListMem NgxTableElt) Unit := do
  let tmp ← NgxList.prepare l
  storeSlot tmp kv
  if kv.hash = 0 then storeSlot tmp { kv with hash := 1 } else pure ()

def remove (key : List UInt8) : Ngx (ListMem NgxTableElt) Unit := do
  let p ← find ram l key
  if p = NgxList.endIter then pure ()
  else
    let slot ← p.dereference
    let kv ← loadSlot slot
    storeSlot slot { kv with hash := 0 }

end NgxHeaders

section Computed

variable {m m' : ListMem NgxTableElt} {l : Nat} {sh : ListShape NgxTableElt} {ram : Ram}
  {key : List UInt8} {kv : NgxTableElt}

theorem storeSlot_twice {s : Slot} {x y : NgxTableElt} :
    (storeSlot s x >>= fun _ => storeSlot s y) m = storeSlot s y m := by
  simp only [Exec.bind_apply, storeSlot, ListMem.store]
  cases found : m.arrays.read s.array with
  | none => rfl
  | some slots =>
    by_cases inside : s.index < slots.length
    · simp [inside, Heap.read_write_self found, Heap.write_write]
    · simp [inside]

theorem add_eq_push : NgxHeaders.add l kv m = NgxList.push l kv.hashed m := by
  rw [NgxHeaders.add, NgxList.push, Exec.bind_apply, Exec.bind_apply]
  cases NgxList.prepare l m with
  | ok slot m' =>
    by_cases dead : kv.hash = 0
    · simp only [NgxTableElt.hashed, if_pos dead]
      exact storeSlot_twice
    · simp only [NgxTableElt.hashed, if_neg dead]
      exact Exec.bind_pure_apply _ _
  | raised e m' => rfl
  | undefined => rfl
  | exhausted => rfl

namespace Represents

theorem has_eq (rep : Represents m l sh) :
    NgxHeaders.has ram l key m = .ok (sh.elems.any (NgxTableElt.isKey ram key)) m := by
  rw [NgxHeaders.has, NgxHeaders.find, Exec.bind_ok _ (rep.find_eq _)]
  by_cases inside : sh.elems.findIdx (NgxTableElt.isKey ram key) < sh.elems.length
  · have found := List.findIdx_lt_length.mp inside
    rw [List.any_eq_true.mpr found]
    simp [position_ne_end inside]
  · have none : ¬ sh.elems.any (NgxTableElt.isKey ram key) = true := fun found =>
      inside (List.findIdx_lt_length.mpr (List.any_eq_true.mp found))
    rw [Bool.eq_false_iff.mpr none, position_end (Nat.le_of_not_lt inside)]
    rfl

theorem value_eq (rep : Represents m l sh) : NgxHeaders.value ram l key m =
    .ok (((sh.elems.find? (NgxTableElt.isKey ram key)).map NgxTableElt.value).getD
      ngxNullString) m := by
  rw [NgxHeaders.value, NgxHeaders.find, Exec.bind_ok _ (rep.find_eq _)]
  by_cases inside : sh.elems.findIdx (NgxTableElt.isKey ram key) < sh.elems.length
  · obtain ⟨slot, -, at_n, loaded⟩ := rep.dereference_position inside
    rw [if_neg (position_ne_end inside), Exec.bind_ok _ at_n, Exec.bind_ok _ loaded,
      List.find?_eq_getElem?_findIdx, List.getElem?_eq_getElem inside]
    rfl
  · rw [if_pos (position_end (Nat.le_of_not_lt inside)), List.find?_eq_getElem?_findIdx,
      List.getElem?_eq_none (Nat.le_of_not_lt inside)]
    rfl

theorem remove_eq (rep : Represents m l sh) (ram : Ram) (key : List UInt8) :
    ∃ m' sh', NgxHeaders.remove ram l key m = .ok () m' ∧ Represents m' l sh' ∧
      sh'.elems = buryFirst NgxTableElt.bury (NgxTableElt.isKey ram key) sh.elems := by
  rw [NgxHeaders.remove, NgxHeaders.find, Exec.bind_ok _ (rep.find_eq _)]
  by_cases inside : sh.elems.findIdx (NgxTableElt.isKey ram key) < sh.elems.length
  · obtain ⟨slot, m', sh', at_n, loaded, stored, rep', elems⟩ :=
      rep.store inside (NgxTableElt.bury sh.elems[sh.elems.findIdx (NgxTableElt.isKey ram key)])
    rw [if_neg (position_ne_end inside), Exec.bind_ok _ at_n, Exec.bind_ok _ loaded]
    exact ⟨m', sh', stored, rep', by rw [elems, buryFirst_eq_set inside]⟩
  · rw [if_pos (position_end (Nat.le_of_not_lt inside))]
    exact ⟨m, sh, rfl, rep, (buryFirst_of_past inside).symm⟩

theorem add_eq (rep : Represents m l sh) (kv : NgxTableElt) :
    (∃ m' sh', NgxHeaders.add l kv m = .ok () m' ∧ Represents m' l sh' ∧
        sh'.elems = sh.elems ++ [kv.hashed]) ∨
      ∃ m', NgxHeaders.add l kv m = .raised ⟨ngxError⟩ m' ∧ Represents m' l sh := by
  rw [add_eq_push]
  obtain ⟨m', pushed⟩ | ⟨grants, failed⟩ := rep.push_total kv.hashed
  · obtain ⟨sh', rep', elems⟩ := rep.push pushed
    exact .inl ⟨m', sh', pushed, rep', elems⟩
  · exact .inr ⟨_, failed, rep.grants grants⟩

end Represents

end Computed

inductive HeaderOp where
  | add (kv : NgxTableElt)
  | remove (key : List UInt8)
  | has (key : List UInt8)
  | value (key : List UInt8)
deriving Repr, DecidableEq

inductive HeaderOut where
  | done
  | found (b : Bool)
  | value (v : NgxStr)
deriving Repr, DecidableEq

namespace HeaderOp

variable (ram : Ram) (l : Nat)

def run : HeaderOp → Ngx (ListMem NgxTableElt) HeaderOut
  | add kv => do
    NgxHeaders.add l kv
    pure .done
  | remove key => do
    NgxHeaders.remove ram l key
    pure .done
  | has key => do
    let b ← NgxHeaders.has ram l key
    pure (.found b)
  | value key => do
    let v ← NgxHeaders.value ram l key
    pure (.value v)

/-- The operation when an element counts as found if it satisfies `p` and has the
key: the answer and the elements afterwards. -/
def onElems (p : NgxTableElt → Bool) (xs : List NgxTableElt) :
    HeaderOp → HeaderOut × List NgxTableElt
  | add kv => (.done, xs ++ [kv.hashed])
  | remove key =>
    (.done, buryFirst NgxTableElt.bury (fun kv => p kv && kv.isKey ram key) xs)
  | has key => (.found (xs.any fun kv => p kv && kv.isKey ram key), xs)
  | value key => (.value (((xs.find? fun kv => p kv && kv.isKey ram key).map
      NgxTableElt.value).getD ngxNullString), xs)

def spec (xs : List NgxTableElt) (op : HeaderOp) : HeaderOut × List NgxTableElt :=
  op.onElems ram NgxTableElt.live xs

def step (m : ListMem NgxTableElt) (op : HeaderOp) : ListMem NgxTableElt :=
  (op.run ram l m).state?.getD m

def isAdd : HeaderOp → Bool
  | add _ => true
  | _ => false

/-- The operation answers and acts as the multimap does; an `add` may instead fail
for want of memory, which changes nothing. -/
def Conforms (m : ListMem NgxTableElt) (op : HeaderOp) : Prop :=
  match m.shown l, op.run ram l m with
  | some xs, .ok out m' => out = (op.spec ram xs).1 ∧ m'.shown l = some (op.spec ram xs).2
  | some xs, .raised _ m' => op.isAdd = true ∧ m'.shown l = some xs
  | _, _ => False

/-- What the operation's key must meet among the elements: the first element with
the key is live, or it does not matter for the operation that it is not. -/
def MeetsLive (xs : List NgxTableElt) : HeaderOp → Prop
  | add _ => True
  | remove key => LiveFirst NgxTableElt.live (NgxTableElt.isKey ram key) xs ∨
    ∀ kv ∈ xs, kv.isKey ram key = true → kv.live = false
  | has key => (∃ kv ∈ xs, kv.isKey ram key = true) →
    ∃ kv ∈ xs, kv.live = true ∧ kv.isKey ram key = true
  | value key => ∀ kv, xs.find? (NgxTableElt.isKey ram key) = some kv → kv.live = true ∨
    kv.value = ((xs.find? fun kv => kv.live && kv.isKey ram key).map
      NgxTableElt.value).getD ngxNullString

instance (m : ListMem NgxTableElt) (op : HeaderOp) : Decidable (op.Conforms ram l m) := by
  unfold Conforms
  split <;> infer_instance

variable {ram l} {m : ListMem NgxTableElt} {sh : ListShape NgxTableElt}

theorem run_cases (ram : Ram) (rep : Represents m l sh) (op : HeaderOp) :
    (∃ m' sh', op.run ram l m = .ok (op.onElems ram (fun _ => true) sh.elems).1 m' ∧
        Represents m' l sh' ∧ sh'.elems = (op.onElems ram (fun _ => true) sh.elems).2) ∨
      ∃ m', op.isAdd = true ∧ op.run ram l m = .raised ⟨ngxError⟩ m' ∧ Represents m' l sh := by
  cases op with
  | add kv =>
    obtain ⟨m', sh', added, rep', elems⟩ | ⟨m', failed, rep'⟩ := rep.add_eq kv
    · exact .inl ⟨m', sh', Exec.bind_ok _ added, rep', elems⟩
    · exact .inr ⟨m', rfl, Exec.bind_raised _ failed, rep'⟩
  | remove key =>
    obtain ⟨m', sh', removed, rep', elems⟩ := rep.remove_eq ram key
    exact .inl ⟨m', sh', Exec.bind_ok _ removed, rep', by simp [onElems, elems]⟩
  | has key =>
    exact .inl ⟨m, sh, (Exec.bind_ok _ rep.has_eq).trans (by simp [onElems]), rep, rfl⟩
  | value key =>
    exact .inl ⟨m, sh, (Exec.bind_ok _ rep.value_eq).trans (by simp [onElems]), rep, rfl⟩

theorem step_represents (rep : Represents m l sh) (op : HeaderOp) :
    ∃ sh', Represents (op.step ram l m) l sh' := by
  obtain ⟨m', sh', done, rep', -⟩ | ⟨m', -, failed, rep'⟩ := op.run_cases ram rep
  · exact ⟨sh', by rw [step, done]; exact rep'⟩
  · exact ⟨sh, by rw [step, failed]; exact rep'⟩

/-- Looking at every element comes to the same as looking at the live ones. -/
theorem onElems_eq_spec_iff (xs : List NgxTableElt) (op : HeaderOp) :
    op.onElems ram (fun _ => true) xs = op.spec ram xs ↔ op.MeetsLive ram xs := by
  cases op with
  | add kv => simp [onElems, spec, MeetsLive]
  | remove key =>
    simp only [onElems, spec, MeetsLive, Prod.mk.injEq, true_and, Bool.true_and]
    exact buryFirst_eq_iff NgxTableElt.bury_not_live (fun _ => NgxTableElt.bury_of_not_live) xs
  | has key =>
    simp only [onElems, spec, MeetsLive, Prod.mk.injEq, and_true, HeaderOut.found.injEq,
      Bool.true_and]
    rw [Bool.eq_iff_iff]
    simp only [List.any_eq_true, Bool.and_eq_true]
    constructor
    · exact fun same => same.mp
    · exact fun live => ⟨live, fun ⟨kv, member, _, found⟩ => ⟨kv, member, found⟩⟩
  | value key =>
    simp only [onElems, spec, MeetsLive, Prod.mk.injEq, and_true, HeaderOut.value.injEq,
      Bool.true_and]
    cases first : xs.find? (NgxTableElt.isKey ram key) with
    | none =>
      have absent : (xs.find? fun kv => kv.live && kv.isKey ram key) = none := by
        rw [List.find?_eq_none] at first ⊢
        intro kv member
        simp [first kv member]
      simp [absent]
    | some kv =>
      by_cases alive : kv.live = true
      · have live : LiveFirst NgxTableElt.live (NgxTableElt.isKey ram key) xs := by
          intro a found
          obtain rfl := Option.some.inj (first.symm.trans found)
          exact alive
        rw [← find?_eq_of_liveFirst live, first]
        simp [alive]
      · simp [alive]

theorem conforms_iff (rep : Represents m l sh) (op : HeaderOp) :
    op.Conforms ram l m ↔ op.MeetsLive ram sh.elems := by
  rw [← onElems_eq_spec_iff, Prod.ext_iff]
  obtain ⟨m', sh', done, rep', elems⟩ | ⟨m', added, failed, rep'⟩ := op.run_cases ram rep
  · simp only [Conforms, rep.shown, done, rep'.shown, elems, Option.some.injEq]
  · simp only [Conforms, rep.shown, failed, rep'.shown, added, and_self, true_iff]
    cases op <;> simp [isAdd] at added
    exact ⟨rfl, rfl⟩

end HeaderOp

/-- A run of header operations does what the multimap of live headers does exactly
when each operation finds its key as `MeetsLive` asks. -/
theorem headers_multimap_iff {ram : Ram} {l : Nat} {m : ListMem NgxTableElt}
    {sh : ListShape NgxTableElt} (rep : Represents m l sh) (ops : List HeaderOp) :
    Along (HeaderOp.step ram l) (HeaderOp.Conforms ram l) m ops ↔
      Along (HeaderOp.step ram l) (fun m op => ∃ xs, m.shown l = some xs ∧ op.MeetsLive ram xs)
        m ops := by
  refine along_congr (fun m => ∃ sh, Represents m l sh) ?_ ?_ ⟨sh, rep⟩
  · intro m op ⟨sh, rep⟩
    exact op.step_represents rep
  · intro m op ⟨sh, rep⟩
    rw [op.conforms_iff rep]
    simp [rep.shown]

/-- An empty list with two elements a part, and keys that all read "a". -/
private def twoHeaders : ListMem NgxTableElt :=
  { lists := ⟨[⟨0, 0, 2⟩]⟩, parts := ⟨[⟨some 0, 0, none⟩]⟩, arrays := ⟨[[none, none]]⟩ }

theorem headers_multimap_single :
    Along (HeaderOp.step (fun _ => 97) 0)
      (fun m op => ∃ xs, m.shown 0 = some xs ∧ op.MeetsLive (fun _ => 97) xs) twoHeaders
      [.add ⟨0, ⟨1, 8⟩, ⟨1, 9⟩⟩, .value [65], .remove [97]] := by
  have rep : Represents twoHeaders 0 ⟨⟨0, 0, 2⟩, [], ⟨0, 0, []⟩⟩ :=
    Represents.of_empty rfl rfl rfl rfl (by decide)
  exact (headers_multimap_iff rep _).mp (by decide)

/-- Of two headers with one key the second is still live after two removals. -/
theorem headers_second_removal_lost :
    ¬ Along (HeaderOp.step (fun _ => 97) 0) (HeaderOp.Conforms (fun _ => 97) 0) twoHeaders
      [.add ⟨1, ⟨1, 8⟩, ⟨1, 9⟩⟩, .add ⟨1, ⟨1, 8⟩, ⟨2, 9⟩⟩, .remove [97], .remove [97]] := by
  decide

end NgxCpp
