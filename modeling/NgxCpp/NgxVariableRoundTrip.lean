import NgxCpp.NgxVariable

/-! What `NgxVariable::set` writes and what `get` reads back of it. -/

namespace NgxCpp
open Foundation

namespace NgxVariableValue

def upToDate (v : NgxVariableValue) : Bool := (v.valid || v.notFound) && !v.noCacheable

@[simp] theorem upToDate_set (str : NgxStr) (clear : Bool) : (set str clear).upToDate = true := by
  cases clear <;> rfl

end NgxVariableValue

namespace VariableWorld

def slots (w : VariableWorld) (r : Nat) : Option (List NgxVariableValue) :=
  (w.mem.requests.read r).bind fun request => w.mem.vars.read request.vars

end VariableWorld

open VariableWorld

namespace NgxVariable

variable (conf : VariablesConf)

/-- `ngx_get_variable`: a slot that is not up to date is evaluated again. -/
def ngxGetFlushed (r : Nat) (mName : List UInt8) :
    Ngx VariableWorld (Option NgxVariableValue) := do
  match conf.hash mName with
  | some v =>
    if v.indexed then
      let value ← readSlot r v.index
      if value.upToDate then pure (some value) else conf.evaluate r mName
    else conf.evaluate r mName
  | none => conf.evaluate r mName

/-- `get`, of an object with this name. -/
def getFlushed (r : Nat) (mName : List UInt8) : Ngx VariableWorld NgxStr := do
  let vv ← ngxGetFlushed conf r mName
  pure (NgxVariableValue.str vv)

/-- `get` returns the value: its bytes, and the null string where there are none. -/
def Returns (r : Nat) (mName value : List UInt8) (w : VariableWorld) : Prop :=
  ∃ str, getFlushed conf r mName w = .ok str w ∧ NgxString.bytes w.bytes.ram str = value ∧
    (value = [] → str = ngxNullString)

/-- What `set` does when it returns: true, and `get` returns the value, the other slots
being as they were, or false, and all of them are. -/
structure SetGet (r : Nat) (name value : List UInt8) (w : VariableWorld) : Prop where
  returns : ∀ vs index w', w.slots r = some vs → Plain conf vs.length name index →
    set conf r (ngxStrlow name) value w = .ok true w' →
      Returns conf r (ngxStrlow name) value w' ∧ ∃ v, w'.slots r = some (vs.set index v)
  unchanged : ∀ w', set conf r (ngxStrlow name) value w = .ok false w' → w'.slots r = w.slots r

section Slots

variable {conf} {w : VariableWorld} {r index : Nat} {vs : List NgxVariableValue}

theorem slots_some (slots : w.slots r = some vs) : ∃ request,
    w.mem.requests.read r = some request ∧ w.mem.vars.read request.vars = some vs :=
  Option.bind_eq_some_iff.mp slots

theorem readSlot_slots (slots : w.slots r = some vs) (inside : index < vs.length) :
    readSlot r index w = .ok vs[index] w := by
  obtain ⟨request, found, values⟩ := slots_some slots
  have at_request : onMem (readRequest r) w = .ok request w := Exec.zoom_ok (readRequest_ok found)
  rw [readSlot, Exec.bind_ok _ at_request]
  refine Exec.deref_some ?_
  rw [values]
  exact List.getElem?_eq_getElem inside

theorem setSlot_slots (slots : w.slots r = some vs) (inside : index < vs.length)
    (v : NgxVariableValue) : ∃ w', setSlot r index v w = .ok () w' ∧
      w'.slots r = some (vs.set index v) ∧ w'.bytes = w.bytes := by
  obtain ⟨request, found, values⟩ := slots_some slots
  have at_request : onMem (readRequest r) w = .ok request w := Exec.zoom_ok (readRequest_ok found)
  have at_values := Exec.deref_some (ε := NgxException)
    (f := fun w : VariableWorld => w.mem.vars.read request.vars) values
  refine ⟨w.setValues request.vars (vs.set index v), ?_, ?_, rfl⟩
  · rw [setSlot, Exec.bind_ok _ at_request, Exec.bind_ok _ at_values, if_pos inside]
    rfl
  · have written : (w.setValues request.vars (vs.set index v)).mem.vars.read request.vars =
        some (vs.set index v) := Heap.read_write_self values
    exact (congrArg (Option.bind · _) found).trans written

theorem getFlushed_slots {mName : List UInt8} (slots : w.slots r = some vs)
    (known : conf.hash mName = some ⟨true, true, index, none⟩) (inside : index < vs.length)
    (fresh : vs[index].upToDate = true) :
    getFlushed conf r mName w = .ok (NgxVariableValue.str (some vs[index])) w := by
  have found : ngxGetFlushed conf r mName w = .ok (some vs[index]) w := by
    rw [ngxGetFlushed, known]
    dsimp only
    rw [if_pos rfl, Exec.bind_ok _ (readSlot_slots slots inside), if_pos fresh]
    rfl
  exact Exec.bind_ok _ found

theorem get_slots {mName : List UInt8} (slots : w.slots r = some vs)
    (known : conf.hash mName = some ⟨true, true, index, none⟩) (inside : index < vs.length)
    (fresh : vs[index].upToDate = true) : get conf r mName w = getFlushed conf r mName w := by
  have found : ngxGetVariable conf r mName w = .ok (some vs[index]) w := by
    rw [ngxGetVariable, known]
    dsimp only
    rw [if_pos rfl, Exec.bind_ok _ (readSlot_slots slots inside)]
    rfl
  rw [getFlushed_slots slots known inside fresh]
  exact Exec.bind_ok _ found

end Slots

section Set

variable {conf} {w w' : VariableWorld} {r index : Nat} {vs : List NgxVariableValue}
  {name : List UInt8}

theorem set_plain (slots : w.slots r = some vs) (plain : Plain conf vs.length name index)
    (value : List UInt8) (yes : granted w.mem.headers.grants = true) :
    ∃ w' v, set conf r (ngxStrlow name) value w = .ok true w' ∧
      w'.slots r = some (vs.set index v) ∧
      getFlushed conf r (ngxStrlow name) w' = .ok (NgxVariableValue.str (some v)) w' ∧
      NgxString.bytes w'.bytes.ram (NgxVariableValue.str (some v)) =
        value.take (value.length % 2 ^ 28) ∧
      (value = [] → NgxVariableValue.str (some v) = ngxNullString) := by
  let v := NgxVariableValue.set (w.bytes.stored value) value.isEmpty
  have copied := dupString_ok value yes
  have slots' : (w.asked.storing value).slots r = some vs := slots
  obtain ⟨w', written, after, bytes⟩ := setSlot_slots slots' plain.2 v
  have inside : index < (vs.set index v).length := by simpa using plain.2
  have at_index : (vs.set index v)[index] = v := List.getElem_set_self inside
  refine ⟨w', v, ?_, after, ?_, ?_, ?_⟩
  · rw [set, plain.1]
    dsimp only
    rw [if_pos rfl, Exec.bind_ok _ copied, if_pos rfl, Exec.bind_ok _ written]
    rfl
  · rw [getFlushed_slots after plain.1 inside (by simp [at_index, v]), at_index]
  · have shown : v.shown (w.bytes.store value).ram = _ := shown_set w.bytes value
    have same : w'.bytes.ram = (w.bytes.store value).ram := congrArg ByteMem.ram bytes
    rw [same, bytes_str, shown]
    by_cases empty : value = []
    · simp [empty]
    · rw [if_neg (by simpa using empty)]
      rfl
  · rintro rfl
    rfl

theorem set_refused {value : List UInt8} (plain : Plain conf vs.length name index)
    (done : set conf r (ngxStrlow name) value w = .ok true w') :
    granted w.mem.headers.grants = true := by
  cases answer : granted w.mem.headers.grants with
  | true => rfl
  | false =>
    rw [set_raised value plain answer] at done
    simp at done

theorem set_false {value : List UInt8}
    (done : set conf r (ngxStrlow name) value w = .ok false w') : w'.slots r = w.slots r := by
  unfold set at done
  cases known : conf.hash (ngxStrlow name) with
  | none =>
    rw [known] at done
    obtain ⟨-, rfl⟩ := Outcome.ok.inj done
    rfl
  | some v =>
    rw [known] at done
    dsimp only at done
    by_cases changeable : v.changeable = true
    · rw [if_pos changeable, Exec.bind_eq_ok] at done
      obtain ⟨val, w1, copied, done⟩ := done
      have same : w1.slots r = w.slots r := by
        cases answer : granted w.mem.headers.grants with
        | true =>
          rw [dupString_ok value answer] at copied
          obtain ⟨-, rfl⟩ := Outcome.ok.inj copied
          rfl
        | false =>
          rw [dupString_raised value answer] at copied
          simp at copied
      cases handler : v.setHandler with
      | some handler =>
        rw [handler] at done
        simp [Exec.bind_eq_ok] at done
      | none =>
        rw [handler] at done
        by_cases indexed : v.indexed = true
        · simp [indexed, Exec.bind_eq_ok] at done
        · simp only [indexed] at done
          obtain ⟨-, rfl⟩ := Outcome.ok.inj done
          exact same
    · rw [if_neg changeable] at done
      obtain ⟨-, rfl⟩ := Outcome.ok.inj done
      rfl

theorem SetGet.short {value : List UInt8} (right : SetGet conf r name value w)
    (slots : w.slots r = some vs) (plain : Plain conf vs.length name index)
    (yes : granted w.mem.headers.grants = true) : value.length < 2 ^ 28 := by
  obtain ⟨w', v, done, -, got, bytes, -⟩ := set_plain slots plain value yes
  obtain ⟨⟨str, got', same, -⟩, -⟩ := right.returns vs index w' slots plain done
  obtain ⟨rfl, -⟩ := Outcome.ok.inj (got.symm.trans got')
  have length := congrArg List.length (bytes.symm.trans same)
  rw [List.length_take] at length
  have bound := Nat.mod_lt value.length (show 0 < 2 ^ 28 by decide)
  omega

end Set

end NgxVariable

/-- `get` returns what `set` was given, and `set` leaves the other slots, exactly when
the value's length has no more than 28 bits, where `set` gets to write it. -/
theorem set_get_iff (conf : VariablesConf) (r : Nat) (name value : List UInt8)
    (w : VariableWorld) : NgxVariable.SetGet conf r name value w ↔
      ∀ vs index, w.slots r = some vs → Plain conf vs.length name index →
        granted w.mem.headers.grants = true → value.length < 2 ^ 28 := by
  constructor
  · exact fun right vs index slots plain yes => right.short slots plain yes
  · intro short
    refine ⟨fun vs index w' slots plain done => ?_, fun w' done => NgxVariable.set_false done⟩
    have yes := NgxVariable.set_refused plain done
    obtain ⟨w2, v, done', after, got, bytes, null⟩ := NgxVariable.set_plain slots plain value yes
    obtain ⟨-, rfl⟩ := Outcome.ok.inj (done.symm.trans done')
    refine ⟨⟨_, got, ?_, null⟩, v, after⟩
    rw [bytes, Nat.mod_eq_of_lt (short vs index slots plain yes), List.take_length]

private def oneSlot : VariableWorld where
  mem :=
    { headers := {}
      requests := ⟨[⟨0, 0, none, []⟩]⟩
      vars := ⟨[[⟨0, 0, false, false, false⟩]]⟩ }
  bytes := ⟨fun _ => 0, 64⟩

private def onlyV : VariablesConf where
  hash name := if name = [118] then some ⟨true, true, 0, none⟩ else none
  evaluate _ _ := pure none

theorem set_drops_length :
    ¬ NgxVariable.SetGet onlyV 0 [118] (List.replicate (2 ^ 28) 97) oneSlot := by
  intro right
  have short := right.short rfl
    ⟨rfl, by decide⟩ rfl
  rw [List.length_replicate] at short
  exact Nat.lt_irrefl _ short

end NgxCpp
