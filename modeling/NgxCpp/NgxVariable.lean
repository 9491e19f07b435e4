import NgxCpp.NgxRam
import NgxCpp.NgxSubRequest

/-! `NgxVariable`: nginx variables of a request, and of a subrequest with its own
array of them. The configuration's hash of variables is a parameter. -/

namespace NgxCpp
open Foundation

/-- `ngx_variable_value_t`; its length is a field of 28 bits. -/
structure NgxVariableValue where
  len : Nat
  data : Nat
  valid : Bool
  notFound : Bool
  noCacheable : Bool
deriving Repr, DecidableEq

namespace NgxVariableValue

/-- What `set` leaves. -/
def set (str : NgxStr) (clear : Bool := false) : NgxVariableValue where
  len := if clear then 0 else str.len % 2 ^ 28
  data := if clear then 0 else str.data
  valid := !clear
  notFound := clear
  noCacheable := false

/-- `valid`, of a value that is not null. -/
def isValid (v : NgxVariableValue) : Bool := v.valid && !v.notFound

def text (v : NgxVariableValue) : NgxStr := ⟨v.len, v.data⟩

/-- `str`, of a pointer. -/
def str : Option NgxVariableValue → NgxStr
  | some v => if v.isValid then v.text else ngxNullString
  | none => ngxNullString

def shown (ram : Ram) (v : NgxVariableValue) : Option (List UInt8) :=
  if v.isValid then some (NgxString.bytes ram v.text) else none

end NgxVariableValue

structure VariableWorld where
  mem : RequestMem NgxVariableValue
  bytes : ByteMem

/-- `ngx_variable_t`. The handler knows its own data. -/
structure NgxVariableT where
  changeable : Bool
  indexed : Bool
  index : Nat
  setHandler : Option (Nat → NgxVariableValue → Ngx VariableWorld Unit) := none

/-- The variables of a configuration: what the hash finds for a lower-case name, and
what nginx does to get a variable that has no slot in the request. -/
structure VariablesConf where
  hash : List UInt8 → Option NgxVariableT
  evaluate : Nat → List UInt8 → Ngx VariableWorld (Option NgxVariableValue)

def ngxTolower (c : UInt8) : UInt8 := if 65 ≤ c ∧ c ≤ 90 then c ||| 0x20 else c

/-- The name that `ngx_hash_strlow` leaves. -/
def ngxStrlow (name : List UInt8) : List UInt8 := name.map ngxTolower

namespace VariableWorld

def onMem {α : Type} (x : Ngx (RequestMem NgxVariableValue) α) : Ngx VariableWorld α :=
  Exec.zoom VariableWorld.mem (fun mem w => { w with mem }) x

def asked (w : VariableWorld) : VariableWorld :=
  { w with mem := { w.mem with headers := { w.mem.headers with
      grants := w.mem.headers.grants.tail } } }

def answering (w : VariableWorld) (grants : List Bool) : VariableWorld :=
  { w with mem := { w.mem with headers := { w.mem.headers with grants } } }

def storing (w : VariableWorld) (bytes : List UInt8) : VariableWorld :=
  { w with bytes := w.bytes.store bytes }

def setValues (w : VariableWorld) (array : Nat) (values : List NgxVariableValue) :
    VariableWorld :=
  { w with mem := { w.mem with vars := w.mem.vars.write array values } }

end VariableWorld

open VariableWorld

def storeString (str : List UInt8) : Ngx VariableWorld NgxStr := fun w =>
  .ok (w.bytes.stored str) (w.storing str)

/-- `NgxPool::dup` on the pool of a request. -/
def dupString (str : List UInt8) : Ngx VariableWorld NgxStr := do
  if ← onMem (onHeaders palloc) then storeString str else NgxException.raise

namespace NgxVariable

variable (conf : VariablesConf)

def construct (name : List UInt8) : Ngx VariableWorld (List UInt8) := do
  let _ ← dupString (ngxStrlow name)
  pure (ngxStrlow name)

/-- Read `m_r->variables[index]`. -/
def readSlot (r index : Nat) : Ngx VariableWorld NgxVariableValue := do
  let request ← onMem (readRequest r)
  Exec.deref fun w => (w.mem.vars.read request.vars).bind fun values => values[index]?

/-- `ngx_get_variable`, of a slot that is up to date where there is one. -/
def ngxGetVariable (r : Nat) (mName : List UInt8) :
    Ngx VariableWorld (Option NgxVariableValue) := do
  match conf.hash mName with
  | some v =>
    if v.indexed then
      let value ← readSlot r v.index
      pure (some value)
    else conf.evaluate r mName
  | none => conf.evaluate r mName

/-- `get`, of an object with this name. -/
def get (r : Nat) (mName : List UInt8) : Ngx VariableWorld NgxStr := do
  let vv ← ngxGetVariable conf r mName
  pure (NgxVariableValue.str vv)

/-- Write to `m_r->variables[index]`. -/
def setSlot (r index : Nat) (value : NgxVariableValue) : Ngx VariableWorld Unit := do
  let request ← onMem (readRequest r)
  let values ← Exec.deref fun w => w.mem.vars.read request.vars
  if index < values.length then
    Exec.modify fun w => w.setValues request.vars (values.set index value)
  else Exec.undefined

/-- `set`, of an object with this name. -/
def set (r : Nat) (mName value : List UInt8) : Ngx VariableWorld Bool := do
  match conf.hash mName with
  | none => pure false
  | some v =>
    if v.changeable then
      let val ← dupString value
      match v.setHandler with
      | some handler =>
        let granted ← onMem (onHeaders palloc)
        NgxException.requireCond granted
        handler r (NgxVariableValue.set val value.isEmpty)
        pure true
      | none =>
        if v.indexed then
          setSlot r v.index (NgxVariableValue.set val value.isEmpty)
          pure true
        else pure false
    else pure false

end NgxVariable

/-- Request `r` has these values in the array at `array`: the bytes of each valid slot. -/
structure Holds (w : VariableWorld) (r array : Nat) (values : List (Option (List UInt8))) :
    Prop where
  request : ∃ rq, w.mem.requests.read r = some rq ∧ rq.vars = array
  slots : ∃ vs, w.mem.vars.read array = some vs ∧
    vs.map (NgxVariableValue.shown w.bytes.ram) = values ∧
    ∀ v ∈ vs, v.isValid → v.text.Placed w.bytes

namespace Holds

variable {w w' : VariableWorld} {r array : Nat} {values : List (Option (List UInt8))}

theorem asked (holds : Holds w r array values) : Holds w.asked r array values :=
  ⟨holds.request, holds.slots⟩

theorem answering (holds : Holds w r array values) (grants : List Bool) :
    Holds (w.answering grants) r array values :=
  ⟨holds.request, holds.slots⟩

theorem storing (holds : Holds w r array values) (bytes : List UInt8) :
    Holds (w.storing bytes) r array values := by
  obtain ⟨vs, found, shown, placed⟩ := holds.slots
  refine ⟨holds.request, vs, found, ?_, fun v member valid =>
    ByteMem.placed_store (placed v member valid) bytes⟩
  rw [← shown]
  apply List.map_congr_left
  intro v member
  unfold NgxVariableValue.shown
  by_cases valid : v.isValid = true
  · rw [if_pos valid, if_pos valid]
    exact congrArg some (ByteMem.bytes_store (placed v member valid) bytes)
  · rw [if_neg valid, if_neg valid]

end Holds

section Allocation

variable {w : VariableWorld} {str : List UInt8}

theorem pool_eq (w : VariableWorld) :
    onMem (onHeaders palloc) w = .ok (granted w.mem.headers.grants) w.asked :=
  Exec.zoom_ok (onHeaders_ok (palloc_eq w.mem.headers))

theorem dupString_ok (str : List UInt8) (yes : granted w.mem.headers.grants = true) :
    dupString str w = .ok (w.bytes.stored str) (w.asked.storing str) := by
  rw [dupString, Exec.bind_ok _ (pool_eq w), if_pos yes]
  rfl

theorem dupString_raised (str : List UInt8) (no : granted w.mem.headers.grants = false) :
    dupString str w = .raised ⟨ngxError⟩ w.asked := by
  rw [dupString, Exec.bind_ok _ (pool_eq w), no]
  rfl

end Allocation

/-- A call of `set`, on a new object or on one made earlier. `grants` are the pool's
answers in it. -/
structure SetCall where
  name : List UInt8
  value : List UInt8
  fresh : Bool := true
  grants : List Bool := []

def Plain (conf : VariablesConf) (n : Nat) (name : List UInt8) (index : Nat) : Prop :=
  conf.hash (ngxStrlow name) = some ⟨true, true, index, none⟩ ∧ index < n

namespace SetCall

/-- The object whose `set` is called, as its name. -/
def object (c : SetCall) : Ngx VariableWorld (List UInt8) :=
  if c.fresh then NgxVariable.construct c.name else pure (ngxStrlow c.name)

def run (conf : VariablesConf) (r : Nat) (c : SetCall) : Ngx VariableWorld Unit :=
  Exec.catching (do
    Exec.modify fun w => w.answering c.grants
    let mName ← c.object
    let _ ← NgxVariable.set conf r mName c.value
    pure ()) fun _ => pure ()

def served (c : SetCall) : Bool :=
  if c.fresh then granted c.grants && granted c.grants.tail else granted c.grants

def shown (c : SetCall) : Option (List UInt8) :=
  if c.value.isEmpty then none else some (c.value.take (c.value.length % 2 ^ 28))

def effect (conf : VariablesConf) (values : List (Option (List UInt8))) (c : SetCall) :
    List (Option (List UInt8)) :=
  match conf.hash (ngxStrlow c.name) with
  | some v => if c.served then values.set v.index c.shown else values
  | none => values

end SetCall

section Slots

variable {w : VariableWorld} {conf : VariablesConf} {r array n index : Nat}
  {values : List (Option (List UInt8))}

theorem bytes_take (ram : Ram) (data : Nat) {len k : Nat} (short : k ≤ len) :
    NgxString.bytes ram ⟨k, data⟩ = (NgxString.bytes ram ⟨len, data⟩).take k := by
  unfold NgxString.bytes Ram.span
  rw [← List.map_take, List.take_range]
  congr 2
  dsimp only
  omega

theorem shown_set (m : ByteMem) (value : List UInt8) :
    (NgxVariableValue.set (m.stored value) value.isEmpty).shown (m.store value).ram =
      if value.isEmpty then none else some (value.take (value.length % 2 ^ 28)) := by
  cases empty : value.isEmpty with
  | true => rfl
  | false =>
    have short : value.length % 2 ^ 28 ≤ value.length := Nat.mod_le _ _
    have shown := bytes_take (m.store value).ram m.brk short
    have stored : NgxString.bytes (m.store value).ram ⟨value.length, m.brk⟩ = value :=
      ByteMem.bytes_stored m value
    rw [stored] at shown
    exact congrArg some shown

theorem placed_set (m : ByteMem) (value : List UInt8)
    (valid : (NgxVariableValue.set (m.stored value) value.isEmpty).isValid) :
    (NgxVariableValue.set (m.stored value) value.isEmpty).text.Placed (m.store value) := by
  cases empty : value.isEmpty with
  | true => simp [empty, NgxVariableValue.set, NgxVariableValue.isValid] at valid
  | false =>
    have short : value.length % 2 ^ 28 ≤ value.length := Nat.mod_le _ _
    have placed := ByteMem.stored_placed m value
    unfold NgxStr.Placed at placed ⊢
    exact Nat.le_trans (Nat.add_le_add_left short m.brk) placed

theorem setSlot_ok {v : NgxVariableValue} {i : Nat} (holds : Holds w r array values)
    (inside : i < values.length) (placed : v.isValid → v.text.Placed w.bytes) :
    ∃ w', NgxVariable.setSlot r i v w = .ok () w' ∧
      Holds w' r array (values.set i (v.shown w.bytes.ram)) ∧
      ∀ r' array' values', array' ≠ array → Holds w r' array' values' →
        Holds w' r' array' values' := by
  obtain ⟨⟨rq, request, rfl⟩, vs, found, rfl, old⟩ := holds
  rw [List.length_map] at inside
  have at_request : onMem (readRequest r) w = .ok rq w := Exec.zoom_ok (readRequest_ok request)
  have at_values := Exec.deref_some (ε := NgxException)
    (f := fun w : VariableWorld => w.mem.vars.read rq.vars) found
  refine ⟨w.setValues rq.vars (vs.set i v), ?_, ?_, ?_⟩
  · rw [NgxVariable.setSlot, Exec.bind_ok _ at_request, Exec.bind_ok _ at_values, if_pos inside]
    rfl
  · refine ⟨⟨rq, request, rfl⟩, vs.set i v, Heap.read_write_self found, List.map_set, ?_⟩
    intro v' member valid
    rcases List.mem_or_eq_of_mem_set member with inherited | rfl
    · exact old v' inherited valid
    · exact placed valid
  · intro r' array' values' different other
    obtain ⟨vs', found', rest⟩ := other.slots
    exact ⟨other.request, vs', (Heap.read_write_ne different).trans found', rest⟩

theorem set_ok {name : List UInt8} (value : List UInt8) (plain : Plain conf n name index)
    (holds : Holds w r array values) (enough : n ≤ values.length)
    (yes : granted w.mem.headers.grants = true) :
    ∃ w', NgxVariable.set conf r (ngxStrlow name) value w = .ok true w' ∧
      Holds w' r array (values.set index
        (if value.isEmpty then none else some (value.take (value.length % 2 ^ 28)))) ∧
      ∀ r' array' values', array' ≠ array → Holds w r' array' values' →
        Holds w' r' array' values' := by
  obtain ⟨w', written, here, others⟩ := setSlot_ok (r := r) (i := index)
    (holds.asked.storing value) (Nat.lt_of_lt_of_le plain.2 enough) (placed_set w.bytes value)
  refine ⟨w', ?_, ?_, fun r' array' values' different other =>
    others r' array' values' different (other.asked.storing value)⟩
  · rw [NgxVariable.set, plain.1]
    dsimp only
    rw [if_pos rfl, Exec.bind_ok _ (dupString_ok value yes), if_pos rfl, Exec.bind_ok _ written]
    rfl
  · have shown := shown_set w.bytes value
    rw [← shown]
    exact here

theorem set_raised {name : List UInt8} (value : List UInt8) (plain : Plain conf n name index)
    (no : granted w.mem.headers.grants = false) :
    NgxVariable.set conf r (ngxStrlow name) value w = .raised ⟨ngxError⟩ w.asked := by
  rw [NgxVariable.set, plain.1]
  dsimp only
  rw [if_pos rfl, Exec.bind_raised _ (dupString_raised value no)]

end Slots

section Calls

variable {w w' : VariableWorld} {conf : VariablesConf} {r sr a b n index : Nat} {c : SetCall}
  {values : List (Option (List UInt8))}

def Kept (w w' : VariableWorld) : Prop :=
  ∀ r a values, Holds w r a values → Holds w' r a values

theorem SetCall.object_cases (c : SetCall) (w : VariableWorld) :
    (∃ w', c.object (w.answering c.grants) = .ok (ngxStrlow c.name) w' ∧ Kept w w' ∧
        c.served = granted w'.mem.headers.grants) ∨
      ∃ w', c.object (w.answering c.grants) = .raised ⟨ngxError⟩ w' ∧ Kept w w' ∧
        c.served = false := by
  unfold SetCall.object SetCall.served
  cases fresh : c.fresh with
  | false => exact .inl ⟨_, rfl, fun _ _ _ holds => holds.answering c.grants, rfl⟩
  | true =>
    cases yes : granted c.grants with
    | true =>
      have copied := dupString_ok (w := w.answering c.grants) (ngxStrlow c.name) yes
      refine .inl ⟨_, Exec.bind_ok _ copied, fun _ _ _ holds => ?_, rfl⟩
      exact (holds.answering c.grants).asked.storing _
    | false =>
      have failed := dupString_raised (w := w.answering c.grants) (ngxStrlow c.name) yes
      exact .inr ⟨_, Exec.bind_raised _ failed, fun _ _ _ holds => (holds.answering _).asked, rfl⟩

theorem SetCall.run_ok (plain : Plain conf n c.name index) (holds : Holds w r a values)
    (enough : n ≤ values.length) :
    ∃ w', c.run conf r w = .ok () w' ∧ Holds w' r a (c.effect conf values) ∧
      ∀ r' b values', b ≠ a → Holds w r' b values' → Holds w' r' b values' := by
  have asked : (Exec.modify fun w => w.answering c.grants : Ngx VariableWorld Unit) w =
      .ok () (w.answering c.grants) := rfl
  unfold SetCall.run SetCall.effect
  rw [plain.1]
  obtain ⟨w1, made, kept, served⟩ | ⟨w1, failed, kept, served⟩ := c.object_cases w
  · rw [served]
    cases yes : granted w1.mem.headers.grants with
    | true =>
      obtain ⟨w2, done, here, others⟩ :=
        set_ok c.value plain (kept _ _ _ holds) enough yes
      refine ⟨w2, Exec.catching_ok _ ?_, here, fun r' b values' different other =>
        others r' b values' different (kept _ _ _ other)⟩
      rw [Exec.bind_ok _ asked, Exec.bind_ok _ made, Exec.bind_ok _ done]
      rfl
    | false =>
      have thrown := set_raised (r := r) c.value plain yes
      refine ⟨w1.asked, ?_, (kept _ _ _ holds).asked, fun r' b values' _ other =>
        (kept _ _ _ other).asked⟩
      refine (Exec.catching_raised (e := ⟨ngxError⟩) _ ?_).trans rfl
      rw [Exec.bind_ok _ asked, Exec.bind_ok _ made, Exec.bind_raised _ thrown]
  · rw [served]
    refine ⟨w1, (Exec.catching_raised (e := ⟨ngxError⟩) _ ?_).trans rfl, kept _ _ _ holds,
      fun r' b values' _ other => kept _ _ _ other⟩
    rw [Exec.bind_ok _ asked, Exec.bind_raised _ failed]

theorem SetCall.length_effect (conf : VariablesConf) (values : List (Option (List UInt8)))
    (c : SetCall) : (c.effect conf values).length = values.length := by
  unfold SetCall.effect
  split
  · split <;> simp
  · rfl

theorem SetCall.length_effects (conf : VariablesConf) (calls : List SetCall)
    (values : List (Option (List UInt8))) :
    (calls.foldl (SetCall.effect conf) values).length = values.length := by
  induction calls generalizing values with
  | nil => rfl
  | cons c calls ih => rw [List.foldl_cons, ih, c.length_effect]

def SetCall.on (conf : VariablesConf) (r sr : Nat) (call : Side × SetCall) :
    Ngx VariableWorld Unit :=
  call.2.run conf (call.1.list r sr)

theorem each_set (different : a ≠ b) (calls : List (Side × SetCall))
    {values : Side → List (Option (List UInt8))}
    (plain : ∀ call ∈ calls, ∃ index, Plain conf n call.2.name index)
    (enough : ∀ side, n ≤ (values side).length)
    (holds : ∀ side : Side, Holds w (side.list r sr) (side.list a b) (values side)) :
    ∃ w', Exec.each (SetCall.on conf r sr) calls w = .ok () w' ∧
      ∀ side : Side, Holds w' (side.list r sr) (side.list a b)
        ((side.own calls).foldl (SetCall.effect conf) (values side)) := by
  induction calls generalizing w values with
  | nil => exact ⟨w, rfl, holds⟩
  | cons call calls ih =>
    obtain ⟨index, known⟩ := plain call (by simp)
    obtain ⟨w1, done, here, others⟩ := SetCall.run_ok known (holds call.1) (enough call.1)
    have next : ∀ side : Side, Holds w1 (side.list r sr) (side.list a b)
        (if call.1 = side then call.2.effect conf (values side) else values side) := by
      intro side
      by_cases same : call.1 = side
      · rw [if_pos same, ← same]
        exact here
      · rw [if_neg same]
        refine others _ _ _ ?_ (holds side)
        cases side <;> cases side' : call.1 <;> simp_all [Side.list, Ne.symm different]
    have long : ∀ side : Side, n ≤
        (if call.1 = side then call.2.effect conf (values side) else values side).length := by
      intro side
      split
      · rw [SetCall.length_effect]
        exact enough side
      · exact enough side
    obtain ⟨w', rest, final⟩ :=
      ih (fun later member => plain later (List.mem_cons_of_mem _ member)) long next
    have first : SetCall.on conf r sr call w = .ok () w1 := done
    refine ⟨w', (Exec.each_cons_ok first).trans rest, fun side => ?_⟩
    have shown := final side
    by_cases same : call.1 = side
    · rw [Side.own_cons, if_pos same, List.singleton_append, List.foldl_cons]
      rwa [if_pos same] at shown
    · rw [Side.own_cons, if_neg same, List.nil_append]
      rwa [if_neg same] at shown

end Calls

section Isolation

variable {w w1 : VariableWorld} {conf : VariablesConf} {r sr a n index : Nat}
  {values : List (Option (List UInt8))}

/-- `get` of a new object. -/
def getNew (conf : VariablesConf) (r : Nat) (name : List UInt8) : Ngx VariableWorld NgxStr := do
  let mName ← NgxVariable.construct name
  NgxVariable.get conf r mName

/-- The bytes that it returns, unless the pool has no room for the name. -/
def gotten (conf : VariablesConf) (r : Nat) (name : List UInt8) (grants : List Bool)
    (w : VariableWorld) : Option (List UInt8) :=
  match getNew conf r name (w.answering grants) with
  | .ok str w' => some (NgxString.bytes w'.bytes.ram str)
  | _ => none

theorem bytes_str (ram : Ram) (v : NgxVariableValue) :
    NgxString.bytes ram (NgxVariableValue.str (some v)) = (v.shown ram).getD [] := by
  unfold NgxVariableValue.shown
  simp only [NgxVariableValue.str]
  by_cases valid : v.isValid = true
  · rw [if_pos valid, if_pos valid]
    rfl
  · rw [if_neg valid, if_neg valid]
    rfl

theorem readSlot_ok {i : Nat} (holds : Holds w r a values) (inside : i < values.length) :
    ∃ v, NgxVariable.readSlot r i w = .ok v w ∧
      values[i]? = some (v.shown w.bytes.ram) := by
  obtain ⟨⟨rq, request, rfl⟩, vs, found, rfl, -⟩ := holds
  rw [List.length_map] at inside
  have at_request : onMem (readRequest r) w = .ok rq w := Exec.zoom_ok (readRequest_ok request)
  have slot : (w.mem.vars.read rq.vars).bind (fun values => values[i]?) = some vs[i] := by
    rw [found]
    exact List.getElem?_eq_getElem inside
  refine ⟨vs[i], ?_, by simp [inside]⟩
  rw [NgxVariable.readSlot, Exec.bind_ok _ at_request]
  exact Exec.deref_some slot

theorem gotten_eq {name : List UInt8} (plain : Plain conf n name index)
    (holds : Holds w r a values) (enough : n ≤ values.length) (grants : List Bool) :
    gotten conf r name grants w =
      if granted grants then some (values[index]?.join.getD []) else none := by
  let w0 := w.answering grants
  unfold gotten getNew
  cases yes : granted grants with
  | false =>
    have failed := dupString_raised (w := w0) (ngxStrlow name) yes
    have unmade : NgxVariable.construct name w0 = .raised ⟨ngxError⟩ w0.asked :=
      Exec.bind_raised _ failed
    rw [Exec.bind_raised _ unmade]
    rfl
  | true =>
    have copied := dupString_ok (w := w0) (ngxStrlow name) yes
    let w1 := w0.asked.storing (ngxStrlow name)
    have made : NgxVariable.construct name w0 = .ok (ngxStrlow name) w1 := Exec.bind_ok _ copied
    obtain ⟨v, slot, shown⟩ := readSlot_ok (i := index)
      ((holds.answering grants).asked.storing (ngxStrlow name))
      (Nat.lt_of_lt_of_le plain.2 enough)
    have found : NgxVariable.ngxGetVariable conf r (ngxStrlow name) w1 = .ok (some v) w1 := by
      rw [NgxVariable.ngxGetVariable, plain.1]
      dsimp only
      rw [if_pos rfl]
      exact Exec.bind_ok _ slot
    have read : NgxVariable.get conf r (ngxStrlow name) w1 =
        .ok (NgxVariableValue.str (some v)) w1 := Exec.bind_ok _ found
    rw [Exec.bind_ok _ made, read, shown, if_pos rfl]
    exact congrArg some (bytes_str _ v)

theorem create_holds {rq : NgxHttpRequest} {vs : List NgxVariableValue}
    (request : w.mem.requests.read r = some rq) (slots : w.mem.vars.read rq.vars = some vs)
    (placed : ∀ v ∈ vs, v.isValid → v.text.Placed w.bytes)
    (created : onMem (NgxSubRequest.create true n r) w = .ok sr w1) (side : Side) :
    rq.vars ≠ w.mem.vars.size ∧ Holds w1 (side.list r sr) (side.list rq.vars w.mem.vars.size)
      ((match side with
        | .parent => vs
        | .child => vs.take n).map (NgxVariableValue.shown w.bytes.ram)) := by
  obtain ⟨mem, made, rfl⟩ := Exec.zoom_eq_ok.mp created
  obtain ⟨rq', vs', kept, sub, request', slots', at_parent, same, at_child, own, fresh⟩ :=
    create_variables made
  obtain rfl := Option.some.inj (request'.symm.trans request)
  obtain rfl := Option.some.inj (slots'.symm.trans slots)
  refine ⟨Nat.ne_of_lt (Heap.read_lt slots), ?_⟩
  cases side with
  | parent =>
    refine ⟨⟨kept, at_parent, same⟩, vs', ?_, rfl, placed⟩
    exact (congrArg (Heap.read · rq'.vars) fresh).trans (Heap.read_alloc slots)
  | child =>
    refine ⟨⟨sub, at_child, own⟩, vs'.take n, ?_, rfl, fun v member =>
      placed v (List.mem_of_mem_take member)⟩
    exact (congrArg (Heap.read · w.mem.vars.size) fresh).trans Heap.read_alloc_self

theorem own_filter {T : Type} (side : Side) (adds : List (Side × T)) :
    side.own (adds.filter fun add => add.1 = side) = side.own adds := by
  simp [Side.own, List.filter_filter]

/-- What `get` returns on one of the two requests does not depend on the calls of `set`
on the other. -/
theorem variables_isolated {rq : NgxHttpRequest} {vs : List NgxVariableValue}
    (request : w.mem.requests.read r = some rq) (slots : w.mem.vars.read rq.vars = some vs)
    (enough : n ≤ vs.length) (placed : ∀ v ∈ vs, v.isValid → v.text.Placed w.bytes)
    (created : onMem (NgxSubRequest.create true n r) w = .ok sr w1)
    {calls : List (Side × SetCall)}
    (plain : ∀ call ∈ calls, ∃ index, Plain conf n call.2.name index)
    (side : Side) {name : List UInt8} (known : ∃ index, Plain conf n name index)
    (grants : List Bool) :
    ∃ w2 w3, Exec.each (SetCall.on conf r sr) calls w1 = .ok () w2 ∧
      Exec.each (SetCall.on conf r sr) (calls.filter fun call => call.1 = side) w1 = .ok () w3 ∧
      (gotten conf (side.list r sr) name grants w2).isSome = granted grants ∧
      gotten conf (side.list r sr) name grants w2 =
        gotten conf (side.list r sr) name grants w3 := by
  obtain ⟨index, known⟩ := known
  have holds := fun side => (create_holds request slots placed created side).2
  have different := (create_holds request slots placed created side).1
  have long : ∀ side : Side, n ≤ ((match side with
      | .parent => vs
      | .child => vs.take n).map (NgxVariableValue.shown w.bytes.ram)).length := by
    intro side
    cases side with
    | parent => simpa using enough
    | child => simpa using Nat.le_min.mpr ⟨Nat.le_refl n, enough⟩
  obtain ⟨w2, all, final⟩ := each_set different calls plain long holds
  obtain ⟨w3, own, final'⟩ := each_set different (calls.filter fun call => call.1 = side)
    (fun call member => plain call (List.mem_of_mem_filter member)) long holds
  have shown := final' side
  rw [own_filter] at shown
  have stays := (SetCall.length_effects conf (side.own calls) _).symm ▸ long side
  have first := gotten_eq known (final side) stays grants
  have second := gotten_eq known shown stays grants
  refine ⟨w2, w3, all, own, ?_, first.trans second.symm⟩
  rw [first]
  cases granted grants <;> rfl

private def oneVariable : VariableWorld where
  mem :=
    { headers := { lists := ⟨[⟨0, 0, 2⟩]⟩, parts := ⟨[⟨some 0, 0, none⟩]⟩, arrays := ⟨[[]]⟩ }
      requests := ⟨[⟨0, 0, none, []⟩]⟩
      vars := ⟨[[⟨0, 0, false, false, false⟩]]⟩ }
  bytes := ⟨fun _ => 0, 64⟩

private def ownVariable : VariableWorld where
  mem :=
    { headers :=
        { lists := ⟨[⟨0, 0, 2⟩, ⟨1, 1, 2⟩]⟩
          parts := ⟨[⟨some 0, 0, none⟩, ⟨some 0, 0, none⟩]⟩
          arrays := ⟨[[]]⟩ }
      requests := ⟨[⟨0, 0, none, [1]⟩, ⟨1, 1, some 0, []⟩]⟩
      vars := ⟨[[⟨0, 0, false, false, false⟩], [⟨0, 0, false, false, false⟩]]⟩ }
  bytes := ⟨fun _ => 0, 64⟩

private def oneName : VariablesConf where
  hash name := if name = [118] then some ⟨true, true, 0, none⟩ else none
  evaluate _ _ := pure none

theorem variables_isolated_child :
    ∃ w2 w3, Exec.each (SetCall.on oneName 0 1)
        [(.parent, { name := [86], value := [1] }), (.child, { name := [118], value := [2] })]
        ownVariable = .ok () w2 ∧
      Exec.each (SetCall.on oneName 0 1) [(.child, { name := [118], value := [2] })]
        ownVariable = .ok () w3 ∧
      gotten oneName 1 [118] [] w2 = gotten oneName 1 [118] [] w3 := by
  have known : Plain oneName 1 [118] 0 := ⟨rfl, by decide⟩
  have capital : Plain oneName 1 [86] 0 := ⟨rfl, by decide⟩
  have unset : ∀ v ∈ [(⟨0, 0, false, false, false⟩ : NgxVariableValue)], v.isValid →
      v.text.Placed oneVariable.bytes := by simp [NgxVariableValue.isValid]
  have plain : ∀ call ∈ [(Side.parent, { name := [86], value := [1] : SetCall }),
      (.child, { name := [118], value := [2] })], ∃ index, Plain oneName 1 call.2.name index := by
    simp only [List.forall_mem_cons]
    exact ⟨⟨0, capital⟩, ⟨0, known⟩, by simp⟩
  have created : onMem (NgxSubRequest.create true 1 0) oneVariable = .ok 1 ownVariable := rfl
  obtain ⟨w2, w3, all, own, -, same⟩ := variables_isolated rfl rfl (Nat.le_refl 1) unset created
    plain .child ⟨0, known⟩ []
  exact ⟨w2, w3, all, own, same⟩

end Isolation

end NgxCpp
