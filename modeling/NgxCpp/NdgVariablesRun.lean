import NgxCpp.Foundation.Runs
import NgxCpp.NdgVariablesHandler

/-! The variables of all the requests of a worker process. `NgxDatetime::today` prints into one
static buffer, which every value of `$today` points to. -/

namespace NgxCpp
open Foundation

/-- `ngx_tm_t`, as far as a date is printed. -/
structure NgxTm where
  year : Nat
  mon : Nat
  mday : Nat
deriving Repr, DecidableEq

def NgxTm.Regular (tm : NgxTm) : Prop :=
  1000 ≤ tm.year ∧ tm.year < 10000 ∧ tm.mon ≤ 12 ∧ tm.mday ≤ 31

instance (tm : NgxTm) : Decidable tm.Regular := inferInstanceAs (Decidable (_ ∧ _))

namespace NgxDatetime

def twoDigits (n : Nat) : List UInt8 :=
  List.replicate (2 - (literal n.repr).length) 48 ++ literal n.repr

def dateText (tm : NgxTm) : List UInt8 :=
  literal tm.year.repr ++ literal "-" ++ twoDigits tm.mon ++ literal "-" ++ twoDigits tm.mday

/-- `today`, with its static buffer of 20 bytes, when `ngx_localtime` gives `tm`. -/
def today (buf : Nat) (tm : NgxTm) : Ngx ByteMem NgxStr := do
  let text := (dateText tm).take 20
  Exec.modify fun m => { m with ram := m.ram.write buf text }
  pure ⟨text.length, buf⟩

@[simp] theorem length_literal (s : String) : (literal s).length = s.length := by
  simp [literal, String.length_toList]

theorem length_twoDigits {n : Nat} (small : n < 100) : (twoDigits n).length = 2 := by
  have most : n.repr.length ≤ 2 := (Nat.length_repr_le_iff (by decide)).mpr (by omega)
  simp only [twoDigits, List.length_append, List.length_replicate, length_literal]
  omega

theorem length_dateText {tm : NgxTm} (regular : tm.Regular) : (dateText tm).length = 10 := by
  obtain ⟨least, most, mon, mday⟩ := regular
  have digits : tm.year.repr.length = 4 := by
    have most : tm.year.repr.length ≤ 4 := (Nat.length_repr_le_iff (by decide)).mpr (by omega)
    have least : ¬ tm.year.repr.length ≤ 3 := by
      rw [Nat.length_repr_le_iff (by decide)]
      omega
    omega
  have dash : "-".length = 1 := rfl
  simp only [dateText, List.length_append, length_literal, digits, dash,
    length_twoDigits (by omega : tm.mon < 100), length_twoDigits (by omega : tm.mday < 100)]

theorem today_ok {tm : NgxTm} (regular : tm.Regular) (buf : Nat) (m : ByteMem) :
    today buf tm m = .ok ⟨10, buf⟩ { m with ram := m.ram.write buf (dateText tm) } := by
  have whole : (dateText tm).take 20 = dateText tm :=
    List.take_of_length_le (by rw [length_dateText regular]; decide)
  rw [today, whole, length_dateText regular]
  rfl

end NgxDatetime

structure RequestVariables where
  grants : PoolAnswers := []
  methodName : NgxStr
  uri : NgxStr
  values : VariableGetter → NgxVariableValue

structure VariablesProcess where
  bytes : ByteMem
  requests : Nat → RequestVariables

namespace VariablesProcess

abbrev Key : Type := Nat × VariableGetter

def value (w : VariablesProcess) (key : Key) : NgxVariableValue := (w.requests key.1).values key.2

def view (key : Key) (w : VariablesProcess) : GetterWorld where
  grants := (w.requests key.1).grants
  bytes := w.bytes
  methodName := (w.requests key.1).methodName
  uri := (w.requests key.1).uri
  value := w.value key

def put (key : Key) (g : GetterWorld) (w : VariablesProcess) : VariablesProcess where
  bytes := g.bytes
  requests := Function.update w.requests key.1
    { g with values := Function.update (w.requests key.1).values key.2 g.value }

end VariablesProcess

/-- nginx has a variable of request `r` evaluated, at a date or with a round trip time. -/
inductive VariableCall where
  | today (r : Nat) (tm : NgxTm)
  | rtt (r : Nat) (usecs : UInt32)
  | currentMethod (r : Nat)
  | parsedUri (r : Nat)
deriving Repr, DecidableEq

namespace VariableCall
open NdgVariablesHandler VariablesProcess

def key : VariableCall → Key
  | today r _ => (r, .today)
  | rtt r _ => (r, .rtt)
  | currentMethod r => (r, .currentMethod)
  | parsedUri r => (r, .parsedUri)

def run (buf : Nat) : VariableCall → Ngx GetterWorld Int
  | today _ tm => do
    let str ← Exec.zoom GetterWorld.bytes (fun bytes w => { w with bytes })
      (NgxDatetime.today buf tm)
    getToday str
  | rtt _ usecs => getRtt usecs
  | currentMethod _ => getCurrentMethod
  | parsedUri _ => getParsedUri

def Step (buf : Nat) (w : VariablesProcess) (act : VariableCall × Bool) (w' : VariablesProcess) :
    Prop :=
  let call := Exec.zoom (view act.1.key) (put act.1.key) (act.1.run buf)
  match act.2 with
  | true => ∃ rc, call w = .ok rc w'
  | false => ∃ e, call w = .raised e w'

def Regular : VariableCall → Prop
  | today _ tm => tm.Regular
  | _ => True

/-- The text that a call evaluates to, in a process that has started as `w`. -/
def text (w : VariablesProcess) : VariableCall → List UInt8
  | today _ tm => NgxDatetime.dateText tm
  | rtt _ usecs => literal (usecs.toNat / 1000).repr
  | currentMethod r => NgxString.bytes w.bytes.ram (w.requests r).methodName
  | parsedUri r => NgxString.bytes w.bytes.ram (w.requests r).uri

/-- What the variables read as after a call: each holds its own text, but for `$today`, whose
text is the same in all the requests that have it. -/
def next (w : VariablesProcess) (shown : Key → Option (List UInt8)) (act : VariableCall × Bool) :
    Key → Option (List UInt8) :=
  if act.2 then fun key =>
    if key = act.1.key then some (act.1.text w)
    else if key.2 = .today ∧ act.1.key.2 = .today then (shown key).map fun _ => act.1.text w
    else shown key
  else shown

end VariableCall

namespace VariablesProcess
open VariableCall

/-- The string lies in memory that is in use, apart from the static buffer. -/
def Outside (buf : Nat) (m : ByteMem) (s : NgxStr) : Prop :=
  s.Placed m ∧ (s.data + s.len ≤ buf ∨ buf + 20 ≤ s.data)

structure Started (buf : Nat) (w : VariablesProcess) : Prop where
  static : buf + 20 ≤ w.bytes.brk
  blank : ∀ key, (w.value key).isValid = false
  strings : ∀ r, Outside buf w.bytes (w.requests r).methodName ∧
    Outside buf w.bytes (w.requests r).uri
  short : ∀ r, (w.requests r).methodName.len < 2 ^ 28 ∧ (w.requests r).uri.len < 2 ^ 28

def Points (buf : Nat) (m : ByteMem) (key : Key) (v : NgxVariableValue) : Prop :=
  if key.2 = .today then v.text = ⟨10, buf⟩ else Outside buf m v.text

structure KeepsBytes (buf : Nat) (m m' : ByteMem) : Prop where
  grown : m.brk ≤ m'.brk
  bytes : ∀ s, Outside buf m s → NgxString.bytes m'.ram s = NgxString.bytes m.ram s

/-- What a process has become since it started as `w₀`, and what its variables read as. -/
structure Stands (buf : Nat) (w₀ w : VariablesProcess) (shown : Key → Option (List UInt8)) :
    Prop where
  kept : KeepsBytes buf w₀.bytes w.bytes
  strings : ∀ r, (w.requests r).methodName = (w₀.requests r).methodName ∧
    (w.requests r).uri = (w₀.requests r).uri
  points : ∀ key, (w.value key).isValid = true → Points buf w.bytes key (w.value key)
  shown : ∀ key, (w.value key).shown w.bytes.ram = shown key

variable {buf : Nat} {m m' m'' : ByteMem} {w₀ w w' : VariablesProcess} {key : Key}
  {shown : Key → Option (List UInt8)} {g : GetterWorld} {v : NgxVariableValue} {s : NgxStr}

theorem KeepsBytes.refl (buf : Nat) (m : ByteMem) : KeepsBytes buf m m :=
  ⟨Nat.le_refl _, fun _ _ => rfl⟩

theorem KeepsBytes.outside (kept : KeepsBytes buf m m') (outside : Outside buf m s) :
    Outside buf m' s := ⟨Nat.le_trans outside.1 kept.grown, outside.2⟩

theorem KeepsBytes.trans (first : KeepsBytes buf m m') (second : KeepsBytes buf m' m'') :
    KeepsBytes buf m m'' where
  grown := Nat.le_trans first.grown second.grown
  bytes s outside := (second.bytes s (first.outside outside)).trans (first.bytes s outside)

theorem KeepsBytes.store (buf : Nat) (m : ByteMem) (bytes : List UInt8) :
    KeepsBytes buf m (m.store bytes) where
  grown := Nat.le_add_right ..
  bytes _ outside := ByteMem.bytes_store outside.1 bytes

theorem KeepsBytes.overwrite (m : ByteMem) {bytes : List UInt8} (within : bytes.length ≤ 20) :
    KeepsBytes buf m { m with ram := m.ram.write buf bytes } where
  grown := Nat.le_refl _
  bytes s outside := Ram.span_write (outside.2.imp_right fun behind => by omega)

theorem Points.keep (points : Points buf m key v) (kept : KeepsBytes buf m m') :
    Points buf m' key v := by
  unfold Points at *
  split
  case isTrue here => rwa [if_pos here] at points
  case isFalse other =>
    rw [if_neg other] at points
    exact kept.outside points

@[simp] theorem put_value_self (g : GetterWorld) (w : VariablesProcess) (key : Key) :
    (w.put key g).value key = g.value := by
  simp [value, put]

theorem put_value_of_ne {other : Key} (ne : other ≠ key) (g : GetterWorld)
    (w : VariablesProcess) : (w.put key g).value other = w.value other := by
  simp only [value, put]
  by_cases same : other.1 = key.1
  · have apart : other.2 ≠ key.2 := fun same' => ne (Prod.ext same same')
    rw [same, Function.update_self]
    exact Function.update_of_ne apart ..
  · rw [Function.update_of_ne same]

theorem shown_invalid {ram : Ram} (invalid : ¬ v.isValid = true) : v.shown ram = none :=
  if_neg invalid

theorem shown_valid {ram : Ram} (valid : v.isValid = true) :
    v.shown ram = some (NgxString.bytes ram v.text) := if_pos valid

theorem Stands.start (started : Started buf w₀) : Stands buf w₀ w₀ fun _ => none where
  kept := .refl buf w₀.bytes
  strings _ := ⟨rfl, rfl⟩
  points key valid := by
    rw [started.blank key] at valid
    cases valid
  shown key := shown_invalid (by rw [started.blank key]; decide)

/-- What a getter has left, when it has evaluated a variable to `text`. -/
structure Evaluated (buf : Nat) (w : VariablesProcess) (key : Key) (text : List UInt8)
    (g : GetterWorld) : Prop where
  strings : g.methodName = (w.view key).methodName ∧ g.uri = (w.view key).uri
  kept : KeepsBytes buf w.bytes g.bytes
  points : Points buf g.bytes key g.value
  reads : g.value.shown g.bytes.ram = some text
  static : key.2 = .today ∨
    NgxString.bytes g.bytes.ram ⟨10, buf⟩ = NgxString.bytes w.bytes.ram ⟨10, buf⟩

theorem Stands.put (stands : Stands buf w₀ w shown) {text : List UInt8}
    (evaluated : Evaluated buf w key text g) : Stands buf w₀ (w.put key g) fun other =>
      if other = key then some text
      else if other.2 = .today ∧ key.2 = .today then (shown other).map fun _ => text
      else shown other where
  kept := stands.kept.trans evaluated.kept
  strings r := by
    by_cases same : r = key.1
    · subst same
      rw [← (stands.strings key.1).1, ← (stands.strings key.1).2]
      simpa [VariablesProcess.put, view] using evaluated.strings
    · simpa [VariablesProcess.put, same] using stands.strings r
  points other valid := by
    by_cases same : other = key
    · subst same
      rw [put_value_self]
      exact evaluated.points
    · rw [put_value_of_ne same] at valid ⊢
      exact (stands.points other valid).keep evaluated.kept
  shown other := by
    have before := stands.shown other
    by_cases same : other = key
    · subst same
      rw [put_value_self, if_pos rfl]
      exact evaluated.reads
    rw [put_value_of_ne same, if_neg same]
    by_cases valid : (w.value other).isValid = true
    · have place := stands.points other valid
      rw [shown_valid valid] at before ⊢
      by_cases other_today : other.2 = .today
      · rw [Points, if_pos other_today] at place
        by_cases key_today : key.2 = .today
        · -- both values point to the static buffer
          have points := evaluated.points
          have reads := evaluated.reads
          rw [Points, if_pos key_today] at points
          have set : g.value.isValid = true := by
            by_contra unset
            rw [shown_invalid unset] at reads
            cases reads
          rw [shown_valid set, points] at reads
          rw [if_pos ⟨other_today, key_today⟩, ← before, place]
          exact reads
        · rw [if_neg fun both => key_today both.2, ← before, place]
          exact congrArg some (evaluated.static.resolve_left key_today)
      · rw [Points, if_neg other_today] at place
        rw [if_neg fun both => other_today both.1, ← before]
        exact congrArg some (evaluated.kept.bytes _ place)
    · rw [shown_invalid valid] at before ⊢
      rw [← before]
      split <;> rfl

theorem Stands.refused (stands : Stands buf w₀ w shown) (key : Key) (grants : PoolAnswers) :
    Stands buf w₀ (w.put key { w.view key with grants }) shown where
  kept := stands.kept
  strings r := by
    by_cases same : r = key.1
    · subst same
      simpa [VariablesProcess.put, view] using stands.strings key.1
    · simpa [VariablesProcess.put, same] using stands.strings r
  points other valid := by
    by_cases same : other = key
    · subst same
      rw [put_value_self] at valid ⊢
      exact stands.points other valid
    · rw [put_value_of_ne same] at valid ⊢
      exact stands.points other valid
  shown other := by
    by_cases same : other = key
    · subst same
      rw [put_value_self]
      exact stands.shown other
    · rw [put_value_of_ne same]
      exact stands.shown other

theorem text_set (small : s.len < 2 ^ 28) : (NgxVariableValue.set s).text = s := by
  simp only [NgxVariableValue.text, NgxVariableValue.set, Bool.false_eq_true, if_false,
    Nat.mod_eq_of_lt small]

theorem Evaluated.string (strings : g.methodName = (w.view key).methodName ∧
      g.uri = (w.view key).uri) (other : key.2 ≠ .today) (kept : KeepsBytes buf w.bytes g.bytes)
    (same : NgxString.bytes g.bytes.ram ⟨10, buf⟩ = NgxString.bytes w.bytes.ram ⟨10, buf⟩)
    (small : s.len < 2 ^ 28) (outside : Outside buf g.bytes s)
    (value : g.value = NgxVariableValue.set s) :
    Evaluated buf w key (NgxString.bytes g.bytes.ram s) g where
  strings := strings
  kept := kept
  points := by
    rw [Points, if_neg other, value, text_set small]
    exact outside
  reads := by
    rw [value, shown_valid rfl, text_set small]
  static := .inr same

end VariablesProcess

namespace VariableCall
open NdgVariablesHandler VariablesProcess

variable {buf : Nat} {w₀ w w' : VariablesProcess} {shown : Key → Option (List UInt8)}

theorem today_evaluated {tm : NgxTm} (regular : tm.Regular) (buf r : Nat) (w : VariablesProcess) :
    ∃ g, (today r tm).run buf (w.view (r, .today)) = .ok ngxOk g ∧
      Evaluated buf w (r, .today) (NgxDatetime.dateText tm) g := by
  have length := NgxDatetime.length_dateText regular
  let m : ByteMem := { w.bytes with ram := w.bytes.ram.write buf (NgxDatetime.dateText tm) }
  have printed : Exec.zoom GetterWorld.bytes (fun bytes w => { w with bytes })
      (NgxDatetime.today buf tm) (w.view (r, .today)) =
        .ok ⟨10, buf⟩ { w.view (r, .today) with bytes := m } :=
    Exec.zoom_ok (NgxDatetime.today_ok regular buf w.bytes)
  refine ⟨_, Exec.bind_ok _ printed, ⟨rfl, rfl⟩, .overwrite w.bytes (by omega), rfl, ?_, .inl rfl⟩
  have written : NgxString.bytes m.ram ⟨10, buf⟩ = NgxDatetime.dateText tm := by
    rw [NgxString.bytes, ← length]
    exact Ram.span_write_self w.bytes.ram buf _
  exact congrArg some written

theorem rtt_evaluated (static : buf + 20 ≤ w.bytes.brk) (r : Nat) (usecs : UInt32)
    (memory : granted (w.requests r).grants = true) :
    ∃ g, (rtt r usecs).run buf (w.view (r, .rtt)) = .ok ngxOk g ∧
      Evaluated buf w (r, .rtt) (literal (usecs.toNat / 1000).repr) g := by
  let text := literal (usecs.toNat / 1000).repr
  have short : text.length ≤ 10 := by
    have bound := usecs.toNat_lt
    rw [NgxDatetime.length_literal, Nat.length_repr_le_iff (by decide)]
    omega
  let printed := text ++ List.replicate (10 - text.length) 0
  let g : GetterWorld :=
    { w.view (r, .rtt) with
      grants := (w.requests r).grants.tail, bytes := w.bytes.store printed
      value := NgxVariableValue.set (w.bytes.stored text) }
  have asked : NgxPool.nalloc (w.requests r).grants = .ok () (w.requests r).grants.tail := by
    rw [NgxPool.nalloc, NgxPool.alloc, Exec.bind_apply, NgxPool.answer, memory]
    rfl
  have ran : getRtt usecs (w.view (r, .rtt)) = .ok ngxOk g := by
    have given : Exec.zoom GetterWorld.grants (fun grants w => { w with grants }) NgxPool.nalloc
        (w.view (r, .rtt)) = .ok ()
          { w.view (r, .rtt) with grants := (w.requests r).grants.tail } :=
      Exec.zoom_ok asked
    have whole : text.take 10 = text := List.take_of_length_le short
    rw [getRtt, Exec.bind_ok _ given, whole]
    rfl
  have inside : text.length ≤ printed.length := by simp [printed]
  have reads : NgxString.bytes g.bytes.ram (w.bytes.stored text) = text := by
    have all := w.bytes.bytes_stored printed
    rw [ByteMem.stored, bytes_take _ _ inside, ← ByteMem.stored, all]
    exact List.take_left
  have evaluated :
      Evaluated buf w (r, .rtt) (NgxString.bytes g.bytes.ram (w.bytes.stored text)) g :=
    .string ⟨rfl, rfl⟩ (by simp) (.store buf w.bytes printed)
      (ByteMem.bytes_store (Nat.le_trans (by simp) static) printed) (by
        rw [ByteMem.stored]
        exact Nat.lt_of_le_of_lt short (by decide))
      ⟨Nat.add_le_add_left inside _, .inr static⟩ rfl
  rw [reads] at evaluated
  exact ⟨g, ran, evaluated⟩

theorem rtt_refused (r : Nat) (usecs : UInt32)
    (refused : granted (w.requests r).grants = false) :
    (rtt r usecs).run buf (w.view (r, .rtt)) =
      .raised ⟨ngxError⟩ { w.view (r, .rtt) with grants := (w.requests r).grants.tail } := by
  have asked : NgxPool.nalloc (w.requests r).grants =
      .raised ⟨ngxError⟩ (w.requests r).grants.tail := by
    rw [NgxPool.nalloc, NgxPool.alloc, Exec.bind_apply, NgxPool.answer, refused]
    rfl
  refine Exec.bind_raised _ ?_
  unfold Exec.zoom
  rw [show (w.view (r, .rtt)).grants = (w.requests r).grants from rfl, asked]

theorem string_evaluated (stands : Stands buf w₀ w shown) (key : Key) {s : NgxStr}
    (other : key.2 ≠ .today) (outside : Outside buf w₀.bytes s) (small : s.len < 2 ^ 28) :
    Evaluated buf w key (NgxString.bytes w₀.bytes.ram s)
      { w.view key with value := NgxVariableValue.set s } := by
  rw [← stands.kept.bytes s outside]
  exact .string (g := { w.view key with value := NgxVariableValue.set s }) ⟨rfl, rfl⟩ other
    (.refl buf w.bytes) rfl small (stands.kept.outside outside) rfl

theorem outcome (started : Started buf w₀) (stands : Stands buf w₀ w shown) {call : VariableCall}
    (regular : call.Regular) :
    (∃ g, call.run buf (w.view call.key) = .ok ngxOk g ∧
      Evaluated buf w call.key (call.text w₀) g) ∨
    ∃ grants, call.run buf (w.view call.key) =
      .raised ⟨ngxError⟩ { w.view call.key with grants } := by
  have static : buf + 20 ≤ w.bytes.brk := Nat.le_trans started.static stands.kept.grown
  cases call with
  | today r tm => exact .inl (today_evaluated regular buf r w)
  | rtt r usecs =>
    cases memory : granted (w.requests r).grants with
    | true => exact .inl (rtt_evaluated static r usecs memory)
    | false => exact .inr ⟨_, rtt_refused r usecs memory⟩
  | currentMethod r =>
    have evaluated := string_evaluated stands (r, .currentMethod) (by simp)
      (started.strings r).1 (started.short r).1
    rw [← (stands.strings r).1] at evaluated
    refine .inl ⟨_, rfl, ?_⟩
    rw [text, key, ← (stands.strings r).1]
    exact evaluated
  | parsedUri r =>
    have evaluated := string_evaluated stands (r, .parsedUri) (by simp)
      (started.strings r).2 (started.short r).2
    rw [← (stands.strings r).2] at evaluated
    refine .inl ⟨_, rfl, ?_⟩
    rw [text, key, ← (stands.strings r).2]
    exact evaluated

theorem step_stands (started : Started buf w₀) (stands : Stands buf w₀ w shown)
    {act : VariableCall × Bool} (regular : act.1.Regular) (step : Step buf w act w') :
    Stands buf w₀ w' (next w₀ shown act) := by
  obtain ⟨call, returns⟩ := act
  unfold Step Exec.zoom at step
  rcases outcome started stands regular with ⟨g, ran, evaluated⟩ | ⟨grants, threw⟩
  · simp only [ran] at step
    cases returns with
    | true =>
      obtain ⟨rc, left⟩ := step
      obtain ⟨-, rfl⟩ := Outcome.ok.inj left
      exact stands.put evaluated
    | false =>
      obtain ⟨e, left⟩ := step
      cases left
  · simp only [threw] at step
    cases returns with
    | true =>
      obtain ⟨rc, left⟩ := step
      cases left
    | false =>
      obtain ⟨e, left⟩ := step
      obtain ⟨-, rfl⟩ := Outcome.raised.inj left
      exact stands.refused call.key grants

end VariableCall

/-- A process with a static buffer at address 8 and a request with a method and a URI behind. -/
private def newProcess : VariablesProcess where
  bytes := ⟨fun _ => 71, 40⟩
  requests _ :=
    { methodName := ⟨3, 30⟩, uri := ⟨4, 33⟩, values := fun _ => ⟨0, 0, false, false, false⟩ }

end NgxCpp
