import NgxCpp.Exception
import NgxCpp.Foundation.Runs
import NgxCpp.NgxString

/-! `NgxScript` and `NgxComplexValue`: objects that compile a source and evaluate it for
each request. nginx's compiler and evaluator are parameters; the codes they exchange are
of any type `κ` and the requests of any type `R`. -/

namespace NgxCpp
open Foundation

/-- `ngx_complex_value_t`: a source and, where it has variables or captures, its codes. -/
structure NgxComplexValueT (κ : Type) where
  value : NgxStr := ngxNullString
  lengths : Option κ := none
deriving Repr, DecidableEq

/-- `ngx_compile_complex_value`, where it succeeds, `ngx_complex_value`, and the memory that a
request sees. Captures count as variables. -/
structure ComplexValues (κ R : Type) where
  hasVariables : NgxStr → Bool
  compile : NgxStr → NgxComplexValueT κ
  evaluate : R → NgxComplexValueT κ → Int × NgxStr
  ram : R → Ram

/-- A call of `init`, by the code that the compiler answers and what the pool does. -/
structure InitCall where
  source : NgxStr
  rc : Int := ngxOk
  granted : Bool := true
deriving Repr, DecidableEq

/-- `NgxComplexValue::str`, when nginx answers this code and this value. -/
def NgxComplexValue.str {σ : Type} (answer : Int × NgxStr) : Ngx σ NgxStr := do
  NgxException.requireCode answer.1
  pure answer.2

structure NgxScript (κ : Type) where
  source : NgxStr := ngxNullString
  cv : Option (NgxComplexValueT κ) := none
deriving Repr, DecidableEq

/-- An `NgxComplexValue`, whose compiled value is a member and not a pointer. -/
structure Compiled.NgxComplexValue (κ : Type) where
  source : NgxStr := ngxNullString
  cv : NgxComplexValueT κ
deriving Repr, DecidableEq

section Classes

variable {κ R : Type} (nginx : ComplexValues κ R)

namespace NgxScript

/-- `init`, which keeps the compiled value of a source with variables only. -/
def init (call : InitCall) : Ngx (NgxScript κ) Unit := do
  Exec.modify fun s => { s with source := call.source }
  let cv := nginx.compile call.source
  NgxException.requireCode call.rc
  if cv.lengths.isNone then pure ()
  else
    NgxException.requireCond call.granted
    Exec.modify fun s => { s with cv := some cv }

def str (r : R) : Ngx (NgxScript κ) NgxStr := do
  match ← Exec.gets NgxScript.cv with
  | none => Exec.gets NgxScript.source
  | some cv => NgxComplexValue.str (nginx.evaluate r cv)

end NgxScript

namespace Compiled.NgxComplexValue

def init (call : InitCall) : Ngx (Compiled.NgxComplexValue κ) Unit := do
  Exec.modify fun s => { s with source := call.source }
  Exec.modify fun s => { s with cv := nginx.compile call.source }
  NgxException.requireCode call.rc

def str (r : R) : Ngx (Compiled.NgxComplexValue κ) NgxStr := do
  let cv ← Exec.gets Compiled.NgxComplexValue.cv
  NgxCpp.NgxComplexValue.str (nginx.evaluate r cv)

end Compiled.NgxComplexValue

/-- The bytes of the string that a call returns, or the code that it throws. -/
def NgxString.result {σ : Type} (ram : Ram) :
    Outcome NgxException σ NgxStr → Option (Except Int (List UInt8))
  | .ok s _ => some (.ok (NgxString.bytes ram s))
  | .raised e _ => some (.error e.code)
  | _ => none

namespace ComplexValues

def evaluated (r : R) (source : NgxStr) : Option (Except Int (List UInt8)) :=
  NgxString.result (nginx.ram r)
    (NgxComplexValue.str (nginx.evaluate r (nginx.compile source)) ())

structure Agrees (r : R) (last : NgxStr) (script : NgxScript κ)
    (value : Compiled.NgxComplexValue κ) : Prop where
  script : NgxString.result (nginx.ram r) (NgxScript.str nginx r script) = nginx.evaluated r last
  value : NgxString.result (nginx.ram r) (Compiled.NgxComplexValue.str nginx r value) =
    nginx.evaluated r last

def latest (calls : List InitCall) : Option NgxStr :=
  ((calls.map InitCall.source).filter nginx.hasVariables).getLast?

/-- What nginx promises: a source without variables or captures has no codes, and its value
is the source. -/
structure Documented : Prop where
  codes : ∀ source, (nginx.compile source).lengths.isNone = !nginx.hasVariables source
  constant : ∀ r source, nginx.hasVariables source = false →
    nginx.evaluate r (nginx.compile source) = (ngxOk, source)

end ComplexValues

end Classes

section Histories

variable {κ R : Type} {nginx : ComplexValues κ R} {call last : InitCall}
  {earlier : List InitCall} {script s t : NgxScript κ} {value c : Compiled.NgxComplexValue κ}
  {r : R}

open ComplexValues

theorem NgxString.result_str {σ : Type} (ram : Ram) (answer : Int × NgxStr) (s : σ) :
    NgxString.result ram (NgxComplexValue.str answer s) =
      NgxString.result ram (NgxComplexValue.str answer ()) := by
  by_cases ok : answer.1 = ngxOk <;>
    simp [NgxComplexValue.str, NgxException.requireCode, NgxException.requireCond,
      NgxException.raise, NgxString.result, Exec.bind_apply, ok]

theorem ComplexValues.evaluated_constant (documented : nginx.Documented) (r : R) {source : NgxStr}
    (constant : nginx.hasVariables source = false) :
    nginx.evaluated r source = some (.ok (NgxString.bytes (nginx.ram r) source)) := by
  rw [evaluated, documented.constant r source constant]
  rfl

theorem ComplexValues.latest_append (calls : List InitCall) (call : InitCall) :
    nginx.latest (calls ++ [call]) =
      if nginx.hasVariables call.source then some call.source else nginx.latest calls := by
  cases has : nginx.hasVariables call.source <;> simp [latest, has]

theorem NgxScript.init_eq (documented : nginx.Documented)
    (done : NgxScript.init nginx call s = .ok () t) : t = ⟨call.source,
      if nginx.hasVariables call.source then some (nginx.compile call.source) else s.cv⟩ := by
  rw [NgxScript.init, Exec.bind_ok _ (Exec.modify_apply _ s)] at done
  obtain ⟨_, mid, compiled, done⟩ := Exec.bind_eq_ok.mp done
  obtain ⟨-, rfl⟩ := NgxException.requireCode_eq_ok.mp compiled
  rw [documented.codes] at done
  cases has : nginx.hasVariables call.source with
  | false =>
    rw [has] at done
    obtain ⟨-, rfl⟩ := Outcome.ok.inj done
    rfl
  | true =>
    rw [has, if_neg (by simp)] at done
    obtain ⟨_, mid, allocated, done⟩ := Exec.bind_eq_ok.mp done
    obtain ⟨-, rfl⟩ := NgxException.requireCond_eq_ok.mp allocated
    obtain ⟨-, rfl⟩ := Outcome.ok.inj done
    rfl

/-- After any successful calls a script holds the last source, and the latest one with
variables compiled. -/
theorem NgxScript.inits_eq (documented : nginx.Documented)
    (done : Exec.each (NgxScript.init nginx) (earlier ++ [last]) {} = .ok () script) :
    script = ⟨last.source, (nginx.latest (earlier ++ [last])).map nginx.compile⟩ := by
  have holds := Exec.each_invariant (fun calls s => s.cv = (nginx.latest calls).map nginx.compile ∧
    ∀ call ∈ calls.getLast?, s.source = call.source) ⟨rfl, by simp⟩ ?_ done
  · obtain ⟨compiled, source⟩ := holds
    cases script
    simp_all
  · intro before call s t _ ⟨compiled, _⟩ ran
    obtain rfl := NgxScript.init_eq documented ran
    rw [latest_append]
    constructor
    · split
      · rfl
      · exact compiled
    · simp

theorem Compiled.NgxComplexValue.inits_eq
    (done : Exec.each (Compiled.NgxComplexValue.init nginx) (earlier ++ [last]) c = .ok () value) :
    value = ⟨last.source, nginx.compile last.source⟩ := by
  have holds := Exec.each_invariant (fun calls (v : Compiled.NgxComplexValue κ) =>
    ∀ call ∈ calls.getLast?, v = ⟨call.source, nginx.compile call.source⟩) (by simp) ?_ done
  · exact holds last (by simp)
  · intro before call v w _ _ ran
    rw [Compiled.NgxComplexValue.init, Exec.bind_ok _ (Exec.modify_apply _ v),
      Exec.bind_ok _ (Exec.modify_apply _ _)] at ran
    obtain ⟨-, rfl⟩ := NgxException.requireCode_eq_ok.mp ran
    simp

theorem Compiled.NgxComplexValue.str_eq (r : R) (source : NgxStr) :
    NgxString.result (nginx.ram r)
        (Compiled.NgxComplexValue.str nginx r ⟨source, nginx.compile source⟩) =
      nginx.evaluated r source :=
  NgxString.result_str _ _ _

theorem NgxScript.str_source (r : R) (source : NgxStr) :
    NgxString.result (nginx.ram r) (NgxScript.str nginx r ⟨source, none⟩) =
      some (.ok (NgxString.bytes (nginx.ram r) source)) :=
  rfl

theorem NgxScript.str_compiled (r : R) (source old : NgxStr) :
    NgxString.result (nginx.ram r) (NgxScript.str nginx r ⟨source, some (nginx.compile old)⟩) =
      nginx.evaluated r old :=
  NgxString.result_str _ _ _

/-- The script agrees with full evaluation where no codes are left from an earlier source,
and where they evaluate to the constant that came after them. -/
theorem script_agrees_iff (documented : nginx.Documented)
    (inits : Exec.each (NgxScript.init nginx) (earlier ++ [last]) {} = .ok () script)
    (compiled : Exec.each (Compiled.NgxComplexValue.init nginx) (earlier ++ [last]) c =
      .ok () value) :
    nginx.Agrees r last.source script value ↔
      nginx.hasVariables last.source = true ∨ ∀ old, nginx.latest earlier = some old →
        nginx.evaluated r old = some (.ok (NgxString.bytes (nginx.ram r) last.source)) := by
  obtain rfl := NgxScript.inits_eq documented inits
  obtain rfl := Compiled.NgxComplexValue.inits_eq compiled
  have member := @Compiled.NgxComplexValue.str_eq _ _ nginx r last.source
  rw [latest_append]
  cases has : nginx.hasVariables last.source with
  | true => exact ⟨fun _ => .inl rfl, fun _ => ⟨NgxScript.str_compiled r _ _, member⟩⟩
  | false =>
    have constant := evaluated_constant documented r has
    simp only [Bool.false_eq_true, if_false, false_or]
    -- The raw string leaves the pointer as the earlier calls set it.
    cases stale : nginx.latest earlier with
    | none =>
      have agrees : nginx.Agrees r last.source ⟨last.source, none⟩
          ⟨last.source, nginx.compile last.source⟩ :=
        ⟨(NgxScript.str_source r _).trans constant.symm, member⟩
      exact ⟨fun _ _ found => (nomatch found), fun _ => agrees⟩
    | some old =>
      have pointer := @NgxScript.str_compiled _ _ nginx r last.source old
      constructor
      · rintro agrees _ ⟨⟩
        rw [← pointer, ← constant]
        exact agrees.script
      · intro same
        exact ⟨pointer.trans ((same old rfl).trans constant.symm), member⟩

/-- A memory with the bytes `$abc`, in which a source with a dollar sign is one variable whose
value is the request. -/
def dollarValues : ComplexValues Unit NgxStr :=
  let ram : Ram := fun p => [0, 36, 97, 98, 99].getD p 0
  let hasVariables := fun source => (NgxString.bytes ram source).contains 36
  { hasVariables
    compile := fun source => ⟨source, if hasVariables source then some () else none⟩
    evaluate := fun r cv => (ngxOk, if cv.lengths.isNone then cv.value else r)
    ram := fun _ => ram }

theorem dollarValues_documented : dollarValues.Documented where
  codes source := by cases has : dollarValues.hasVariables source <;> simp_all [dollarValues]
  constant r source none := by simp_all [dollarValues]

/-- The constant `b`, and then the variable `$a` of value `c`. -/
theorem script_agrees_variable :
    dollarValues.Agrees ⟨1, 4⟩ ⟨2, 1⟩ ⟨⟨2, 1⟩, some ⟨⟨2, 1⟩, some ()⟩⟩
      ⟨⟨2, 1⟩, ⟨⟨2, 1⟩, some ()⟩⟩ := by
  have inits : Exec.each (NgxScript.init dollarValues)
      ([⟨⟨1, 3⟩, ngxOk, true⟩] ++ [⟨⟨2, 1⟩, ngxOk, true⟩]) {} =
        .ok () ⟨⟨2, 1⟩, some ⟨⟨2, 1⟩, some ()⟩⟩ := by
    decide
  have compiled : Exec.each (Compiled.NgxComplexValue.init dollarValues)
      ([⟨⟨1, 3⟩, ngxOk, true⟩] ++ [⟨⟨2, 1⟩, ngxOk, true⟩]) ⟨ngxNullString, ⟨ngxNullString, none⟩⟩ =
        .ok () ⟨⟨2, 1⟩, ⟨⟨2, 1⟩, some ()⟩⟩ := by
    decide
  exact (script_agrees_iff dollarValues_documented inits compiled).mpr (.inl (by decide))

/-- After `$a` and then the constant `b` a script answers `c`, the value of the variable. -/
theorem script_answers_old_value : ∃ script value,
    Exec.each (NgxScript.init dollarValues) [⟨⟨2, 1⟩, ngxOk, true⟩, ⟨⟨1, 3⟩, ngxOk, true⟩] {} =
      .ok () script ∧
    Exec.each (Compiled.NgxComplexValue.init dollarValues)
      [⟨⟨2, 1⟩, ngxOk, true⟩, ⟨⟨1, 3⟩, ngxOk, true⟩] ⟨ngxNullString, ⟨ngxNullString, none⟩⟩ =
      .ok () value ∧
    ¬ dollarValues.Agrees ⟨1, 4⟩ ⟨1, 3⟩ script value := by
  refine ⟨⟨⟨1, 3⟩, some ⟨⟨2, 1⟩, some ()⟩⟩, ⟨⟨1, 3⟩, ⟨⟨1, 3⟩, none⟩⟩, by decide, by decide, ?_⟩
  intro agrees
  exact absurd agrees.script (by decide)

end Histories

end NgxCpp
