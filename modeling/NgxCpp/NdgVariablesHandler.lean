import NgxCpp.NgxModule
import NgxCpp.NgxVariable

/-! `NgxVariables`, which registers a table of variables, and the getters of the table of
`NdgVariablesHandler`. nginx answers each registration with a variable or with null. -/

namespace NgxCpp
open Foundation

/-- `ngx_variable_t` in a table or as nginx keeps it; `G` names the getters. -/
structure VariableEntry (G : Type) where
  name : List UInt8
  setHandler : Option Nat := none
  getHandler : Option G := none
  data : Nat := 0
  flags : Nat := 0
deriving Repr, DecidableEq

structure VariableTable (G : Type) where
  registered : List (VariableEntry G) := []
  answers : PoolAnswers := []
deriving Repr, DecidableEq

section Init

variable {G : Type}

/-- `ngx_add_variable`, for a name that is new. -/
def ngxAddVariable (name : List UInt8) (flags : Nat) : Ngx (VariableTable G) (Option Nat) :=
  fun t =>
    if granted t.answers then
      .ok (some t.registered.length)
        { registered := t.registered ++ [{ name, flags }], answers := t.answers.tail }
    else .ok none { t with answers := t.answers.tail }

def setVariable (i : Nat) (f : VariableEntry G → VariableEntry G) :
    Ngx (VariableTable G) Unit :=
  Exec.modify fun t => { t with registered := t.registered.modify i f }

namespace NgxVariables

/-- The loop of `init`; a table without an end is read past its end. -/
def initFrom : List (VariableEntry G) → Ngx (VariableTable G) Int
  | [] => Exec.undefined
  | v :: rest =>
    if v.name.length = 0 then pure ngxOk
    else do
      let var ← ngxAddVariable v.name v.flags
      NgxException.fail var.isNone
      let i ← Exec.deref fun _ => var
      setVariable i fun x => { x with getHandler := v.getHandler, data := v.data }
      initFrom rest

/-- `init`, with the table of `get_vars`. -/
def init (getVars : Option (List (VariableEntry G))) : Ngx (VariableTable G) Int :=
  match getVars with
  | none => pure ngxOk
  | some vars => initFrom vars

def named (vars : List (VariableEntry G)) : List (VariableEntry G) :=
  vars.takeWhile fun v => !v.name.isEmpty

/-- nginx refuses one of the variables before the end of the table. -/
def Refused (getVars : Option (List (VariableEntry G))) (answers : PoolAnswers) : Prop :=
  false ∈ answers.take (named (getVars.getD [])).length

open Exec (Throws NoThrow)

theorem initFrom_cons {v : VariableEntry G} (long : v.name ≠ []) (rest : List (VariableEntry G))
    (t : VariableTable G) : initFrom (v :: rest) t =
      if granted t.answers then
        initFrom rest ⟨t.registered ++ [{ v with setHandler := none }], t.answers.tail⟩
      else .raised ⟨ngxError⟩ { t with answers := t.answers.tail } := by
  have inside : ¬ v.name.length = 0 := by simpa using long
  rw [initFrom, if_neg inside]
  cases answer : granted t.answers with
  | false =>
    have refused : ngxAddVariable v.name v.flags t =
        .ok none { t with answers := t.answers.tail } := by
      simp [ngxAddVariable, answer]
    rw [Exec.bind_ok _ refused]
    rfl
  | true =>
    let added : VariableTable G :=
      ⟨t.registered ++ [{ name := v.name, flags := v.flags }], t.answers.tail⟩
    have asked : ngxAddVariable v.name v.flags t = .ok (some t.registered.length) added := by
      simp [ngxAddVariable, answer, added]
    have written : setVariable t.registered.length
        (fun x => { x with getHandler := v.getHandler, data := v.data }) added =
        .ok () ⟨t.registered ++ [{ v with setHandler := none }], t.answers.tail⟩ := by
      simp [setVariable, added, List.modify_eq_take_cons_drop]
    rw [if_pos rfl, Exec.bind_ok _ asked, ← Exec.bind_ok (fun _ => initFrom rest) written]
    rfl

theorem initFrom_throws_iff (vars : List (VariableEntry G)) (t : VariableTable G) :
    Throws (initFrom vars) t ↔ false ∈ t.answers.take (named vars).length := by
  induction vars generalizing t with
  | nil => simp [initFrom, named, Throws, Exec.undefined]
  | cons v rest ih =>
    by_cases long : v.name = []
    · have ends : initFrom (v :: rest) = pure ngxOk := by simp [initFrom, long]
      have none : named (v :: rest) = [] := by simp [named, long]
      simp [ends, none, Throws]
    · have more : named (v :: rest) = v :: named rest := by simp [named, long]
      rw [Throws, initFrom_cons long, more]
      obtain ⟨registered, answers⟩ := t
      cases answers with
      | nil =>
        have last := ih ⟨registered ++ [{ v with setHandler := none }], []⟩
        simpa [granted, Throws] using last
      | cons answer later =>
        have last := ih ⟨registered ++ [{ v with setHandler := none }], later⟩
        cases answer with
        | false => simp [granted]
        | true => simpa [granted, Throws] using last

theorem init_throws_iff (getVars : Option (List (VariableEntry G))) (t : VariableTable G) :
    Throws (init getVars) t ↔ Refused getVars t.answers := by
  cases getVars with
  | none => simp [init, Refused, named, Throws]
  | some vars => exact initFrom_throws_iff vars t

def accepted : List (VariableEntry G) → PoolAnswers → List (VariableEntry G)
  | [], _ => []
  | v :: rest, answers => if granted answers then v :: accepted rest answers.tail else []

instance (getVars : Option (List (VariableEntry G))) (answers : PoolAnswers) :
    Decidable (Refused getVars answers) :=
  inferInstanceAs (Decidable (false ∈ answers.take (named (getVars.getD [])).length))

/-- The table's entries up to its end are registered as they are, or those before the
first that nginx refuses. -/
def Faithful (vars : List (VariableEntry G)) (t : VariableTable G) : Prop :=
  ∃ answers, init (some vars) t =
    if Refused (some vars) t.answers then
      .raised ⟨ngxError⟩ ⟨t.registered ++ accepted (named vars) t.answers, answers⟩
    else .ok ngxOk ⟨t.registered ++ named vars, answers⟩

/-- What `init` keeps of an entry. -/
def kept (v : VariableEntry G) : VariableEntry G := { v with setHandler := none }

theorem kept_eq_iff {v : VariableEntry G} : kept v = v ↔ v.setHandler = none := by
  obtain ⟨name, setHandler, getHandler, data, flags⟩ := v
  simp [kept, eq_comm]

theorem refused_cons {v : VariableEntry G} (long : v.name ≠ []) (rest : List (VariableEntry G))
    (answers : PoolAnswers) : Refused (some (v :: rest)) answers ↔
      (granted answers = true → Refused (some rest) answers.tail) := by
  have more : named (v :: rest) = v :: named rest := by simp [named, long]
  unfold Refused
  rw [Option.getD_some, Option.getD_some, more]
  cases answers with
  | nil => simp [granted]
  | cons answer later => cases answer <;> simp [granted]

theorem accepted_of_not_refused {vars : List (VariableEntry G)} {answers : PoolAnswers}
    (all : false ∉ answers.take vars.length) : accepted vars answers = vars := by
  induction vars generalizing answers with
  | nil => rfl
  | cons v rest ih =>
    cases answers with
    | nil =>
      have later : accepted rest [] = rest := ih (by simp)
      simp [accepted, granted, later]
    | cons answer later =>
      cases answer with
      | false => simp at all
      | true =>
        have rest' : accepted rest later = rest := ih (by simpa using all)
        simp [accepted, granted, rest']

theorem initFrom_eq {vars : List (VariableEntry G)} (ended : ∃ v ∈ vars, v.name = [])
    (t : VariableTable G) : ∃ answers, initFrom vars t =
      if Refused (some vars) t.answers then
        .raised ⟨ngxError⟩ ⟨t.registered ++ (accepted (named vars) t.answers).map kept, answers⟩
      else
        .ok ngxOk ⟨t.registered ++ (accepted (named vars) t.answers).map kept, answers⟩ := by
  induction vars generalizing t with
  | nil => simp at ended
  | cons v rest ih =>
    by_cases long : v.name = []
    · have none : named (v :: rest) = [] := by simp [named, long]
      have unrefused : ¬ Refused (some (v :: rest)) t.answers := by simp [Refused, none]
      exact ⟨t.answers, by simp [initFrom, long, none, unrefused, accepted]⟩
    · have more : named (v :: rest) = v :: named rest := by simp [named, long]
      have later : ∃ w ∈ rest, w.name = [] := by simpa [long] using ended
      rw [initFrom_cons long, more]
      cases answer : granted t.answers with
      | false =>
        have refused : Refused (some (v :: rest)) t.answers :=
          (refused_cons long rest _).mpr (by simp [answer])
        exact ⟨t.answers.tail, by simp [refused, accepted, answer]⟩
      | true =>
        have same : Refused (some (v :: rest)) t.answers ↔ Refused (some rest) t.answers.tail :=
          (refused_cons long rest _).trans (by simp [answer])
        obtain ⟨answers, rest_eq⟩ := ih later ⟨t.registered ++ [kept v], t.answers.tail⟩
        refine ⟨answers, ?_⟩
        rw [if_pos rfl]
        refine rest_eq.trans ?_
        simp [same, accepted, answer]

end NgxVariables

end Init

inductive VariableGetter where
  | today
  | rtt
  | currentMethod
  | parsedUri
deriving Repr, DecidableEq

structure GetterWorld where
  grants : PoolAnswers := []
  bytes : ByteMem
  methodName : NgxStr
  uri : NgxStr
  value : NgxVariableValue

def literal (s : String) : List UInt8 := s.toList.map fun c => c.toNat.toUInt8

namespace NdgVariablesHandler

def nocacheable : Nat := 2

def getVars : List (VariableEntry VariableGetter) := [
  { name := literal "today", getHandler := some .today },
  { name := literal "rtt", getHandler := some .rtt, flags := nocacheable },
  { name := literal "current_method", getHandler := some .currentMethod, flags := nocacheable },
  { name := literal "parsed_uri", getHandler := some .parsedUri, flags := nocacheable },
  { name := [] }]

def setValue (str : NgxStr) : Ngx GetterWorld Unit :=
  Exec.modify fun w => { w with value := NgxVariableValue.set str }

/-- `get_rtt`, with the `tcpi_rtt` of the connection's socket. -/
def getRtt (rtt : UInt32) : Ngx GetterWorld Int := do
  Exec.zoom GetterWorld.grants (fun grants w => { w with grants }) NgxPool.nalloc
  let text := (literal (rtt.toNat / 1000).repr).take 10
  let w ← Exec.gets id
  Exec.modify fun w => { w with bytes := w.bytes.store (text ++ List.replicate (10 - text.length) 0) }
  setValue (w.bytes.stored text)
  pure ngxOk

/-- `get_today`, with the text in the static buffer of `NgxDatetime::today`. -/
def getToday (today : NgxStr) : Ngx GetterWorld Int := do
  setValue today
  pure ngxOk

def getCurrentMethod : Ngx GetterWorld Int := do
  let name ← Exec.gets GetterWorld.methodName
  setValue name
  pure ngxOk

def getParsedUri : Ngx GetterWorld Int := do
  let uri ← Exec.gets GetterWorld.uri
  setValue uri
  pure ngxOk

open Exec (Throws NoThrow)

theorem getRtt_throws_iff (rtt : UInt32) (w : GetterWorld) :
    Throws (getRtt rtt) w ↔ granted w.grants = false := by
  have rest : ∀ text : List UInt8, NoThrow (do
      let w ← Exec.gets id
      Exec.modify fun w => { w with
        bytes := w.bytes.store (text ++ List.replicate (10 - text.length) 0) }
      setValue (w.bytes.stored text)
      pure ngxOk : Ngx GetterWorld Int) := fun text =>
    .bind (.gets _) fun _ => .bind (.modify _) fun _ => .bind (.modify _) fun _ => .pure _
  rw [getRtt, Exec.throws_bind_noThrow fun _ => rest _, Exec.throws_zoom]
  exact NgxPool.throws_alloc () w.grants

theorem getToday_noThrow (today : NgxStr) : NoThrow (getToday today) :=
  .bind (.modify _) fun _ => .pure _

theorem getCurrentMethod_noThrow : NoThrow getCurrentMethod :=
  .bind (.gets _) fun _ => .bind (.modify _) fun _ => .pure _

theorem getParsedUri_noThrow : NoThrow getParsedUri :=
  .bind (.gets _) fun _ => .bind (.modify _) fun _ => .pure _

end NdgVariablesHandler

end NgxCpp
