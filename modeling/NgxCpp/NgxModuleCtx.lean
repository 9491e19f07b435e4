import NgxCpp.Foundation.Ensures
import NgxCpp.Foundation.Heap
import NgxCpp.Foundation.Runs
import NgxCpp.NgxModule
import Mathlib.Logic.Function.Basic

/-! `NgxModuleCtx`: each session has an array of pointers, one for each module, and `data`
makes a module's object at the first use. The sessions and the modules share the memory,
and handlers keep the references that `data` gave them. -/

namespace NgxCpp
open Foundation

/-- An object in the pool of a session, without a value once the pool is destroyed. -/
structure CtxObject (V : Type) where
  session : Nat
  value : Option V
deriving Repr, DecidableEq

/-- The pointers of the sessions by session and module index, and the objects that they
point to; `V` is the values of all the modules' classes. -/
structure CtxWorld (V : Type) where
  ctx : Nat × Nat → Option Nat := fun _ => none
  objects : Heap (CtxObject V) := {}
  grants : PoolAnswers := []

namespace CtxWorld

variable {V : Type} (w : CtxWorld V)

def read (p : Nat) : Option V := (w.objects.read p).bind CtxObject.value

/-- What a session has for a module: the reference and the object's value. -/
def cell (key : Nat × Nat) : Option (Nat × V) :=
  (w.ctx key).bind fun p => (w.read p).map fun v => (p, v)

end CtxWorld

namespace NgxModuleCtx

variable {V : Type}

def ctx (key : Nat × Nat) : Ngx (CtxWorld V) (Option Nat) := Exec.gets fun w => w.ctx key

def setCtx (key : Nat × Nat) (p : Option Nat) : Ngx (CtxWorld V) Unit :=
  Exec.modify fun w => { w with ctx := Function.update w.ctx key p }

def empty (key : Nat × Nat) : Ngx (CtxWorld V) Bool := do
  let p ← ctx key
  pure p.isNone

def clear (key : Nat × Nat) : Ngx (CtxWorld V) Unit := setCtx key none

/-- `alloc`, of an object as its constructor leaves it, with the pool or without. -/
def alloc (made : V) (r : Nat) : Ngx (CtxWorld V) Nat := do
  let made ← Exec.zoom CtxWorld.grants (fun grants w => { w with grants }) (NgxPool.alloc made)
  let p ← Exec.gets fun w => w.objects.size
  Exec.modify fun w => { w with objects := w.objects.alloc ⟨r, some made⟩ }
  pure p

/-- `data`, which returns a reference. -/
def data (made : V) (key : Nat × Nat) : Ngx (CtxWorld V) Nat := do
  if ← empty key then
    let p ← alloc made key.1
    setCtx key (some p)
  Exec.deref fun w => w.ctx key

def assign (p : Nat) (v : V) : Ngx (CtxWorld V) Unit := do
  let object ← Exec.deref fun w => (w.objects.read p).filter fun o => o.value.isSome
  Exec.modify fun w => { w with objects := w.objects.write p { object with value := some v } }

/-- nginx takes all contexts of a session away for an internal redirect. -/
def reset (r : Nat) : Ngx (CtxWorld V) Unit :=
  Exec.modify fun w => { w with ctx := fun key => if key.1 = r then none else w.ctx key }

/-- The session ends with its pool, and another one begins in its place. -/
def finish (r : Nat) : Ngx (CtxWorld V) Unit :=
  Exec.modify fun w => { w with
    ctx := fun key => if key.1 = r then none else w.ctx key
    objects := w.objects.map fun o => if o.session = r then { o with value := none } else o }

end NgxModuleCtx

/-- What the handlers and nginx do: `data` with the reference that it returned, or with none
where it threw, and an assignment through a reference that it returned for this key. -/
inductive CtxAct (V : Type) where
  | data (key : Nat × Nat) (answer : Option Nat)
  | assign (key : Nat × Nat) (p : Nat) (v : V)
  | clear (key : Nat × Nat)
  | reset (r : Nat)
  | finish (r : Nat)
deriving Repr, DecidableEq

namespace CtxAct

variable {V : Type}

/-- One step, where `made` is what the modules' constructors make. -/
def Step (made : Nat → V) (w : CtxWorld V) (act : CtxAct V) (w' : CtxWorld V) : Prop :=
  match act with
  | data key (some p) => NgxModuleCtx.data (made key.2) key w = .ok p w'
  | data key none => ∃ e, NgxModuleCtx.data (made key.2) key w = .raised e w'
  | assign _ p v => NgxModuleCtx.assign p v w = .ok () w'
  | clear key => NgxModuleCtx.clear key w = .ok () w'
  | reset r => NgxModuleCtx.reset r w = .ok () w'
  | finish r => NgxModuleCtx.finish r w = .ok () w'

def concerns (key : Nat × Nat) : CtxAct V → Bool
  | data key' _ | assign key' _ _ | clear key' => key' = key
  | reset r | finish r => r = key.1

/-- What an act on a context makes of it. A reference from before it was cleared is no
longer the context's. -/
def next (made : V) (cell : Option (Nat × V)) : CtxAct V → Option (Nat × V)
  | data _ (some p) => some (cell.getD (p, made))
  | data _ none => cell
  | assign _ p v => cell.map fun (q, old) => (q, if q = p then v else old)
  | clear _ | reset _ | finish _ => none

def finishes (r : Nat) : CtxAct V → Bool
  | finish r' => r' = r
  | _ => false

def since (r : Nat) (acts : List (CtxAct V)) : List (CtxAct V) :=
  acts.reverse.takeWhile fun act => !act.finishes r

/-- An assignment is through a reference that `data` returned before in the session, for
this key. -/
def Refers (before : List (CtxAct V)) : CtxAct V → Prop
  | assign key p _ => data key (some p) ∈ since key.1 before
  | _ => True

instance [DecidableEq V] (before : List (CtxAct V)) :
    (act : CtxAct V) → Decidable (act.Refers before)
  | assign key p _ => inferInstanceAs (Decidable (data key (some p) ∈ since key.1 before))
  | data _ _ | clear _ | reset _ | finish _ => inferInstanceAs (Decidable True)

def Referenced (acts : List (CtxAct V)) : Prop :=
  ∀ i (inside : i < acts.length), acts[i].Refers (acts.take i)

instance [DecidableEq V] (acts : List (CtxAct V)) : Decidable (Referenced acts) :=
  inferInstanceAs (Decidable (∀ i (inside : i < acts.length), acts[i].Refers (acts.take i)))

def cellOf (made : Nat → V) (acts : List (CtxAct V)) (key : Nat × Nat) : Option (Nat × V) :=
  (acts.filter (concerns key)).foldl (next (made key.2)) none

end CtxAct

namespace NgxModuleCtx

variable {V : Type} {made : V} {key : Nat × Nat} {w : CtxWorld V} {p : Nat}

theorem data_present (present : w.ctx key = some p) : data made key w = .ok p w := by
  have full : empty key w = .ok false w := by simp [empty, ctx, Exec.bind_apply, present]
  rw [data, Exec.bind_ok _ full, if_neg (by decide)]
  exact Exec.deref_some present

theorem data_made (absent : w.ctx key = none) (memory : granted w.grants = true) :
    data made key w = .ok w.objects.size
      { ctx := Function.update w.ctx key (some w.objects.size)
        objects := w.objects.alloc ⟨key.1, some made⟩, grants := w.grants.tail } := by
  have none : empty key w = .ok true w := by simp [empty, ctx, Exec.bind_apply, absent]
  have asked : NgxPool.alloc made w.grants = .ok made w.grants.tail := by
    rw [NgxPool.alloc, Exec.bind_apply, NgxPool.answer, memory]
    rfl
  have given : alloc made key.1 w = .ok w.objects.size
      { w with objects := w.objects.alloc ⟨key.1, some made⟩, grants := w.grants.tail } := by
    rw [alloc, Exec.bind_ok _ (Exec.zoom_ok asked)]
    rfl
  have set : setCtx key (some w.objects.size)
      { w with objects := w.objects.alloc ⟨key.1, some made⟩, grants := w.grants.tail } = .ok ()
      { ctx := Function.update w.ctx key (some w.objects.size)
        objects := w.objects.alloc ⟨key.1, some made⟩, grants := w.grants.tail } := rfl
  rw [data, Exec.bind_ok _ none, if_pos rfl, Exec.bind_ok _ given, Exec.bind_ok _ set]
  exact Exec.deref_some (Function.update_self ..)

theorem data_refused (absent : w.ctx key = none) (refused : granted w.grants = false) :
    data made key w = .raised ⟨ngxError⟩ { w with grants := w.grants.tail } := by
  have none : empty key w = .ok true w := by simp [empty, ctx, Exec.bind_apply, absent]
  have asked : NgxPool.alloc made w.grants = .raised ⟨ngxError⟩ w.grants.tail := by
    rw [NgxPool.alloc, Exec.bind_apply, NgxPool.answer, refused]
    rfl
  have given : alloc made key.1 w = .raised ⟨ngxError⟩ { w with grants := w.grants.tail } := by
    refine Exec.bind_raised _ ?_
    rw [Exec.zoom, asked]
  rw [data, Exec.bind_ok _ none, if_pos rfl, Exec.bind_raised _ given]

theorem assign_stands {r : Nat} {v old : V} (stands : w.objects.read p = some ⟨r, some old⟩) :
    assign p v w = .ok () { w with objects := w.objects.write p ⟨r, some v⟩ } := by
  have there : (w.objects.read p).filter (fun o => o.value.isSome) = some ⟨r, some old⟩ := by
    rw [stands]
    rfl
  rw [assign, Exec.bind_ok _ (Exec.deref_some (s := w) there)]
  rfl

end NgxModuleCtx

namespace CtxAct

variable {V : Type} {made : Nat → V} {acts : List (CtxAct V)} {act : CtxAct V}
  {w w' : CtxWorld V} {key : Nat × Nat}

theorem Referenced.init (referenced : Referenced (acts ++ [act])) : Referenced acts := by
  intro i inside
  have here := referenced i (by simp; omega)
  rwa [List.getElem_append_left inside, List.take_append_of_le_length (Nat.le_of_lt inside)] at here

theorem Referenced.last (referenced : Referenced (acts ++ [act])) : act.Refers acts := by
  have here := referenced acts.length (by simp)
  rwa [List.getElem_concat_length rfl, List.take_left] at here

theorem cellOf_append (made : Nat → V) (acts : List (CtxAct V)) (act : CtxAct V)
    (key : Nat × Nat) : cellOf made (acts ++ [act]) key =
      if act.concerns key then next (made key.2) (cellOf made acts key) act
      else cellOf made acts key := by
  rw [cellOf, List.filter_append, List.foldl_append]
  cases concerned : act.concerns key <;> simp [concerned, cellOf]

theorem since_append (r : Nat) (acts : List (CtxAct V)) (act : CtxAct V) :
    since r (acts ++ [act]) = if act.finishes r then [] else act :: since r acts := by
  cases ended : act.finishes r <;> simp [since, ended]

theorem mem_since {r : Nat} {other : CtxAct V} (on : act.finishes r = false) :
    other ∈ since r (acts ++ [act]) ↔ other = act ∨ other ∈ since r acts := by
  rw [since_append, on, if_neg (by decide), List.mem_cons]

/-- A reference returned in a session is to an object of this session that is still there,
which belongs to no context but the one that it was returned for. -/
structure Owned (w : CtxWorld V) (key : Nat × Nat) (p : Nat) : Prop where
  stands : ∃ v, w.objects.read p = some ⟨key.1, some v⟩
  only : ∀ key', w.ctx key' = some p → key' = key

/-- After these acts each context is what its own acts made of it, in an object whose
reference was returned for it. -/
structure Kept (made : Nat → V) (acts : List (CtxAct V)) (w : CtxWorld V) : Prop where
  given : ∀ key p, w.ctx key = some p → data key (some p) ∈ since key.1 acts
  owned : ∀ key p, data key (some p) ∈ since key.1 acts → Owned w key p
  cells : ∀ key, w.cell key = cellOf made acts key

theorem Kept.cell_present (kept : Kept made acts w) {p : Nat} (present : w.ctx key = some p) :
    ∃ v, w.objects.read p = some ⟨key.1, some v⟩ ∧ w.cell key = some (p, v) := by
  obtain ⟨v, stands⟩ := (kept.owned key p (kept.given key p present)).stands
  exact ⟨v, stands, by simp [CtxWorld.cell, CtxWorld.read, present, stands]⟩

theorem Kept.take (kept : Kept made acts w) {ctx : Nat × Nat → Option Nat} {act : CtxAct V}
    (taken : ∀ key, if act.concerns key then ctx key = none else ctx key = w.ctx key)
    (clears : ∀ made cell, next made cell act = none)
    (unreferenced : ∀ key p, act ≠ data key (some p)) (on : ∀ r, act.finishes r = false) :
    Kept made (acts ++ [act]) { w with ctx } := by
  have fewer : ∀ key p, ctx key = some p → w.ctx key = some p := by
    intro key p present
    have here := taken key
    split at here
    · rw [here] at present
      cases present
    · rwa [← here]
  refine ⟨fun key p present => ?_, fun key p given => ?_, fun key => ?_⟩
  · exact (mem_since (on _)).mpr (.inr (kept.given key p (fewer key p present)))
  · have before := ((mem_since (on _)).mp given).resolve_left (Ne.symm (unreferenced key p))
    obtain ⟨stands, only⟩ := kept.owned key p before
    exact ⟨stands, fun key' present => only key' (fewer key' p present)⟩
  · rw [cellOf_append, CtxWorld.cell]
    dsimp only
    have here := taken key
    split at here
    case isTrue concerned =>
      rw [here, if_pos concerned, clears]
      rfl
    case isFalse other =>
      rw [here, if_neg other]
      exact kept.cells key

theorem Kept.ended (kept : Kept made acts w) (r : Nat) : Kept made (acts ++ [finish r])
    { w with
      ctx := fun key => if key.1 = r then none else w.ctx key
      objects := w.objects.map fun o =>
        if o.session = r then { o with value := none } else o } := by
  have ended : ∀ r', (finish r : CtxAct V).finishes r' = decide (r = r') := fun _ => rfl
  have remains : ∀ {key : Nat × Nat} {p : Nat} {v : V}, key.1 ≠ r →
      w.objects.read p = some ⟨key.1, some v⟩ → (w.objects.map fun o : CtxObject V =>
        if o.session = r then { o with value := none } else o).read p =
          some ⟨key.1, some v⟩ := by
    intro key p v other stands
    rw [Heap.read_map, stands, Option.map_some, if_neg other]
  refine ⟨fun key p present => ?_, fun key p given => ?_, fun key => ?_⟩
  · dsimp only at present
    split at present
    case isTrue => cases present
    case isFalse other =>
      have on : (finish r : CtxAct V).finishes key.1 = false := by simp [ended, Ne.symm other]
      exact (mem_since on).mpr (.inr (kept.given key p present))
  · by_cases same : key.1 = r
    · rw [since_append, ended, if_pos (by simp [same])] at given
      cases given
    · have on : (finish r : CtxAct V).finishes key.1 = false := by simp [ended, Ne.symm same]
      obtain given | before := (mem_since on).mp given
      · cases given
      · obtain ⟨⟨v, stands⟩, only⟩ := kept.owned key p before
        refine ⟨⟨v, remains same stands⟩, fun key' present => ?_⟩
        dsimp only at present
        split at present
        · cases present
        · exact only key' present
  · rw [cellOf_append, ← kept.cells, CtxWorld.cell]
    dsimp only
    by_cases same : key.1 = r
    · simp [same, concerns, next]
    · have apart : (finish r : CtxAct V).concerns key = false := by simp [concerns, Ne.symm same]
      rw [if_neg same, apart, if_neg (by decide)]
      cases present : w.ctx key with
      | none => rw [CtxWorld.cell, present]; rfl
      | some p =>
        obtain ⟨v, stands, cell⟩ := kept.cell_present present
        rw [cell, Option.bind_some, CtxWorld.read, remains same stands]
        rfl

theorem Kept.same (kept : Kept made acts w) {grants : PoolAnswers} {answer : Option Nat}
    (present : w.ctx key = answer) :
    Kept made (acts ++ [data key answer]) { w with grants } := by
  refine ⟨fun key' p here => (mem_since rfl).mpr (.inr (kept.given key' p here)), ?_,
    fun key' => ?_⟩
  · intro key' p given
    have before : data key' (some p) ∈ since key'.1 acts := by
      obtain last | before := (mem_since rfl).mp given
      · obtain ⟨rfl, rfl⟩ := CtxAct.data.inj last
        exact kept.given key' p present
      · exact before
    obtain ⟨stands, only⟩ := kept.owned key' p before
    exact ⟨stands, only⟩
  · have cell : CtxWorld.cell { w with grants } key' = w.cell key' := rfl
    rw [cellOf_append, cell, kept.cells]
    split
    case isFalse => rfl
    case isTrue concerned =>
      obtain rfl : key = key' := of_decide_eq_true concerned
      cases answer with
      | none => rfl
      | some p =>
        obtain ⟨v, -, held⟩ := kept.cell_present present
        rw [kept.cells] at held
        rw [held]
        rfl

theorem Kept.make (kept : Kept made acts w) (absent : w.ctx key = none) {grants : PoolAnswers} :
    Kept made (acts ++ [data key (some w.objects.size)])
      { ctx := Function.update w.ctx key (some w.objects.size)
        objects := w.objects.alloc ⟨key.1, some (made key.2)⟩, grants } := by
  have old : ∀ {key' p}, data key' (some p) ∈ since key'.1 acts → p < w.objects.size := by
    intro key' p given
    obtain ⟨v, stands⟩ := (kept.owned key' p given).stands
    exact Heap.read_lt stands
  have after : ∀ key' p, Function.update w.ctx key (some w.objects.size) key' = some p →
      key' = key ∧ p = w.objects.size ∨ w.ctx key' = some p := by
    intro key' p present
    by_cases same : key' = key
    · rw [same, Function.update_self] at present
      exact .inl ⟨same, (Option.some.inj present).symm⟩
    · rw [Function.update_of_ne same] at present
      exact .inr present
  refine ⟨fun key' p present => ?_, fun key' p given => ?_, fun key' => ?_⟩
  · obtain ⟨rfl, rfl⟩ | before := after key' p present
    · exact (mem_since rfl).mpr (.inl rfl)
    · exact (mem_since rfl).mpr (.inr (kept.given key' p before))
  · obtain last | before := (mem_since rfl).mp given
    · obtain ⟨rfl, same⟩ := CtxAct.data.inj last
      obtain rfl := Option.some.inj same
      refine ⟨⟨_, Heap.read_alloc_self⟩, fun key'' present => ?_⟩
      obtain ⟨rfl, -⟩ | present := after key'' _ present
      · rfl
      · exact absurd (old (kept.given key'' _ present)) (Nat.lt_irrefl _)
    · obtain ⟨⟨v, stands⟩, only⟩ := kept.owned key' p before
      refine ⟨⟨v, Heap.read_alloc stands⟩, fun key'' present => ?_⟩
      obtain ⟨-, rfl⟩ | present := after key'' p present
      · exact absurd (old before) (Nat.lt_irrefl _)
      · exact only key'' present
  · rw [cellOf_append, ← kept.cells, CtxWorld.cell]
    dsimp only
    split
    case isTrue concerned =>
      obtain rfl : key = key' := of_decide_eq_true concerned
      rw [Function.update_self, Option.bind_some, CtxWorld.read, Heap.read_alloc_self,
        CtxWorld.cell, absent]
      rfl
    case isFalse other =>
      have different : key' ≠ key := fun same => other (decide_eq_true same.symm)
      rw [Function.update_of_ne different, CtxWorld.cell]
      cases present : w.ctx key' with
      | none => rfl
      | some p =>
        have fresh := Nat.ne_of_lt (old (kept.given key' p present))
        rw [Option.bind_some, Option.bind_some, CtxWorld.read, Heap.read_alloc_of_ne fresh]
        rfl

theorem Kept.write (kept : Kept made acts w) {p : Nat} {v old : V}
    (given : data key (some p) ∈ since key.1 acts)
    (read : w.objects.read p = some ⟨key.1, some old⟩) :
    Kept made (acts ++ [assign key p v])
      { w with objects := w.objects.write p ⟨key.1, some v⟩ } := by
  refine ⟨fun key' q here => (mem_since rfl).mpr (.inr (kept.given key' q here)), ?_,
    fun key' => ?_⟩
  · intro key' q later
    obtain last | before := (mem_since rfl).mp later
    · cases last
    · obtain ⟨⟨v', stands⟩, only⟩ := kept.owned key' q before
      refine ⟨?_, only⟩
      by_cases same : q = p
      · subst same
        obtain ⟨here, -⟩ := CtxObject.mk.inj (Option.some.inj (stands.symm.trans read))
        exact ⟨v, here ▸ Heap.read_write_self read⟩
      · exact ⟨v', (Heap.read_write_ne same).trans stands⟩
  · rw [cellOf_append, ← kept.cells]
    cases present : w.ctx key' with
    | none =>
      simp only [CtxWorld.cell, present, Option.bind_none]
      split <;> rfl
    | some q =>
      obtain ⟨v', stands, cell⟩ := kept.cell_present present
      rw [cell, CtxWorld.cell]
      dsimp only
      rw [present, Option.bind_some, CtxWorld.read]
      by_cases same : q = p
      · subst same
        obtain rfl := (kept.owned key q given).only key' present
        simp [Heap.read_write_self read, concerns, next]
      · rw [Heap.read_write_ne same, stands]
        split
        case isFalse => rfl
        case isTrue => simp [next, same]

theorem Kept.step (kept : Kept made acts w) (referenced : Referenced (acts ++ [act]))
    (step : act.Step made w w') : Kept made (acts ++ [act]) w' := by
  cases act with
  | data key answer =>
    cases present : w.ctx key with
    | some p =>
      have done : NgxModuleCtx.data (made key.2) key w = _ := NgxModuleCtx.data_present present
      cases answer with
      | some q =>
        obtain ⟨rfl, rfl⟩ := Outcome.ok.inj (done.symm.trans step)
        exact kept.same present
      | none =>
        obtain ⟨e, threw⟩ := step
        cases done.symm.trans threw
    | none =>
      cases memory : granted w.grants with
      | true =>
        have done : NgxModuleCtx.data (made key.2) key w = _ :=
          NgxModuleCtx.data_made present memory
        cases answer with
        | some q =>
          obtain ⟨rfl, rfl⟩ := Outcome.ok.inj (done.symm.trans step)
          exact kept.make present
        | none =>
          obtain ⟨e, threw⟩ := step
          cases done.symm.trans threw
      | false =>
        have done : NgxModuleCtx.data (made key.2) key w = _ :=
          NgxModuleCtx.data_refused present memory
        cases answer with
        | some q => cases done.symm.trans step
        | none =>
          obtain ⟨e, threw⟩ := step
          obtain ⟨-, rfl⟩ := Outcome.raised.inj (done.symm.trans threw)
          exact kept.same present
  | assign key p v =>
    have given : data key (some p) ∈ since key.1 acts := referenced.last
    obtain ⟨old, stands⟩ := (kept.owned key p given).stands
    have done := NgxModuleCtx.assign_stands (v := v) stands
    obtain ⟨-, rfl⟩ := Outcome.ok.inj (done.symm.trans step)
    exact kept.write given stands
  | clear key =>
    obtain ⟨-, rfl⟩ := Outcome.ok.inj step
    refine kept.take (fun key' => ?_) (fun _ _ => rfl) nofun fun _ => rfl
    by_cases same : key' = key
    · subst same
      simp [concerns]
    · simp [concerns, same, Ne.symm same]
  | reset r =>
    obtain ⟨-, rfl⟩ := Outcome.ok.inj step
    refine kept.take (fun key' => ?_) (fun _ _ => rfl) nofun fun _ => rfl
    by_cases same : key'.1 = r
    · simp [concerns, same]
    · simp [concerns, same, Ne.symm same]
  | finish r =>
    obtain ⟨-, rfl⟩ := Outcome.ok.inj step
    exact kept.ended r

end CtxAct

end NgxCpp
