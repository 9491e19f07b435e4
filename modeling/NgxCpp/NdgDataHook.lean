import NgxCpp.Exception
import NgxCpp.Foundation.Keeps
import NgxCpp.Foundation.Runs
import Mathlib.Logic.Function.Basic

/-! `NdgDataHookHandler`: the response of a subrequest is taken from the filter
chain and kept in the context of a parent that asked for it. The memory of the
chains and `ngx_chain_add_copy`, which may fail, are parameters. -/

namespace NgxCpp
open Foundation

/-- `headers` and `body` are the addresses of a request and of a chain. -/
structure NdgDataHookCtx where
  hook : Bool := false
  status : Int := 0
  headers : Option Nat := none
  body : Option Nat := none
  doHook : Bool := false
deriving Repr, DecidableEq

def NdgDataHookCtx.hooking (ctx : NdgDataHookCtx) : NdgDataHookCtx :=
  { ctx with hook := true, status := 0, headers := none, body := none }

/-- What the handler touches of an `ngx_http_request_t`. -/
structure HookRequest where
  parent : Option Nat
  ctx : Option NdgDataHookCtx := none
  filterNeedInMemory : Bool := false
  headerSent : Bool := false
deriving Repr, DecidableEq

inductive HookNext where
  | header (r : Nat)
  | body (r : Nat) (input : Option Nat)
deriving Repr, DecidableEq

/-- The requests of a worker, the memory of the chains, the coming answers of the
pools (past the end they succeed) and the calls of the next filters so far. -/
structure HookWorld (M : Type) where
  requests : Nat → HookRequest
  chains : M
  grants : List Bool := []
  log : List HookNext := []

variable {M : Type}

namespace HookWorld

def modifyRequest (w : HookWorld M) (r : Nat) (f : HookRequest → HookRequest) : HookWorld M :=
  { w with requests := Function.update w.requests r (f (w.requests r)) }

/-- Whether the `do_hook` flag of a request is set. -/
def doHook (w : HookWorld M) (r : Nat) : Bool := (w.requests r).ctx.any NdgDataHookCtx.doHook

/-- The request has a parent whose context has called `hooking`. -/
def parentHooks (w : HookWorld M) (r : Nat) : Bool :=
  (w.requests r).parent.any fun pr => (w.requests pr).ctx.any NdgDataHookCtx.hook

def captured (w : HookWorld M) (pr r : Nat) : HookWorld M :=
  let hooked := w.modifyRequest r fun request =>
    { request with ctx := request.ctx.map fun ctx => { ctx with doHook := true } }
  let kept := hooked.modifyRequest pr fun request =>
    { request with ctx := request.ctx.map fun ctx => { ctx with headers := some r } }
  kept.modifyRequest r fun request =>
    { request with filterNeedInMemory := true, headerSent := true }

def Generous (w : HookWorld M) : Prop := ∀ granted ∈ w.grants, granted = true

def made (w : HookWorld M) (q : Nat) : HookWorld M :=
  if (w.requests q).ctx.isNone then
    { w.modifyRequest q (fun request => { request with ctx := some {} }) with
      grants := w.grants.tail }
  else w

theorem made_ctx {w : HookWorld M} {q : Nat} :
    ((w.made q).requests q).ctx = some ((w.requests q).ctx.getD {}) := by
  cases found : (w.requests q).ctx with
  | some ctx => simp [made, found]
  | none => simp [made, found, modifyRequest]

end HookWorld

namespace NdgDataHookHandler

def hookAlloc : Ngx (HookWorld M) Bool := fun w =>
  match w.grants with
  | [] => .ok true w
  | granted :: rest => .ok granted { w with grants := rest }

def ctxEmpty (r : Nat) : Ngx (HookWorld M) Bool := Exec.gets fun w => (w.requests r).ctx.isNone

def data (r : Nat) : Ngx (HookWorld M) NdgDataHookCtx := do
  if ← ctxEmpty r then
    if ← hookAlloc then
      Exec.modify fun w => w.modifyRequest r fun request => { request with ctx := some {} }
      pure {}
    else NgxException.raise
  else Exec.deref fun w => (w.requests r).ctx

/-- Write through the reference that `data` returned. -/
def update (r : Nat) (f : NdgDataHookCtx → NdgDataHookCtx) : Ngx (HookWorld M) Unit :=
  Exec.modify fun w => w.modifyRequest r fun request => { request with ctx := request.ctx.map f }

def headerFilter (next : Nat → Ngx (HookWorld M) Int) (r : Nat) : Ngx (HookWorld M) Int :=
  Exec.catching (do
    let request ← Exec.gets fun w => w.requests r
    match request.parent with
    | none => next r
    | some pr =>
      if ← ctxEmpty pr then next r
      else
        let prCtx ← data pr
        if !prCtx.hook then next r
        else
          let _ ← data r
          update r fun ctx => { ctx with doHook := true }
          update pr fun ctx => { ctx with headers := some r }
          Exec.modify fun w => w.modifyRequest r fun request =>
            { request with filterNeedInMemory := true, headerSent := true }
          pure ngxOk) fun e => pure e.code

variable (addCopy : Option Nat → Nat → M → Int × Option Nat × M)

/-- `ngx_chain_add_copy` to the body of a context. -/
def chainAddCopy (pr : Nat) (input : Nat) : Ngx (HookWorld M) Int := do
  let prCtx ← data pr
  let copied ← Exec.gets fun w => addCopy prCtx.body input w.chains
  Exec.modify fun w => { w with chains := copied.2.2 }
  update pr fun ctx => { ctx with body := copied.2.1 }
  pure copied.1

def bodyFilter (next : Nat → Option Nat → Ngx (HookWorld M) Int) (r : Nat) (input : Option Nat) :
    Ngx (HookWorld M) Int :=
  Exec.catching (do
    match input with
    | none => pure ngxOk
    | some chain =>
      if ← ctxEmpty r then next r input
      else
        let ctx ← data r
        if !ctx.doHook then next r input
        else
          let pr ← Exec.deref fun w => (w.requests r).parent
          let rc ← chainAddCopy addCopy pr chain
          NgxException.requireCode rc
          pure ngxOk) fun e => pure e.code

def record (call : HookNext) (rc : Int) : Ngx (HookWorld M) Int := do
  Exec.modify fun w => { w with log := w.log ++ [call] }
  pure rc

/-- A filter is called, with the answer that the next one gives if it is called
too; or the handler of a request calls `hooking`. -/
inductive Event where
  | hooking (r : Nat)
  | header (r : Nat) (rc : Int)
  | body (r : Nat) (input : Option Nat) (rc : Int)
deriving Repr, DecidableEq

namespace Event

def run : Event → Ngx (HookWorld M) Int
  | hooking r => do
    let _ ← data r
    update r NdgDataHookCtx.hooking
    pure ngxOk
  | header r rc => headerFilter (fun r => record (.header r) rc) r
  | body r input rc => bodyFilter addCopy (fun r input => record (.body r input) rc) r input

def step (w : HookWorld M) (e : Event) : HookWorld M := (e.run addCopy w).state?.getD w

/-- A filter call on `r` does nothing but call the next filter with the same
arguments and return its answer. -/
def Transparent (r : Nat) (w : HookWorld M) (e : Event) : Prop :=
  match e with
  | hooking _ => True
  | header r' rc => r' = r → e.run addCopy w = .ok rc { w with log := w.log ++ [.header r] }
  | body r' input rc =>
    r' = r → e.run addCopy w = .ok rc { w with log := w.log ++ [.body r input] }

def Uncaptured (r : Nat) (w : HookWorld M) : Event → Prop
  | header r' _ => r' = r → w.parentHooks r = false
  | _ => True

def flushes (r : Nat) : Event → Bool
  | body r' none _ => r' == r
  | _ => false

end Event

section Unhooked

variable {r : Nat}

/-- The `do_hook` flag of the request is not set. -/
def Unhooked (r : Nat) (w : HookWorld M) : Prop := w.doHook r = false

theorem Unhooked.modifyRequest {w : HookWorld M} (q : Nat) {f : HookRequest → HookRequest}
    (same : q = r → (f (w.requests r)).ctx.any NdgDataHookCtx.doHook = false)
    (unhooked : Unhooked r w) : Unhooked r (w.modifyRequest q f) := by
  unfold Unhooked HookWorld.doHook HookWorld.modifyRequest
  by_cases eq : q = r
  · subst eq
    simpa using same rfl
  · dsimp only
    rw [Function.update_of_ne (Ne.symm eq)]
    exact unhooked

theorem keeps_data (q : Nat) : Exec.Keeps (Unhooked r) (data (M := M) q) := by
  refine .bind (.gets _) fun empty => .ite (.bind ?_ fun granted => .ite ?_ (.raise _)) (.deref _)
  · intro w unhooked w' left
    unfold hookAlloc at left
    split at left <;> obtain rfl := Option.some.inj left <;> exact unhooked
  · refine .bind (.modify fun w unhooked => unhooked.modifyRequest q fun _ => ?_) fun _ => .pure _
    rfl

theorem keeps_update {q : Nat} {f : NdgDataHookCtx → NdgDataHookCtx}
    (same : q = r → ∀ ctx, (f ctx).doHook = ctx.doHook) :
    Exec.Keeps (Unhooked r) (update (M := M) q f) := by
  refine .modify fun w unhooked => unhooked.modifyRequest q fun eq => ?_
  have alone : (fun ctx => (f ctx).doHook) = NdgDataHookCtx.doHook := funext (same eq)
  rw [Option.any_map, alone]
  exact unhooked

theorem keeps_record (call : HookNext) (rc : Int) :
    Exec.Keeps (Unhooked r) (record (M := M) call rc) :=
  .bind (.modify fun _ unhooked => unhooked) fun _ => .pure _

theorem keeps_headerFilter {q : Nat} {next : Nat → Ngx (HookWorld M) Int} (other : q ≠ r)
    (nextKeeps : Exec.Keeps (Unhooked r) (next q)) :
    Exec.Keeps (Unhooked r) (headerFilter next q) := by
  refine .catching (.bind (.gets _) fun request => ?_) fun e => .pure _
  cases request.parent with
  | none => exact nextKeeps
  | some pr =>
    refine .bind (.gets _) fun empty => .ite nextKeeps ?_
    refine .bind (keeps_data pr) fun prCtx => .ite nextKeeps ?_
    refine .bind (keeps_data q) fun _ => .bind (keeps_update fun eq => absurd eq other) fun _ => ?_
    refine .bind (keeps_update fun _ ctx => rfl) fun _ => .bind (.modify ?_) fun _ => .pure _
    exact fun w unhooked => unhooked.modifyRequest q fun eq => absurd eq other

theorem keeps_bodyFilter {q : Nat} {next : Nat → Option Nat → Ngx (HookWorld M) Int}
    (input : Option Nat) (nextKeeps : Exec.Keeps (Unhooked r) (next q input)) :
    Exec.Keeps (Unhooked r) (bodyFilter addCopy next q input) := by
  refine .catching ?_ fun e => .pure _
  cases input with
  | none => exact .pure _
  | some chain =>
    refine .bind (.gets _) fun empty => .ite nextKeeps ?_
    refine .bind (keeps_data q) fun ctx => .ite nextKeeps ?_
    refine .bind (.deref _) fun pr => .bind ?_ fun rc =>
      .bind (.ite (.pure _) (.raise _)) fun _ => .pure _
    refine .bind (keeps_data pr) fun prCtx => .bind (.gets _) fun copied => ?_
    refine .bind (.modify fun _ unhooked => unhooked) fun _ => ?_
    exact .bind (keeps_update fun _ ctx => rfl) fun _ => .pure _

variable {w : HookWorld M}

theorem ctxEmpty_apply (q : Nat) : ctxEmpty q w = .ok (w.requests q).ctx.isNone w := rfl

theorem data_found {q : Nat} {ctx : NdgDataHookCtx} (found : (w.requests q).ctx = some ctx) :
    data q w = .ok ctx w := by
  rw [data, Exec.bind_ok _ (ctxEmpty_apply q), found, if_neg (by simp)]
  exact Exec.deref_some (f := fun w : HookWorld M => (w.requests q).ctx) found

theorem header_transparent (free : w.parentHooks r = false) (rc : Int) :
    (Event.header r rc).run addCopy w = .ok rc { w with log := w.log ++ [.header r] } := by
  refine Exec.catching_ok _ ?_
  rw [Exec.bind_ok _ (Exec.gets_apply _ w)]
  unfold HookWorld.parentHooks at free
  cases parent : (w.requests r).parent with
  | none => rfl
  | some pr =>
    dsimp only
    rw [Exec.bind_ok _ (ctxEmpty_apply pr)]
    cases found : (w.requests pr).ctx with
    | none => rfl
    | some prCtx =>
      have hook : prCtx.hook = false := by simpa [parent, found] using free
      rw [if_neg (by simp), Exec.bind_ok _ (data_found found), hook]
      rfl

theorem body_transparent (unhooked : Unhooked r w) (chain : Nat) (rc : Int) :
    (Event.body r (some chain) rc).run addCopy w =
      .ok rc { w with log := w.log ++ [.body r (some chain)] } := by
  refine Exec.catching_ok _ ?_
  dsimp only
  rw [Exec.bind_ok _ (ctxEmpty_apply r)]
  cases found : (w.requests r).ctx with
  | none => rfl
  | some ctx =>
    have unset : ctx.doHook = false := by simpa [Unhooked, HookWorld.doHook, found] using unhooked
    rw [if_neg (by simp), Exec.bind_ok _ (data_found found), unset]
    rfl

theorem body_null (w : HookWorld M) (rc : Int) :
    (Event.body r none rc).run addCopy w = .ok ngxOk w := rfl

theorem transparent_iff (unhooked : Unhooked r w) {e : Event} (free : e.Uncaptured r w) :
    e.Transparent addCopy r w ↔ e.flushes r = false := by
  cases e with
  | hooking q => simp [Event.Transparent, Event.flushes]
  | header q rc =>
    simp only [Event.Transparent, Event.flushes, iff_true]
    rintro rfl
    exact header_transparent addCopy (free rfl) rc
  | body q input rc =>
    cases input with
    | none =>
      simp only [Event.Transparent, Event.flushes, body_null, beq_eq_false_iff_ne]
      refine imp_congr_right fun _ => iff_of_false (fun same => ?_) id
      have grown := congrArg (fun w => w.log.length) (Outcome.ok.inj same).2
      simp at grown
    | some chain =>
      simp only [Event.Transparent, Event.flushes, iff_true]
      rintro rfl
      exact body_transparent addCopy unhooked chain rc

theorem keeps_run {e : Event} (other : ∀ q rc, e = .header q rc → q ≠ r) :
    Exec.Keeps (Unhooked r) (e.run addCopy) := by
  cases e with
  | hooking q =>
    refine .bind (keeps_data q) fun _ => .bind (keeps_update ?_) fun _ => .pure _
    exact fun _ ctx => rfl
  | header q rc =>
    change Exec.Keeps _ (headerFilter (fun r => record (.header r) rc) q)
    exact keeps_headerFilter (other q rc rfl) (keeps_record _ rc)
  | body q input rc =>
    change Exec.Keeps _ (bodyFilter addCopy (fun r input => record (.body r input) rc) q input)
    exact keeps_bodyFilter addCopy input (keeps_record _ rc)

theorem step_unhooked (unhooked : Unhooked r w) {e : Event} (free : e.Uncaptured r w) :
    Unhooked r (e.step addCopy w) := by
  by_cases mine : ∃ rc, e = .header r rc
  · obtain ⟨rc, rfl⟩ := mine
    rw [Event.step, header_transparent addCopy (free rfl) rc]
    exact unhooked
  · refine (keeps_run addCopy ?_).getD unhooked
    rintro q rc rfl rfl
    exact mine ⟨rc, rfl⟩

end Unhooked

theorem data_made {w : HookWorld M} (generous : w.Generous) (q : Nat) :
    data q w = .ok ((w.requests q).ctx.getD {}) (w.made q) := by
  cases found : (w.requests q).ctx with
  | some ctx =>
    rw [data_found found]
    simp [HookWorld.made, found]
  | none =>
    have answer : hookAlloc w = .ok true { w with grants := w.grants.tail } := by
      obtain ⟨requests, chains, grants, log⟩ := w
      cases grants with
      | nil => rfl
      | cons granted rest =>
        obtain rfl : granted = true := generous granted (by simp)
        rfl
    rw [data, Exec.bind_ok _ (ctxEmpty_apply q), found, if_pos (by simp), Exec.bind_ok _ answer]
    simp [HookWorld.made, found]
    rfl

/-- A header filter call below a request that called `hooking` captures, unless the pool
has run dry. -/
theorem header_run {r pr : Nat} {w : HookWorld M} {prCtx : NdgDataHookCtx}
    (generous : w.Generous) (parent : (w.requests r).parent = some pr)
    (found : (w.requests pr).ctx = some prCtx) (hook : prCtx.hook = true) (rc : Int) :
    (Event.header r rc).run addCopy w = .ok ngxOk ((w.made r).captured pr r) := by
  refine Exec.catching_ok _ ?_
  rw [Exec.bind_ok _ (Exec.gets_apply _ w), parent]
  dsimp only
  rw [Exec.bind_ok _ (ctxEmpty_apply pr), found, if_neg (by simp),
    Exec.bind_ok _ (data_found found), hook, if_neg (by simp),
    Exec.bind_ok _ (data_made generous r)]
  rfl

/-- A header filter call sets the flag of a captured request, unless the pool has
run dry. -/
theorem header_captures {r : Nat} {w : HookWorld M} (hooks : w.parentHooks r = true)
    (generous : w.Generous) (rc : Int) :
    (Event.step addCopy w (.header r rc)).doHook r = true := by
  unfold HookWorld.parentHooks at hooks
  cases parent : (w.requests r).parent with
  | none => simp [parent] at hooks
  | some pr =>
    cases found : (w.requests pr).ctx with
    | none => simp [parent, found] at hooks
    | some prCtx =>
      have hook : prCtx.hook = true := by simpa [parent, found] using hooks
      have at_r := HookWorld.made_ctx (w := w) (q := r)
      rw [Event.step, header_run addCopy generous parent found hook rc]
      by_cases same : pr = r
      · subst same
        simp [HookWorld.doHook, HookWorld.captured, HookWorld.modifyRequest, at_r]
      · simp [HookWorld.doHook, HookWorld.captured, HookWorld.modifyRequest, at_r,
          Function.update_of_ne (Ne.symm same)]

theorem uncaptured_of_unset {r : Nat} {w : HookWorld M} {es : List Event}
    (unset : Along (Event.step addCopy) (fun w e =>
      w.Generous ∧ Unhooked r (e.step addCopy w)) w es) :
    Along (Event.step addCopy) (Event.Uncaptured r) w es := by
  refine unset.imp fun w e ⟨generous, after⟩ => ?_
  cases e with
  | header q rc =>
    rintro rfl
    by_contra hooks
    have captured := header_captures addCopy (by simpa using hooks) generous rc
    exact absurd (captured.symm.trans after) (by simp)
  | hooking q => trivial
  | body q input rc => trivial

/-- In a run that never captures `r`, every filter call on `r` is transparent
exactly when none of its body filter calls gets the null chain. -/
theorem data_hook_transparent_iff {r : Nat} {w : HookWorld M} {es : List Event}
    (unhooked : Unhooked r w)
    (free : Along (Event.step addCopy) (Event.Uncaptured r) w es) :
    Along (Event.step addCopy) (Event.Transparent addCopy r) w es ↔
      ∀ e ∈ es, e.flushes r = false := by
  rw [← along_forall (Event.step addCopy) w]
  refine along_congr_of (Unhooked r) ?_ ?_ unhooked free
  · exact fun w e unhooked free => step_unhooked addCopy unhooked free
  · exact fun w e unhooked free => transparent_iff addCopy unhooked free

private def unhookedWorld : HookWorld Unit where
  requests r := { parent := if r = 1 then some 0 else none }
  chains := ()

private def noCopy (body : Option Nat) (_ : Nat) (m : Unit) : Int × Option Nat × Unit :=
  (ngxOk, body, m)

/-- The main request stays transparent while its subrequest is captured. -/
theorem data_hook_transparent_main :
    Along (Event.step noCopy) (Event.Transparent noCopy 0) unhookedWorld
        [.header 0 0, .body 0 (some 5) 7, .hooking 0, .header 1 0, .body 1 (some 6) 0] ↔
      ∀ e ∈ ([.header 0 0, .body 0 (some 5) 7, .hooking 0, .header 1 0, .body 1 (some 6) 0] :
        List Event), e.flushes 0 = false :=
  data_hook_transparent_iff noCopy rfl (by simp [Along, Event.Uncaptured, HookWorld.parentHooks,
    unhookedWorld])

theorem data_hook_swallows_flush :
    Along (Event.step noCopy) (Event.Uncaptured 0) unhookedWorld [.body 0 none 0] ∧
      ¬ Along (Event.step noCopy) (Event.Transparent noCopy 0) unhookedWorld [.body 0 none 0] := by
  refine ⟨⟨trivial, trivial⟩, fun transparent => ?_⟩
  have grown := congrArg (fun w => w.log.length) (Outcome.ok.inj (transparent.1 rfl)).2
  simp [unhookedWorld] at grown

end NdgDataHookHandler

end NgxCpp
